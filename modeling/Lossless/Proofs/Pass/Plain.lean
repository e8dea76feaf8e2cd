import Lossless.Proofs.Pass.Ancestors
import Lossless.Proofs.Pass.Replay

/-!
# Pass — passes agree with plain recursion

The plain way to transform a tree: transform the children left to right, build the node anew from
what comes out, and call the transform for it (`Pass.plain`).  Every inner node is built anew, and
the ancestors of a node are a list.

A pass shares what does not change, so it calls the transform for other objects than the plain
recursion does, but for equal ones.  For a transform that respects structure both have equal
results, or errors of the same text (`eager_leads`): by induction on the tree, the plain recursion
replays the pass.  The children that a pass puts into a node are what the transform returned, also
those that it did not take note of, because among objects a child that is the same is the child
(`changes_objects`).

**Agreement** (`sharing_agrees_with_plain`).  The three entry points agree with the plain recursion
that runs among the objects that they leave.
-/

namespace Lossless

variable {σ : Type}

namespace Pass

/-! ### Plain recursion -/

/-- Calls the transform for a node, and names the node's kind when it fails. -/
def plainApply (fn : Transform σ) (above : List Node) (n : Node) : Pass σ Node := do
  match ← tryCatch (call fn n (.ofList above)) fun e => throw (.onNode n.kind e) with
  | none => throw (.onNode n.kind .noResult)
  | some r => return r

mutual
/-- Transforms a tree below the nodes `above`, root first: its children, then the node that is built
anew from the results. -/
def plain (fn : Transform σ) (above : List Node) : Node → Pass σ Node
  | .missing => plainApply fn above .missing
  | .token t => plainApply fn above (.token t)
  | .list id items w => do
    let n : Node := .list id items w
    let results ← plainAll fn (above ++ [n]) items
    plainApply fn above (← making (orFail (n.rebuild (results.map some))))
  | .composite id k cs w => do
    let n : Node := .composite id k cs w
    let results ← plainAll fn (above ++ [n]) cs
    plainApply fn above (← making (orFail (n.rebuild (results.map some))))

/-- Transforms several trees, left to right. -/
def plainAll (fn : Transform σ) (above : List Node) : List Node → Pass σ (List Node)
  | [] => pure []
  | c :: cs => do
    let r ← plain fn above c
    return r :: (← plainAll fn above cs)
end

theorem plainApply_run (fn : Transform σ) (above : List Node) (n : Node) (st : PassState σ) :
    plainApply fn above n st =
      let o := fn n (.ofList above) (st.supply, st.memory)
      (answer n o.1, ⟨o.2.1, st.stats, o.2.2⟩) := by
  rcases ho : fn n (.ofList above) (st.supply, st.memory) with ⟨r, supply, memory⟩
  have hcall : call fn n (.ofList above) st = (r, ⟨supply, st.stats, memory⟩) := by
    simp only [call, ho]
  rw [plainApply, bind_run]
  simp only [tryCatch_run, hcall]
  cases r with
  | error e => rfl
  | ok result => cases result <;> rfl

theorem making_run {n m : Node} {cs : List Node} {supply : Supply} {st : PassState σ}
    (h : n.rebuild (cs.map some) st.supply = .ok (m, supply)) :
    making (orFail (n.rebuild (cs.map some))) st = (.ok m, { st with supply }) := by
  simp only [making, orFail, h]

/-! ### Children -/

section Objects

variable {S : Set Node} {supply : Supply}

/-- Among objects, the children that a pass takes note of are what the transform returned; when it
takes note of none, the transform returned the children themselves. -/
theorem changes_objects (h : Objects S supply) {cs rs : List Node} (hcs : ∀ c ∈ cs, c ∈ S)
    (hrs : ∀ r ∈ rs, r ∈ S) (hlen : rs.length = cs.length) :
    (changes cs rs).getD cs = rs := by
  induction cs generalizing rs with
  | nil => exact (List.eq_nil_of_length_eq_zero hlen).symm
  | cons c cs ih =>
      cases rs with
      | nil => cases hlen
      | cons r rs =>
          rw [changes]
          split
          · next hs =>
              -- a child that is the same is the same object
              obtain rfl := h.eq_of_same (hrs r (.head _)) (hcs c (.head _)) hs
              have htail := ih (fun c' h => hcs c' (.tail _ h)) (fun r' h => hrs r' (.tail _ h))
                (Nat.succ.inj hlen)
              cases hch : changes cs rs with
              | none => rw [hch] at htail; exact congrArg (r :: ·) htail
              | some xs => rw [hch] at htail; exact congrArg (r :: ·) htail
          · rfl

end Objects

/-! ### Agreement -/

section Agreement

variable {J : Set Node → σ → Prop} {S₀ S : Set Node} {fn : Transform σ}

/-- Nodes that are alike, the second among the objects that are there. -/
def AlikeIn (S : Set Node) (m n : Node) : Prop := Node.Alike m n ∧ n ∈ S

/-- Nodes that are alike, the second ones among the objects that are there. -/
def AlikeAllIn (S : Set Node) (ms ns : List Node) : Prop :=
  Node.AlikeAll ms ns ∧ ∀ n ∈ ns, n ∈ S

/-- A pass has an outcome among the objects of `S` that the plain recursion `q` replays. -/
structure Agreed (J : Set Node → σ → Prop) (q : Pass σ Node) (S : Set Node)
    (o : Except Failure Node) : Prop where
  mem : ∀ m, o = .ok m → m ∈ S
  replays : Replays J S o q AlikeIn

/-- The same for several nodes. -/
structure AgreedAll (J : Set Node → σ → Prop) (cs : List Node) (q : Pass σ (List Node))
    (S : Set Node) (o : Except Failure (List Node)) : Prop where
  mem : ∀ ms, o = .ok ms → (∀ m ∈ ms, m ∈ S) ∧ ms.length = cs.length
  replays : Replays J S o q AlikeAllIn

theorem onNode_message (kind : String) (e : Failure) :
    (Failure.onNode kind e).message = "rewrite " ++ kind ++ ": " ++ e.message := rfl

/-- The answers for two nodes of one kind correspond when they are the same answer. -/
theorem corresponds_answer {m n : Node} {r₁ r₂ : Except Failure (Option Node)} {st : PassState σ}
    {Q : Node → Node → PassState σ → Prop} (hk : m.kind = n.kind) (h : Transform.SameAnswer r₁ r₂)
    (hQ : ∀ m' n', r₁ = .ok (some m') → r₂ = .ok (some n') → m'.equal n' = true → Q m' n' st) :
    Corresponds Q (answer m r₁) (answer n r₂, st) := by
  match r₁, r₂, h with
  | .ok (some m'), .ok (some n'), h => exact hQ m' n' rfl rfl h
  | .ok none, .ok none, _ =>
      show (Failure.onNode m.kind .noResult).message = (Failure.onNode n.kind .noResult).message
      rw [hk]
  | .error e, .error e', h =>
      show (Failure.onNode m.kind e).message = (Failure.onNode n.kind e').message
      have h : e.message = e'.message := h
      rw [onNode_message, onNode_message, hk, h]

/-- One call: what the plain recursion has done so far replays the node that the pass calls the
transform for, and calls it too. -/
theorem apply_leads (hfn : fn.Honest J S₀) (hresp : fn.Respects J S₀) (hS : S₀ ⊆ S)
    {above : List Node} (ha : ∀ p ∈ above, p ∈ S₀) {m : Node} {q : Pass σ Node} (hm : m ∈ S)
    (hq : Replays J S (.ok m) q AlikeIn) :
    Leads J S (apply fn (.ofList above) m) (Agreed J (q >>= plainApply fn above)) := by
  have hchain : ∀ p ∈ (Ancestors.ofList above).chain, p ∈ S₀ := by
    rw [Ancestors.ofList_chain]
    exact fun p hp => ha p (List.mem_reverse.mp hp)
  intro st hst
  obtain ⟨S₁, hcall, hst₁⟩ := hfn.calls hS hst hm fun p hp => hS (hchain p hp)
  rw [apply_run]
  refine ⟨S₁, hcall.2.1, hst₁, ?_, ?_⟩
  · exact fun r hr => hcall.2.2.1 r (answer_eq_ok hr)
  · refine (hq.mono hcall.2.1).ok_bind fun S₂ n st₂ hsub hn hst₂ => ?_
    -- the second call is for `n` in place of `m`, among all that the first one left
    have hS₂ : S₀ ⊆ S₂ := (hS.trans hcall.2.1).trans hsub
    have hm₂ : m ∈ S₂ := hsub (hcall.2.1 hm)
    have hchain₂ : ∀ p ∈ (Ancestors.ofList above).chain, p ∈ S₂ := fun p hp => hS₂ (hchain p hp)
    have hsound := hst₂.objects.sound
    obtain ⟨S₃, hcall₂, hst₃⟩ := hfn.calls hS₂ hst₂ hn.2 hchain₂
    have heq : m.equal n = true := hn.1.equal (hsound m hm₂) (hsound n hn.2)
    have heqs : Node.equalAll (Ancestors.ofList above).chain (Ancestors.ofList above).chain = true :=
      (Node.AlikeAll.refl _).equalAll (fun p hp => hsound p (hchain₂ p hp)) fun p hp =>
        hsound p (hchain₂ p hp)
    rw [plainApply_run]
    refine corresponds_answer hn.1.kind_eq (hresp hS hcall hsub hcall₂ heq heqs) ?_
    intro m' n' hm' hn' hmn
    have hm₃ : m' ∈ S₃ := hcall₂.2.1 (hsub (hcall.2.2.1 m' hm'))
    have hn₃ : n' ∈ S₃ := hcall₂.2.2.1 n' hn'
    exact ⟨S₃, hcall₂.2.1, hst₃, hst₃.objects.alike_of_equal hm₃ hn₃ hmn, hn₃⟩

/-- Building anew: when the plain recursion replays what the transform returned for the children, it
replays the node that a pass makes of them. -/
theorem regrow_leads (hfn : fn.Honest J S₀) {n : Node} {q : Pass σ (List Node)} {rs : List Node}
    (hn : n ∈ S) (hinner : n.IsInner) (hrs : ∀ r ∈ rs, r ∈ S)
    (hlen : rs.length = n.children.length) (hq : Replays J S (.ok rs) q AlikeAllIn) :
    Leads J S (regrow n (changes n.children rs)) fun S' o => ∃ m, o = .ok m ∧ m ∈ S' ∧
      Replays J S' (.ok m) (q >>= fun ds => making (orFail (n.rebuild (ds.map some)))) AlikeIn := by
  have hreplay : ∀ {m : Node} {S' : Set Node}, S ⊆ S' →
      (∀ {ds : List Node} {id : Nat}, Node.AlikeAll rs ds → Node.Alike m (n.renewed id ds)) →
      Replays J S' (.ok m) (q >>= fun ds => making (orFail (n.rebuild (ds.map some)))) AlikeIn := by
    intro m S' hS' hm
    refine (hq.mono hS').ok_bind fun S₂ ds st hsub hds hst => ?_
    have hn₂ : n ∈ S₂ := hsub (hS' hn)
    have hlen₂ : ds.length = n.children.length := hds.1.length_eq.symm.trans hlen
    rw [making_run ((hst.objects.sound n hn₂).rebuild_eq hinner hlen₂ st.supply)]
    refine ⟨_, Set.subset_insert _ _, ⟨hst.objects.renew hn₂ hinner hds.2 hlen₂, ?_⟩, hm hds.1,
      Set.mem_insert _ _⟩
    exact hfn.mono (Set.subset_insert _ _) hst.memory
  intro st hst
  have hrs' := changes_objects hst.objects (hst.objects.child n hn) hrs hlen
  cases hch : changes n.children rs with
  | none =>
      -- no child changed: the children of `n` are what the transform returned
      rw [hch] at hrs'
      refine ⟨S, subset_rfl, hst, n, rfl, hn, hreplay subset_rfl fun hds => ?_⟩
      have hrs' : n.children = rs := hrs'
      exact .of_children (hrs' ▸ hds)
  | some xs =>
      rw [hch] at hrs'
      -- what was noted is what the transform returned, the unchanged children included
      obtain rfl : xs = rs := hrs'
      rw [regrow_run ((hst.objects.sound n hn).rebuild_eq hinner hlen st.supply)]
      refine ⟨_, Set.subset_insert _ _, ⟨hst.objects.renew hn hinner hrs hlen, ?_⟩, _, rfl,
        Set.mem_insert _ _, hreplay (Set.subset_insert _ _) fun hds => .renewed hds⟩
      exact hfn.mono (Set.subset_insert _ _) hst.memory

/-- An inner node: its children, the node made of them, and the call. -/
theorem inner_leads (hfn : fn.Honest J S₀) (hresp : fn.Respects J S₀) (hS : S₀ ⊆ S)
    {above : List Node} (ha : ∀ p ∈ above, p ∈ S₀) {n : Node} (hn : n ∈ S₀) (hinner : n.IsInner)
    {p q : Pass σ (List Node)} (hp : Leads J S p (AgreedAll J n.children q)) :
    Leads J S (do apply fn (.ofList above) (← regrow n (changes n.children (← p))))
      (Agreed J (do
        let ds ← q
        plainApply fn above (← making (orFail (n.rebuild (ds.map some)))))) := by
  refine hp.bind (fun S₁ rs hsub h => ?_) fun S₁ e hsub h => ⟨nofun, h.replays.error_bind _⟩
  obtain ⟨hrs, hlen⟩ := h.mem rs rfl
  have hS₁ : S₀ ⊆ S₁ := hS.trans hsub
  refine (regrow_leads hfn (hS₁ hn) hinner hrs hlen h.replays).bind ?_ ?_
  · rintro S₂ m hsub₂ ⟨m', he, hm, hreplay⟩
    cases he
    have hcall := apply_leads hfn hresp (hS₁.trans hsub₂) ha hm hreplay
    rw [bind_assoc] at hcall
    exact hcall
  · rintro S₂ e - ⟨m, he, -⟩
    cases he

/-- A leaf: nothing but the call. -/
theorem leaf_leads (hfn : fn.Honest J S₀) (hresp : fn.Respects J S₀) (hS : S₀ ⊆ S)
    {above : List Node} (ha : ∀ p ∈ above, p ∈ S₀) {n : Node} (hn : n ∈ S₀) :
    Leads J S (apply fn (.ofList above) n) (Agreed J (plainApply fn above n)) := by
  have hq : Replays J S (.ok n) (pure n : Pass σ Node) AlikeIn :=
    .pure fun S' hS' => ⟨.refl n, hS' (hS hn)⟩
  have hcall := apply_leads hfn hresp hS ha (hS hn) hq
  rw [pure_bind] at hcall
  exact hcall

mutual
/-- **A pass and the plain recursion**: the recursion replays the outcome of the pass. -/
theorem eager_leads (hfn : fn.Honest J S₀) (hresp : fn.Respects J S₀)
    (hchild : ∀ n ∈ S₀, ∀ c ∈ n.children, c ∈ S₀) :
    ∀ (n : Node) {above : List Node} {S : Set Node}, S₀ ⊆ S → n ∈ S₀ → (∀ p ∈ above, p ∈ S₀) →
      Leads J S (eager fn (.ofList above) n) (Agreed J (plain fn above n))
  | .missing, above, S, hS, hn, ha => leaf_leads hfn hresp hS ha hn
  | .token t, above, S, hS, hn, ha => leaf_leads hfn hresp hS ha hn
  | .list id items w, above, S, hS, hn, ha => by
      have hall := eagerAll_leads hfn hresp hchild items hS (hchild _ hn)
        (List.forall_mem_append.mpr ⟨ha, List.forall_mem_singleton.mpr hn⟩)
      rw [← Ancestors.ofList_push] at hall
      exact inner_leads hfn hresp hS ha hn trivial hall
  | .composite id k cs w, above, S, hS, hn, ha => by
      have hall := eagerAll_leads hfn hresp hchild cs hS (hchild _ hn)
        (List.forall_mem_append.mpr ⟨ha, List.forall_mem_singleton.mpr hn⟩)
      rw [← Ancestors.ofList_push] at hall
      exact inner_leads hfn hresp hS ha hn trivial hall

theorem eagerAll_leads (hfn : fn.Honest J S₀) (hresp : fn.Respects J S₀)
    (hchild : ∀ n ∈ S₀, ∀ c ∈ n.children, c ∈ S₀) :
    ∀ (cs : List Node) {above : List Node} {S : Set Node}, S₀ ⊆ S → (∀ c ∈ cs, c ∈ S₀) →
      (∀ p ∈ above, p ∈ S₀) →
      Leads J S (eagerAll fn (.ofList above) cs) (AgreedAll J cs (plainAll fn above cs))
  | [], above, S, hS, hcs, ha => by
      refine .pure ⟨fun ms hms => ?_, .pure fun S' _ => ⟨.nil, nofun⟩⟩
      cases hms
      exact ⟨nofun, rfl⟩
  | c :: cs, above, S, hS, hcs, ha => by
      have hc := eager_leads hfn hresp hchild c hS (hcs c (.head _)) ha
      refine hc.bind (fun S₁ r hsub h => ?_) fun S₁ e _ h => ⟨nofun, h.replays.error_bind _⟩
      have hrest := eagerAll_leads hfn hresp hchild cs (hS.trans hsub)
        (fun c' h => hcs c' (.tail _ h)) ha
      -- the recursion replays the first child, then the others among the objects of both
      refine hrest.bind (fun S₂ rs hsub₂ h₂ => .pure ?_) fun S₂ e hsub₂ h₂ => ?_
      · obtain ⟨hrs, hlen⟩ := h₂.mem rs rfl
        refine ⟨fun ms hms => ?_, ?_⟩
        · cases hms
          exact ⟨List.forall_mem_cons.mpr ⟨hsub₂ (h.mem r rfl), hrs⟩, congrArg (· + 1) hlen⟩
        · refine (h.replays.mono hsub₂).ok_bind fun S₃ r' st hsub₃ hr' hst => ?_
          refine (h₂.replays.mono hsub₃).ok_bind ?_ S₃ st subset_rfl hst
          intro S₄ ds st' hsub₄ hds hst'
          exact ⟨S₄, subset_rfl, hst', .cons hr'.1 hds.1,
            List.forall_mem_cons.mpr ⟨hsub₄ hr'.2, hds.2⟩⟩
      · refine ⟨nofun, (h.replays.mono hsub₂).ok_bind fun S₃ r' st hsub₃ _ hst => ?_⟩
        exact h₂.replays.error_bind _ S₃ st hsub₃ hst
end

/-- Structurally equal trees, or errors of one text. -/
def SameResult : Except Failure Node → Except Failure Node → Prop
  | .ok m, .ok n => m.equal n = true
  | .error e, .error e' => e.message = e'.message
  | _, _ => False

/-- The outcome of a pass agrees with a computation that runs among the objects that the pass
leaves, or later: both have the same result. -/
def Agrees (J : Set Node → σ → Prop) (S : Set Node) (o : Outcome σ) (q : Pass σ Node) : Prop :=
  ∃ S₁, S ⊆ S₁ ∧ Present J S₁ o.supply o.memory ∧
    ∀ (S₂ : Set Node) (supply : Supply) (memory : σ), S₁ ⊆ S₂ → Present J S₂ supply memory →
      SameResult o.result (run q supply memory).result

theorem sameResult_of_corresponds {S₂ : Set Node} {o : Except Failure Node}
    {r : Except Failure Node × PassState σ} (ho : ∀ m, o = .ok m → m ∈ S₂)
    (h : Corresponds (Left J S₂ AlikeIn) o r) : SameResult o r.1 := by
  match o, r, h with
  | .ok m, (.ok n, st), ⟨S₃, hsub, hst, halike, hn⟩ =>
      exact halike.equal (hst.objects.sound m (hsub (ho m rfl))) (hst.objects.sound n hn)
  | .error e, (.error e', _), h => exact h

theorem below_agrees {supply : Supply} {memory : σ} {root : Node} {above : List Node}
    (hS : Objects S supply) (hJ : J S memory) (hfn : fn.Honest J S) (hresp : fn.Respects J S)
    (hroot : root ∈ S) (ha : ∀ p ∈ above, p ∈ S) :
    Agrees J S (below root fn (.ofList above) supply memory) (plain fn above root) := by
  obtain ⟨S₁, hsub, hst₁, hmem, hreplay⟩ := eager_leads hfn hresp hS.child root subset_rfl hroot ha
    ⟨supply, {}, memory⟩ ⟨hS, hJ⟩
  rw [below_eq]
  refine ⟨S₁, hsub, hst₁, fun S₂ supply₂ memory₂ hsub₂ hst₂ => ?_⟩
  exact sameResult_of_corresponds (fun m hm => hsub₂ (hmem m hm))
    (hreplay S₂ ⟨supply₂, {}, memory₂⟩ hsub₂ hst₂)

end Agreement

/-! ### A transform that respects structure -/

/-- A node, unless it is a token. -/
def unlessToken : Node → Node
  | .token _ => .missing
  | n => n

/-- The transform that leaves out all tokens. -/
def withoutTokens : PureTransform := fun n _ => pure (some (unlessToken n))

/-- No memory: nothing is to be known about it. -/
def NoMemory (_ : Set Node) (_ : Unit) : Prop := True

theorem unlessToken_mem {S : Set Node} {supply : Supply} (h : Objects S supply) {n : Node}
    (hn : n ∈ S) : unlessToken n ∈ S := by
  cases n with
  | token t => exact h.missing
  | missing | list _ _ _ | composite _ _ _ _ => exact hn

theorem unlessToken_alike {m n : Node} (h : Node.Alike m n) :
    Node.Alike (unlessToken m) (unlessToken n) := by
  cases h with
  | missing | token _ _ _ _ => exact .missing
  | list h => exact .list h
  | composite hk h => exact .composite hk h

theorem withoutTokens_honest (S₀ : Set Node) :
    Transform.Honest withoutTokens.lift NoMemory S₀ where
  mono _ _ := trivial
  call {S supply memory n a} _ hp hn _ := by
    refine ⟨S, subset_rfl, hp, fun m hm => ?_⟩
    cases hm
    exact unlessToken_mem hp.objects hn

theorem withoutTokens_respects (S₀ : Set Node) :
    Transform.Respects withoutTokens.lift NoMemory S₀ := by
  intro S₁ S₁' S₂ S₂' n₁ n₂ a₁ a₂ r₁ r₂ _ h₁ hsub h₂ hn _
  obtain ⟨⟨hn₁, -⟩, hsub₁, -, _, _, _, _, -, -, hr₁⟩ := h₁
  obtain ⟨⟨hn₂, -⟩, -, -, _, _, _, _, hp₂, -, hr₂⟩ := h₂
  cases hr₁
  cases hr₂
  have hn₁ : n₁ ∈ S₂ := hsub (hsub₁ hn₁)
  have hobjects := hp₂.objects
  exact (unlessToken_alike (hobjects.alike_of_equal hn₁ hn₂ hn)).equal
    (hobjects.sound _ (unlessToken_mem hobjects hn₁))
    (hobjects.sound _ (unlessToken_mem hobjects hn₂))

/-- A list with one token. -/
def smallTree : Node := .list 2 [.token ⟨1, "name", [], [97], [], 1⟩] 1

/-- The objects that are there with it. -/
def smallObjects : Set Node :=
  insert smallTree (insert (.token ⟨1, "name", [], [97], [], 1⟩) {.missing})

theorem smallObjects_objects : Objects smallObjects 3 := by
  have htoken : (Node.token ⟨1, "name", [], [97], [], 1⟩).Sound fun _ => True := .token rfl
  have hone := Objects.start.insert (n := .token ⟨1, "name", [], [97], [], 1⟩) rfl nofun htoken
  refine hone.insert (n := smallTree) rfl (fun c hc => ?_) (.list fun c hc => ?_)
  · exact List.mem_singleton.mp hc ▸ Set.mem_insert _ _
  · exact List.mem_singleton.mp hc ▸ htoken

/-- **Passes that share agree with the plain recursion.** For every tree and every list of ancestors
among the objects that are there, and for every transform that respects structure, a pass below the
ancestors, a pass over the whole tree, and a pass that reports what it did fail exactly when the
plain recursion does, with errors of the same text, and otherwise give trees that are structurally
equal to its result. -/
theorem sharing_agrees_with_plain {S : Set Node} {supply : Supply} {root : Node}
    {above : List Node} (hS : Objects S supply) (hroot : root ∈ S) (habove : ∀ p ∈ above, p ∈ S) :
    (∀ (σ : Type) (J : Set Node → σ → Prop) (fn : Transform σ) (memory : σ), J S memory →
      fn.Honest J S → fn.Respects J S →
        Agrees J S (below root fn (.ofList above) supply memory) (plain fn above root) ∧
        Agrees J S (whole root fn supply memory) (plain fn [] root)) ∧
    ∀ fn : PureTransform, Transform.Honest fn.lift NoMemory S →
      Transform.Respects fn.lift NoMemory S →
        Agrees NoMemory S (withStats root fn supply) (plain fn.lift [] root) := by
  have hnone : ∀ p ∈ ([] : List Node), p ∈ S := nofun
  refine ⟨fun σ J fn memory hJ hfn hresp => ⟨?_, ?_⟩, fun fn hfn hresp => ?_⟩
  · exact below_agrees hS hJ hfn hresp hroot habove
  · exact below_agrees hS hJ hfn hresp hroot hnone
  · exact below_agrees hS trivial hfn hresp hroot hnone

theorem sharing_agrees_with_plain_smallTree :
    (Objects smallObjects 3 ∧ smallTree ∈ smallObjects) ∧
      (withStats smallTree withoutTokens 3).result = .ok (.list 3 [.missing] 0) ∧
      Agrees NoMemory smallObjects (withStats smallTree withoutTokens 3)
        (plain withoutTokens.lift [] smallTree) :=
  have hnone : ∀ p ∈ ([] : List Node), p ∈ smallObjects := nofun
  ⟨⟨smallObjects_objects, Set.mem_insert _ _⟩, rfl,
    (sharing_agrees_with_plain smallObjects_objects (Set.mem_insert _ _) hnone).2 withoutTokens
      (withoutTokens_honest _) (withoutTokens_respects _)⟩

end Pass

end Lossless
