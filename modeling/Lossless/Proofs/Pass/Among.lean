import Lossless.Proofs.Node.View
import Lossless.Proofs.Pass.Plain

/-!
# Pass — passes among objects

What one call of a transform makes of a node whose children are done, a pass makes of the whole tree
(`eager_makes`).  The statement about one call relates the objects that are there before the first
child is visited and those after the call, so that it can tell old objects from new ones.

Two passes follow from it.  A pass with a transform that leaves every node of a tree alone returns
the tree, builds nothing and replaces nothing (`withStats_fixed`).  Putting one token in the place of
another one of the same kind and text never fails, changes no view, and changes the tree token by
token (`replace_token`).
-/

namespace Lossless

namespace Node

mutual
/-- Trees of the same shape and kinds, where in the place of every token stands what `f` makes of
it. -/
inductive MapsTokens (f : Token → Token) : Node → Node → Prop where
  | missing : MapsTokens f .missing .missing
  | token {t : Token} : MapsTokens f (.token t) (.token (f t))
  | list {id id' w w' : Nat} {items items' : List Node} (h : MapsTokensAll f items items') :
      MapsTokens f (.list id items w) (.list id' items' w')
  | composite {id id' w w' : Nat} {k : Kind} {cs cs' : List Node} (h : MapsTokensAll f cs cs') :
      MapsTokens f (.composite id k cs w) (.composite id' k cs' w')

@[inherit_doc MapsTokens]
inductive MapsTokensAll (f : Token → Token) : List Node → List Node → Prop where
  | nil : MapsTokensAll f [] []
  | cons {m n : Node} {ms ns : List Node} (h : MapsTokens f m n) (hs : MapsTokensAll f ms ns) :
      MapsTokensAll f (m :: ms) (n :: ns)
end

end Node

/-- How nodes become results one after the other, each among the objects that those before it
left. -/
inductive Chain (Q : Set Node → Set Node → Node → Node → Prop) :
    Set Node → List Node → List Node → Set Node → Prop where
  | nil {S : Set Node} : Chain Q S [] [] S
  | cons {S S₁ S₂ : Set Node} {c r : Node} {cs rs : List Node} (hsub : S ⊆ S₁) (hr : r ∈ S₁)
      (h : Q S S₁ c r) (hrest : Chain Q S₁ cs rs S₂) : Chain Q S (c :: cs) (r :: rs) S₂

namespace Chain

variable {Q : Set Node → Set Node → Node → Node → Prop} {S S' : Set Node} {cs rs : List Node}

theorem subset (h : Chain Q S cs rs S') : S ⊆ S' := by
  induction h with
  | nil => exact subset_rfl
  | cons hsub _ _ _ ih => exact hsub.trans ih

theorem mem (h : Chain Q S cs rs S') : ∀ r ∈ rs, r ∈ S' := by
  induction h with
  | nil =>
      intro r hr
      cases hr
  | cons _ hr _ hrest ih => exact List.forall_mem_cons.mpr ⟨hrest.subset hr, ih⟩

theorem length_eq (h : Chain Q S cs rs S') : rs.length = cs.length := by
  induction h with
  | nil => rfl
  | cons _ _ _ _ ih => exact congrArg (· + 1) ih

end Chain

/-- What a pass calls the transform for in the place of `n`, whose children became `rs` among the
objects of `S`: `n` itself when these are its children, or one more object. -/
inductive RegrownIn (S : Set Node) (n : Node) (rs : List Node) : Node → Set Node → Prop where
  | kept (h : rs = n.children) : RegrownIn S n rs n S
  | anew {id : Nat} (hinner : n.IsInner) (hne : rs ≠ n.children) (hnew : n.renewed id rs ∉ S) :
      RegrownIn S n rs (n.renewed id rs) (insert (n.renewed id rs) S)

namespace RegrownIn

variable {S S' : Set Node} {n m : Node} {rs : List Node}

theorem subset (h : RegrownIn S n rs m S') : S ⊆ S' := by
  cases h with
  | kept _ => exact subset_rfl
  | anew _ _ _ => exact Set.subset_insert _ _

theorem children (h : RegrownIn S n rs m S') : m.children = rs := by
  cases h with
  | kept h => exact h.symm
  | anew hinner _ _ => exact Node.renewed_children hinner

theorem face (h : RegrownIn S n rs m S') : m.face = n.face := by
  cases h with
  | kept _ => rfl
  | anew _ _ _ => exact Node.face_renewed _ _ _

theorem view? (h : RegrownIn S n rs m S') (hrs : rs.map Node.face = n.children.map Node.face) :
    m.view? = n.view? := by
  cases h with
  | kept _ => rfl
  | anew _ _ _ => exact Node.view?_renewed _ hrs

theorem token? (h : RegrownIn S n rs m S') : m.token? = n.token? := by
  cases h with
  | kept _ => rfl
  | anew _ _ _ => cases n <;> rfl

theorem eq_of_children (h : RegrownIn S n rs m S') (hrs : rs = n.children) : m = n := by
  cases h with
  | kept _ => rfl
  | anew _ hne _ => exact absurd hrs hne

theorem isInner (h : RegrownIn S n rs m S') (hn : n.IsInner) : m.IsInner := by
  cases h with
  | kept _ => exact hn
  | anew _ _ _ => cases n <;> exact hn

theorem frontier (h : RegrownIn S n rs m S') :
    m.frontier = Node.frontierAll rs ++ n.token?.toList := by
  rw [Node.frontier_eq, h.children, h.token?]

theorem eq_of_leaf (h : RegrownIn S n rs m S') (hn : ¬n.IsInner) : m = n := by
  cases h with
  | kept _ => rfl
  | anew hinner _ _ => exact absurd hinner hn

end RegrownIn

/-- What one call does among objects, for a node of `S₀` whose children are done: it returns an
object, which stands to the node as `Q` says; or it fails, and then the node is in `E`. -/
structure PureTransform.Makes (fn : PureTransform) (S₀ : Set Node)
    (Q : Set Node → Set Node → Node → Node → Prop) (E : Node → Prop) : Prop where
  call : ∀ {S S₁ S₂ : Set Node} {n m : Node} {rs : List Node} {a : Ancestors} {s : Supply},
    S₀ ⊆ S → n ∈ S₀ → Chain Q S n.children rs S₁ → RegrownIn S₁ n rs m S₂ → m ∈ S₂ →
    Objects S₂ s →
      match fn m a s with
      | .ok (some r, s') => ∃ S₃, S₂ ⊆ S₃ ∧ Objects S₃ s' ∧ r ∈ S₃ ∧ Q S S₃ n r
      | .ok (none, _) => False
      | .error _ => E n
  up : ∀ {n c : Node}, n ∈ S₀ → c ∈ n.children → E c → E n

/-- The state of a pass after calls that left everything alone. -/
def PassState.Undisturbed {σ : Type} (st st' : PassState σ) : Prop :=
  ∃ visited, st' = { st with stats := { st.stats with visited } }

theorem PassState.Undisturbed.trans {σ : Type} {st₁ st₂ st₃ : PassState σ} (h : Undisturbed st₁ st₂)
    (h' : Undisturbed st₂ st₃) : Undisturbed st₁ st₃ := by
  obtain ⟨_, rfl⟩ := h
  obtain ⟨v, rfl⟩ := h'
  exact ⟨v, rfl⟩

namespace Pass

/-! ### From one call to a pass -/

section Makes

variable {fn : PureTransform} {S₀ S : Set Node} {Q : Set Node → Set Node → Node → Node → Prop}
  {E : Node → Prop}

/-- What comes out of a visit among objects. -/
def Made (Q : Set Node → Set Node → Node → Node → Prop) (E : Node → Prop) (S : Set Node) (n : Node)
    (S' : Set Node) : Except Failure Node → Prop :=
  Meets (fun r => r ∈ S' ∧ Q S S' n r) fun _ => E n

/-- What comes out of visiting several nodes. -/
def MadeAll (Q : Set Node → Set Node → Node → Node → Prop) (E : Node → Prop) (S : Set Node)
    (cs : List Node) (S' : Set Node) : Except Failure (List Node) → Prop :=
  Meets (fun rs => Chain Q S cs rs S') fun _ => ∃ c ∈ cs, E c

theorem changes_self (cs : List Node) : changes cs cs = none := by
  induction cs with
  | nil => rfl
  | cons c cs ih => simp [changes, Node.same, ih]

theorem regrow_objects {n : Node} {rs : List Node} (hn : n ∈ S) (hinner : n.IsInner)
    (hrs : ∀ r ∈ rs, r ∈ S) (hlen : rs.length = n.children.length) :
    Leads NoMemory S (regrow n (changes n.children rs)) fun S' o =>
      ∃ m, o = .ok m ∧ m ∈ S' ∧ RegrownIn S n rs m S' := by
  intro st hst
  -- among objects identity is equality: where nothing changed, the results are the children
  have hrs' := changes_objects hst.objects (hst.objects.child n hn) hrs hlen
  cases hch : changes n.children rs with
  | none =>
      rw [hch] at hrs'
      exact ⟨S, subset_rfl, hst, n, rfl, hn, .kept hrs'.symm⟩
  | some xs =>
      rw [hch] at hrs'
      obtain rfl : xs = rs := hrs'
      rw [regrow_run ((hst.objects.sound n hn).rebuild_eq hinner hlen st.supply)]
      refine ⟨_, Set.subset_insert _ _, ⟨hst.objects.renew hn hinner hrs hlen, trivial⟩, _, rfl,
        Set.mem_insert _ _, .anew hinner ?_ fun hmem => ?_⟩
      · rintro rfl
        cases (changes_self _).symm.trans hch
      · -- objects have numbers below the next one
        have hlt := hst.objects.below _ hmem
        rw [Node.renewed_id hinner] at hlt
        exact lt_irrefl _ hlt

/-- One call. -/
theorem apply_makes (h : fn.Makes S₀ Q E) {S₁ S₂ : Set Node} {n m : Node} {rs : List Node}
    (hS : S₀ ⊆ S) (hn : n ∈ S₀) (hall : Chain Q S n.children rs S₁)
    (hm : RegrownIn S₁ n rs m S₂) (hmem : m ∈ S₂) (a : Ancestors) :
    Leads NoMemory S₂ (apply fn.lift a m) (Made Q E S n) := by
  intro st hst
  have hcall := h.call (a := a) hS hn hall hm hmem hst.objects
  rw [apply_run]
  unfold PureTransform.lift
  match hfn : fn m a st.supply with
  | .error e =>
      rw [hfn] at hcall
      exact ⟨S₂, subset_rfl, hst, hcall⟩
  | .ok (none, s') =>
      rw [hfn] at hcall
      exact hcall.elim
  | .ok (some r, s') =>
      rw [hfn] at hcall
      obtain ⟨S₃, hsub, hobjects, hr, hQ⟩ := hcall
      exact ⟨S₃, hsub, ⟨hobjects, trivial⟩, hr, hQ⟩

theorem leaf_makes (h : fn.Makes S₀ Q E) {n : Node} (hS : S₀ ⊆ S) (hn : n ∈ S₀)
    (hleaf : n.children = []) (a : Ancestors) :
    Leads NoMemory S (apply fn.lift a n) (Made Q E S n) := by
  have hall : Chain Q S n.children n.children S := by
    rw [hleaf]
    exact .nil
  exact apply_makes h hS hn hall (.kept rfl) (hS hn) a

theorem inner_makes (h : fn.Makes S₀ Q E) {n : Node} (hS : S₀ ⊆ S) (hn : n ∈ S₀)
    (hinner : n.IsInner) {p : Pass Unit (List Node)}
    (hp : Leads NoMemory S p (MadeAll Q E S n.children)) (a : Ancestors) :
    Leads NoMemory S (do apply fn.lift a (← regrow n (changes n.children (← p))))
      (Made Q E S n) := by
  refine hp.bind (fun S₁ rs hsub hall => ?_) fun S₁ e _ herr => ?_
  · have hall : Chain Q S n.children rs S₁ := hall
    refine (regrow_objects (hsub (hS hn)) hinner hall.mem hall.length_eq).bind ?_ ?_
    · rintro S₂ m - ⟨m', he, hmem, hm⟩
      cases he
      exact apply_makes h hS hn hall hm hmem a
    · rintro S₂ e - ⟨m, he, -⟩
      cases he
  · obtain ⟨c, hc, hE⟩ := herr
    exact h.up hn hc hE

mutual
/-- **What a pass makes of a tree**: by induction on the tree, what one call makes of a node whose
children are done. -/
theorem eager_makes {fn : PureTransform} {S₀ : Set Node}
    {Q : Set Node → Set Node → Node → Node → Prop} {E : Node → Prop} (h : fn.Makes S₀ Q E)
    (hchild : ∀ n ∈ S₀, ∀ c ∈ n.children, c ∈ S₀) :
    ∀ (n : Node) (a : Ancestors) {S : Set Node}, S₀ ⊆ S → n ∈ S₀ →
      Leads NoMemory S (eager fn.lift a n) (Made Q E S n)
  | .missing, a, _, hS, hn => leaf_makes h hS hn rfl a
  | .token _, a, _, hS, hn => leaf_makes h hS hn rfl a
  | .list _ items _, a, _, hS, hn =>
      inner_makes h hS hn trivial (eagerAll_makes h hchild items (a.push _) hS (hchild _ hn)) a
  | .composite _ _ cs _, a, _, hS, hn =>
      inner_makes h hS hn trivial (eagerAll_makes h hchild cs (a.push _) hS (hchild _ hn)) a

theorem eagerAll_makes {fn : PureTransform} {S₀ : Set Node}
    {Q : Set Node → Set Node → Node → Node → Prop} {E : Node → Prop} (h : fn.Makes S₀ Q E)
    (hchild : ∀ n ∈ S₀, ∀ c ∈ n.children, c ∈ S₀) :
    ∀ (cs : List Node) (a : Ancestors) {S : Set Node}, S₀ ⊆ S → (∀ c ∈ cs, c ∈ S₀) →
      Leads NoMemory S (eagerAll fn.lift a cs) (MadeAll Q E S cs)
  | [], _, _, _, _ => .pure .nil
  | c :: cs, a, S, hS, hcs => by
      have hc := eager_makes h hchild c a hS (hcs c (.head _))
      refine hc.bind (fun S₁ r hsub hr => ?_) fun S₁ e _ herr => ⟨c, .head _, herr⟩
      have hrest := eagerAll_makes h hchild cs a (hS.trans hsub) fun c' h => hcs c' (.tail _ h)
      refine hrest.bind (fun S₂ rs _ hrs => .pure (.cons hsub hr.1 hr.2 hrs)) fun S₂ e _ herr => ?_
      obtain ⟨c', hc', hE⟩ := herr
      exact ⟨c', .tail _ hc', hE⟩
end

/-- What a pass over a whole tree makes of it. -/
theorem withStats_makes (h : fn.Makes S₀ Q E) (hchild : ∀ n ∈ S₀, ∀ c ∈ n.children, c ∈ S₀)
    {s : Supply} (hobjects : Objects S s) (hS : S₀ ⊆ S) {n : Node} (hn : n ∈ S₀) :
    ∃ S', S ⊆ S' ∧ Objects S' (withStats n fn s).supply ∧
      Made Q E S n S' (withStats n fn s).result := by
  obtain ⟨S', hsub, hst, hmade⟩ := eager_makes h hchild n {} hS hn ⟨s, {}, ()⟩ ⟨hobjects, trivial⟩
  rw [withStats, whole, below_eq]
  exact ⟨S', hsub, hst.objects, hmade⟩

end Makes

/-! ### Passes that change nothing -/

section Fixed

variable {σ : Type}

/-- The transform leaves a node alone, whatever is above it. -/
def LeavesAlone (fn : Transform σ) (n : Node) : Prop :=
  ∀ a s, fn n a s = (.ok (some n), s)

theorem apply_fixed {fn : Transform σ} {n : Node} (h : LeavesAlone fn n) (a : Ancestors)
    (st : PassState σ) : ∃ st', apply fn a n st = (.ok n, st') ∧ st.Undisturbed st' := by
  rw [apply_run, h a (st.supply, st.memory)]
  exact ⟨_, rfl, st.stats.visited + 1, by simp [Stats.afterCall, Node.same]⟩

theorem inner_fixed {fn : Transform σ} {n : Node} (h : LeavesAlone fn n) {a : Ancestors}
    {p : Pass σ (List Node)} {st st₁ : PassState σ} (hp : p st = (.ok n.children, st₁))
    (hst : st.Undisturbed st₁) :
    ∃ st', (do apply fn a (← regrow n (changes n.children (← p))) : Pass σ Node) st = (.ok n, st') ∧
      st.Undisturbed st' := by
  obtain ⟨st', hcall, hst'⟩ := apply_fixed h a st₁
  refine ⟨st', ?_, hst.trans hst'⟩
  rw [bind_run, hp]
  dsimp only
  rw [changes_self, bind_run]
  exact hcall

mutual
/-- A pass that leaves every node alone returns its tree. -/
theorem eager_fixed {fn : Transform σ} : ∀ (n : Node), (∀ m ∈ n.postOrder, LeavesAlone fn m) →
    ∀ (a : Ancestors) (st : PassState σ),
      ∃ st', eager fn a n st = (.ok n, st') ∧ st.Undisturbed st'
  | .missing, h, a, st => apply_fixed (h _ (.head _)) a st
  | .token _, h, a, st => apply_fixed (h _ (.head _)) a st
  | .list _ items _, h, a, st =>
      let ⟨_, hp, hst⟩ := eagerAll_fixed items
        (fun c hc m hm => h m (Node.mem_postOrder_iff.mpr (.inr ⟨c, hc, hm⟩))) (a.push _) st
      inner_fixed (h _ (Node.mem_postOrder_self _)) hp hst
  | .composite _ _ cs _, h, a, st =>
      let ⟨_, hp, hst⟩ := eagerAll_fixed cs
        (fun c hc m hm => h m (Node.mem_postOrder_iff.mpr (.inr ⟨c, hc, hm⟩))) (a.push _) st
      inner_fixed (h _ (Node.mem_postOrder_self _)) hp hst

theorem eagerAll_fixed {fn : Transform σ} : ∀ (cs : List Node),
    (∀ c ∈ cs, ∀ m ∈ c.postOrder, LeavesAlone fn m) → ∀ (a : Ancestors) (st : PassState σ),
      ∃ st', eagerAll fn a cs st = (.ok cs, st') ∧ st.Undisturbed st'
  | [], _, _, st => ⟨st, rfl, st.stats.visited, rfl⟩
  | c :: cs, h, a, st => by
      obtain ⟨st₁, hc, hst₁⟩ := eager_fixed c (h c (.head _)) a st
      obtain ⟨st₂, hcs, hst₂⟩ := eagerAll_fixed cs (fun c' h' => h c' (.tail _ h')) a st₁
      refine ⟨st₂, ?_, hst₁.trans hst₂⟩
      simp only [eagerAll, bind_run, hc, hcs]
      rfl
end

/-- **A pass that leaves every node alone** returns its tree, and neither builds nor replaces. -/
theorem withStats_fixed {fn : PureTransform} {n : Node}
    (h : ∀ m ∈ n.postOrder, ∀ a s, fn m a s = .ok (some m, s)) (s : Supply) :
    ∃ visited, withStats n fn s = ⟨.ok n, ⟨visited, 0, 0⟩, s, ()⟩ := by
  have hlift : ∀ m ∈ n.postOrder, LeavesAlone (σ := Unit) fn.lift m := by
    intro m hm a s
    simp only [PureTransform.lift, h m hm]
  obtain ⟨st', hrun, visited, rfl⟩ := eager_fixed n hlift {} ⟨s, {}, ()⟩
  refine ⟨visited, ?_⟩
  rw [withStats, whole, below_eq]
  simp only [run, hrun]

end Fixed

/-! ### One token in the place of another -/

section Replace

variable {S S' : Set Node} {s : Supply} {t u : Token}

/-- The token `u` in the place of `t`. -/
def swap (t u x : Token) : Token := if x.id = t.id then u else x

/-- What becomes of a tree when `u` stands in the place of `t`. -/
structure Swapped (t u : Token) (n r : Node) : Prop where
  face : r.face = n.face
  views : r.views = n.views
  frontier : r.frontier = n.frontier.map (swap t u)
  shape : n.MapsTokens (swap t u) r

/-- Several trees that became others, in which `u` stands in the place of `t`. -/
structure SwappedAll (t u : Token) (cs rs : List Node) : Prop where
  faces : rs.map Node.face = cs.map Node.face
  views : Node.viewsAll rs = Node.viewsAll cs
  frontier : Node.frontierAll rs = (Node.frontierAll cs).map (swap t u)
  shape : Node.MapsTokensAll (swap t u) cs rs

theorem swappedAll_of_chain {cs rs : List Node}
    (h : Chain (fun _ _ => Swapped t u) S cs rs S') : SwappedAll t u cs rs := by
  induction h with
  | nil => exact ⟨rfl, rfl, rfl, .nil⟩
  | cons _ _ h _ ih =>
      exact ⟨by simp [h.face, ih.faces], by simp [h.views, ih.views],
        by simp [h.frontier, ih.frontier], .cons h.shape ih.shape⟩

/-- A node whose children became others, and which is no token that `f` changes. -/
theorem mapsTokens_of_regrown {f : Token → Token} {n m : Node} {rs : List Node}
    (hm : RegrownIn S n rs m S') (hall : Node.MapsTokensAll f n.children rs)
    (hleaf : ∀ x, n = .token x → f x = x) : n.MapsTokens f m := by
  -- an inner node is kept or made anew, with the same results below it
  cases n with
  | missing =>
      obtain rfl := hm.eq_of_leaf id
      exact .missing
  | token x =>
      obtain rfl := hm.eq_of_leaf id
      have htoken := Node.MapsTokens.token (f := f) (t := x)
      rwa [hleaf x rfl] at htoken
  | list _ _ _ =>
      cases hm with
      | kept h => subst h; exact .list hall
      | anew _ _ _ => exact .list hall
  | composite _ _ _ _ =>
      cases hm with
      | kept h => subst h; exact .composite hall
      | anew _ _ _ => exact .composite hall

/-- The substitution leaves a node of another number alone. -/
theorem swapped_of_ne {n m : Node} {rs : List Node} (hm : RegrownIn S n rs m S')
    (hall : SwappedAll t u n.children rs) (hne : n.id ≠ t.id) : Swapped t u n m where
  face := hm.face
  views := by rw [Node.views_eq, Node.views_eq, hm.children, hall.views, hm.view? hall.faces]
  frontier := by
    rw [hm.frontier, Node.frontier_eq n, hall.frontier, List.map_append]
    congr 1
    cases n with
    | token x =>
        have hne : x.id ≠ t.id := hne
        simp [Node.token?, swap, hne]
    | _ => rfl
  shape := mapsTokens_of_regrown hm hall.shape fun _ hx => if_neg fun he => hne (hx ▸ he)

theorem substitution_makes (hS : Objects S s) (ht : .token t ∈ S) (hu : .token u ∈ S)
    (hkind : u.kind = t.kind) (htext : u.text = t.text) :
    (substitution (.token t) (.token u)).Makes S (fun _ _ => Swapped t u) fun _ => False where
  up _ _ h := h
  call {S₁ S₂ S₃ n m rs a s'} hsub hn hchain hm hmem hobjects := by
    have hall := swappedAll_of_chain hchain
    show ∃ S₄, S₃ ⊆ S₄ ∧ Objects S₄ s' ∧ (if m.same (.token t) then .token u else m) ∈ S₄ ∧
      Swapped t u n (if m.same (.token t) then .token u else m)
    by_cases hid : n.id = t.id
    · -- among objects only the token has its number
      obtain rfl : n = .token t := hS.unique n hn _ ht hid
      obtain rfl : m = .token t := hm.eq_of_leaf id
      rw [if_pos (by simp [Node.same])]
      have hshape := Node.MapsTokens.token (f := swap t u) (t := t)
      rw [swap, if_pos rfl] at hshape
      refine ⟨S₃, subset_rfl, hobjects, hm.subset (hchain.subset (hsub hu)), ?_, rfl, ?_, hshape⟩
      · simp [Node.face, Node.nodeClass, Node.kind, Node.token?, hkind, htext]
      · simp [swap]
    · have hne : m.same (.token t) ≠ true := by
        intro hsame
        have ht' : .token t ∈ S₃ := hm.subset (hchain.subset (hsub ht))
        obtain rfl := hobjects.eq_of_same hmem ht' hsame
        have hn' : some t = n.token? := hm.token?
        cases n with
        | token x => cases hn'; exact hid rfl
        | _ => cases hn'
      rw [if_neg hne]
      exact ⟨S₃, subset_rfl, hobjects, hmem, swapped_of_ne hm hall hid⟩

/-- **Putting a token in the place of another one** of the same kind and text. -/
theorem replace_token (hS : Objects S s) (ht : .token t ∈ S) (hu : .token u ∈ S)
    (hkind : u.kind = t.kind) (htext : u.text = t.text) {n : Node} (hn : n ∈ S) :
    ∃ r s' S', replace n (some (.token t)) (some (.token u)) s = .ok (r, s') ∧ S ⊆ S' ∧
      Objects S' s' ∧ r ∈ S' ∧ Swapped t u n r := by
  obtain ⟨S', hsub, hobjects, hmade⟩ :=
    withStats_makes (substitution_makes hS ht hu hkind htext) hS.child hS subset_rfl hn
  unfold replace
  dsimp only
  cases hresult : (withStats n (substitution (.token t) (.token u)) s).result with
  | error e =>
      rw [hresult] at hmade
      exact hmade.elim
  | ok r =>
      rw [hresult] at hmade
      exact ⟨r, _, S', rfl, hsub, hobjects, hmade.1, hmade.2⟩

end Replace

end Pass

end Lossless
