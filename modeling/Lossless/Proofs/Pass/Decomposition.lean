import Lossless.Proofs.Node.Positions
import Lossless.Proofs.Pass.Calls
import Lossless.Proofs.Pass.Plain
import Lossless.Proofs.Pass.Twins

/-!
# Pass — a pass is made of passes

A pass over a tree does what one does who passes over its children one by one, below the path that
leads to them, puts the root together from what comes out, and calls the transform for it.  The parts
of this are passes of their own (`passes`), a node that is built anew if it has to be (`assembled`),
and one call (`called`).

Inside of a pass everything is counted in one place; a pass of its own starts to count at zero.  So
what a pass does must not depend on what was counted before (`Additive`).  That what comes out of the
children is put into the root as it is, also where the pass takes the old child for it, needs that
among objects the same child is the child (`changes_eq`).

**Decomposition** (`pass_decomposes`).  From one supply a pass and its parts give the same outcome.
From two supplies, with a pure transform, they give outcomes that agree (`Outcome.Agrees`): the same
error, or equal trees that hold the objects that were there at the same places.
-/

namespace Lossless

namespace Stats

theorem add_assoc (a b c : Stats) : (a.add b).add c = a.add (b.add c) := by
  simp [add, Int64.add_assoc]

@[simp] theorem add_zero (a : Stats) : a.add {} = a := by simp [add]

@[simp] theorem zero_add (a : Stats) : add {} a = a := by simp [add]

end Stats

/-- The state of a pass that was in the state `st`, if `stats` had been counted before. -/
def PassState.after {σ : Type} (st : PassState σ) (stats : Stats) : PassState σ :=
  { st with stats := stats.add st.stats }

/-! ### Outcomes that agree -/

/-- Trees that are structurally equal, and that hold the objects of `S` at the same places. -/
structure Node.EqualOver (S : Set Node) (m n : Node) : Prop where
  equal : m.equal n = true
  same : ∀ p, ∀ c ∈ S, (m.at? p).any (·.same c) = (n.at? p).any (·.same c)

/-- Outcomes of runs that started with the objects of `S`: the same was counted, and they are the same
error, or trees that are equal and hold these objects at the same places. -/
def Outcome.Agrees (S : Set Node) (o o' : Outcome Unit) : Prop :=
  o.stats = o'.stats ∧
    match o.result, o'.result with
    | .ok m, .ok n => m.EqualOver S n
    | .error e, .error e' => e = e'
    | _, _ => False

namespace Twins

variable {S : Set Node} {s t : Supply} {R : Pairing} {m n : Node}

/-- At each position of twins stand twins. -/
theorem at? (h : Twins S s t R) (hmn : R m n) (p : Position) :
    Option.Rel R (m.at? p) (n.at? p) := by
  induction p generalizing m n with
  | nil => exact .some hmn
  | cons i p ih =>
      have hrel := getElem?_of_forall₂ (h.children hmn) i
      rw [Node.at?, Node.at?]
      generalize m.children[i]? = c at hrel ⊢
      generalize n.children[i]? = d at hrel ⊢
      cases hrel with
      | none => exact .none
      | some hcd => exact ih hcd

theorem equalOver (h : Twins S s t R) (hmn : R m n) : m.EqualOver S n where
  equal := h.equal hmn
  same p c hc := by
    have hrel := h.at? hmn p
    generalize m.at? p = a at hrel ⊢
    generalize n.at? p = b at hrel ⊢
    cases hrel with
    | none => rfl
    | some hab => exact h.same_eq hab (h.known c hc)

end Twins

/-- The outcome of a pass that started to count at zero, as what its computation gives. -/
def Outcome.state (o : Outcome Unit) : Except Failure Node × PassState Unit :=
  (o.result, ⟨o.supply, o.stats, ()⟩)

namespace Pass

/-! ### Counting from zero -/

section Additive

variable {σ : Type} {fn : Transform σ} {α β : Type}

/-- What was counted before makes no difference, but that it is added. -/
def Additive (p : Pass σ α) : Prop :=
  ∀ supply stats memory, p ⟨supply, stats, memory⟩ =
    ((p ⟨supply, {}, memory⟩).1, (p ⟨supply, {}, memory⟩).2.after stats)

theorem Additive.pure (a : α) : Additive (Pure.pure a : Pass σ α) := by
  intro supply stats memory
  show (Except.ok a, PassState.mk supply stats memory) =
    (Except.ok a, PassState.mk supply (stats.add {}) memory)
  rw [Stats.add_zero]

theorem Additive.bind {p : Pass σ α} {f : α → Pass σ β} (hp : Additive p)
    (hf : ∀ a, Additive (f a)) : Additive (p >>= f) := by
  intro supply stats memory
  rw [bind_run, bind_run, hp supply stats memory]
  rcases p ⟨supply, {}, memory⟩ with ⟨e | a, s, counted, m⟩
  · rfl
  · -- the second part counts on from what the first one did
    show f a ⟨s, stats.add counted, m⟩ =
      ((f a ⟨s, counted, m⟩).1, (f a ⟨s, counted, m⟩).2.after stats)
    rw [hf a s (stats.add counted) m, hf a s counted m]
    simp [PassState.after, Stats.add_assoc]

theorem apply_additive (fn : Transform σ) (a : Ancestors) (n : Node) :
    Additive (apply fn a n) := by
  intro supply stats memory
  rw [apply_run, apply_run]
  have hcount : ∀ counted : Stats, counted.afterCall n (fn n a (supply, memory)).1 = _ :=
    fun counted => afterCall_eq counted (fn.callIn n a (supply, memory))
  simp only [hcount, PassState.after, Stats.zero_add]

theorem regrow_additive (n : Node) (changed : Option (List Node)) :
    Additive (regrow (σ := σ) n changed) := by
  cases changed with
  | none => exact .pure n
  | some cs =>
      intro supply stats memory
      cases hm : n.rebuild (cs.map some) supply with
      | ok r =>
          -- whether the node can be rebuilt has nothing to do with what was counted
          obtain ⟨made, supply'⟩ := r
          have hrun : ∀ counted : Stats, regrow n (some cs) ⟨supply, counted, memory⟩ = _ :=
            fun counted => regrow_run hm
          rw [hrun, hrun]
          simp [PassState.after, Stats.add]
      | error e =>
          have hrun : ∀ counted : Stats, regrow n (some cs) ⟨supply, counted, memory⟩ =
              (.error (.rebuilding n.kind (.node e)), ⟨supply, counted, memory⟩) := by
            intro counted
            simp only [regrow, bind_run, tryCatch_run, making, orFail, hm]
            rfl
          rw [hrun, hrun, PassState.after, Stats.add_zero]

mutual
/-- A pass counts on from what was counted before. -/
theorem eager_additive (fn : Transform σ) :
    ∀ (n : Node) (a : Ancestors), Additive (eager fn a n)
  | .missing, a => apply_additive fn a _
  | .token _, a => apply_additive fn a _
  | .list _ items _, _ =>
      .bind (eagerAll_additive fn items _) fun _ =>
        .bind (regrow_additive _ _) fun _ => apply_additive fn _ _
  | .composite _ _ cs _, _ =>
      .bind (eagerAll_additive fn cs _) fun _ =>
        .bind (regrow_additive _ _) fun _ => apply_additive fn _ _

theorem eagerAll_additive (fn : Transform σ) :
    ∀ (cs : List Node) (a : Ancestors), Additive (eagerAll fn a cs)
  | [], _ => .pure []
  | c :: cs, a =>
      .bind (eager_additive fn c a) fun _ => .bind (eagerAll_additive fn cs a) fun _ => .pure _
end

end Additive

/-! ### The parts of a pass -/

/-- The outcomes of several passes: their results, unless one of them failed, and what they did. -/
structure Outcomes where
  results : Except Failure (List Node)
  stats : Stats
  supply : Supply

/-- Passes over several trees below the same ancestors, one after the other until one fails. -/
def passes (fn : PureTransform) (a : Ancestors) : List Node → Supply → Outcomes
  | [], supply => ⟨.ok [], {}, supply⟩
  | c :: cs, supply =>
    let o := below c fn.lift a supply ()
    match o.result with
    | .error e => ⟨.error e, o.stats, o.supply⟩
    | .ok r =>
      let rest := passes fn a cs o.supply
      ⟨rest.results.map (r :: ·), o.stats.add rest.stats, rest.supply⟩

/-- A node with the results of passes for its children: the node itself if these are its children,
object by object, and otherwise a node that is built anew and counted. -/
def assembled (root : Node) (o : Outcomes) : Outcome Unit :=
  match o.results with
  | .error e => ⟨.error e, o.stats, o.supply, ()⟩
  | .ok rs =>
    if Node.sameAll rs root.children then ⟨.ok root, o.stats, o.supply, ()⟩
    else match root.rebuild (rs.map some) o.supply with
      | .ok (r, supply) => ⟨.ok r, o.stats.add { rebuilt := 1 }, supply, ()⟩
      | .error e => ⟨.error (.rebuilding root.kind (.node e)), o.stats, o.supply, ()⟩

/-- A transform called for a result, below ancestors: the call is counted, and so is whether it
returned another node. -/
def called (fn : PureTransform) (a : Ancestors) (o : Outcome Unit) : Outcome Unit :=
  match o.result with
  | .error e => ⟨.error e, o.stats, o.supply, ()⟩
  | .ok n =>
    match fn n a o.supply with
    | .ok (some r, supply) =>
      ⟨.ok r, o.stats.add { visited := 1, replaced := if r.same n then 0 else 1 }, supply, ()⟩
    | .ok (none, supply) =>
      ⟨.error (.onNode n.kind .noResult), o.stats.add { visited := 1 }, supply, ()⟩
    | .error e => ⟨.error (.onNode n.kind e), o.stats.add { visited := 1 }, o.supply, ()⟩

section Parts

variable {fn : PureTransform} {a : Ancestors} {S : Set Node} {s : Supply} {root : Node}

/-- A pass over children that counts from `stats` on does what passes of their own do. -/
theorem eagerAll_run (fn : PureTransform) (a : Ancestors) (cs : List Node) (supply : Supply)
    (stats : Stats) :
    eagerAll fn.lift a cs ⟨supply, stats, ()⟩ =
      ((passes fn a cs supply).results,
        ⟨(passes fn a cs supply).supply, stats.add (passes fn a cs supply).stats, ()⟩) := by
  induction cs generalizing supply stats with
  | nil =>
      rw [passes, Stats.add_zero]
      rfl
  | cons c cs ih =>
      -- the counts of a pass on its own are added to those so far
      rw [eagerAll, bind_run, eager_additive fn.lift c a supply stats (), passes, below_eq, run]
      rcases eager fn.lift a c ⟨supply, {}, ()⟩ with ⟨e | r, s, counted, _⟩
      · rfl
      · simp only [bind_run, PassState.after, ih]
        rcases passes fn a cs s with ⟨e | rs, counted', s'⟩
        · simp [Except.map, Stats.add_assoc]
        · show (Except.ok (r :: rs), _) = _
          simp [Except.map, Stats.add_assoc]

/-- Among objects, a pass takes note of the results as they are, unless they are the children. -/
theorem changes_eq (hS : Objects S s) {cs rs : List Node} (hcs : ∀ c ∈ cs, c ∈ S)
    (hrs : ∀ r ∈ rs, r ∈ S) (hlen : rs.length = cs.length) :
    changes cs rs = if Node.sameAll rs cs then none else some rs := by
  have hspec := changes_spec hlen
  have hobjects := changes_objects hS hcs hrs hlen
  cases hch : changes cs rs with
  | none =>
      rw [hch] at hspec
      rw [if_pos hspec]
  | some xs =>
      rw [hch] at hspec hobjects
      rw [if_neg (by simp [hspec.1]), ← hobjects]
      rfl

theorem regrow_state {o : Outcomes} {rs : List Node} (hS : Objects S o.supply)
    (hroot : root ∈ S) (hrs : ∀ r ∈ rs, r ∈ S) (hlen : rs.length = root.children.length)
    (ho : o.results = .ok rs) :
    regrow root (changes root.children rs) ⟨o.supply, o.stats, ()⟩ = (assembled root o).state := by
  rw [changes_eq hS (hS.child root hroot) hrs hlen]
  unfold assembled
  simp only [ho]
  by_cases hsame : Node.sameAll rs root.children = true
  · rw [if_pos hsame, if_pos hsame]
    rfl
  · rw [if_neg hsame, if_neg hsame]
    cases hm : root.rebuild (rs.map some) o.supply with
    | ok r =>
        rw [regrow_run hm]
        simp [Outcome.state, Stats.add]
    | error e =>
        simp only [regrow, bind_run, tryCatch_run, making, orFail, hm]
        rfl

theorem apply_state {o : Outcome Unit} {n : Node} (ho : o.result = .ok n) :
    apply fn.lift a n ⟨o.supply, o.stats, ()⟩ = (called fn a o).state := by
  rw [apply_run]
  unfold called
  simp only [ho, PureTransform.lift]
  cases fn n a o.supply with
  | error e => simp [answer, Stats.afterCall, Outcome.state, Stats.add]
  | ok answered =>
      obtain ⟨_ | r, supply⟩ := answered
      · simp [answer, Stats.afterCall, Outcome.state, Stats.add]
      · cases hs : r.same n <;> simp [answer, Stats.afterCall, Outcome.state, Stats.add, hs]

theorem run_of_state {p : Pass Unit Node} {o : Outcome Unit} (h : p ⟨s, {}, ()⟩ = o.state) :
    run p s () = o := by
  rw [run, h]
  rfl

theorem length_of_passes {cs rs : List Node} (h : (passes fn a cs s).results = .ok rs) :
    rs.length = cs.length := by
  -- a failure ends the list, so results are there for all children or for none
  induction cs generalizing rs s with
  | nil =>
      cases h
      rfl
  | cons c cs ih =>
      rw [passes] at h
      cases ho : (below c fn.lift a s ()).result with
      | error e =>
          simp only [ho] at h
          cases h
      | ok r =>
          simp only [ho] at h
          cases hrest : (passes fn a cs (below c fn.lift a s ()).supply).results with
          | error e =>
              rw [hrest] at h
              cases h
          | ok rs' =>
              rw [hrest] at h
              cases h
              exact congrArg (· + 1) (ih hrest)

end Parts

/-! ### From one supply -/

section Same

variable {fn : PureTransform} {S : Set Node} {s : Supply} {root : Node} {above : List Node}

/-- Objects are twins of themselves below a path of objects. -/
theorem ofList_twins {R : Pairing} {above : List Node} (h : ∀ p ∈ above, R p p) :
    (Ancestors.ofList above).Twins R (.ofList above) := by
  induction above using List.reverseRecOn with
  | nil => exact .none
  | append_singleton above p ih =>
      rw [← Ancestors.ofList_push]
      exact (ih fun q hq => h q (List.mem_append_left _ hq)).push (h p (by simp))

/-- The results of passes over children are objects. -/
theorem passes_objects (hfn : fn.Pure S) (hS : Objects S s) (habove : ∀ p ∈ above, p ∈ S)
    {cs rs : List Node} (hcs : ∀ c ∈ cs, c ∈ S)
    (hresults : (passes fn (.ofList above) cs s).results = .ok rs) :
    ∃ S', S ⊆ S' ∧ Objects S' (passes fn (.ofList above) cs s).supply ∧ ∀ r ∈ rs, r ∈ S' := by
  -- the passes mirror themselves, so that their results are their own twins
  have hmirror := eagerAll_mirrors cs (hfn.mono bot_le)
    (List.forall₂_same.mpr fun c hc => ⟨rfl, hcs c hc⟩)
    (ofList_twins fun p hp => ⟨rfl, habove p hp⟩) {} le_rfl (Twins.start subset_rfl hS hS)
  simp only [counting, eagerAll_run, hresults] at hmirror
  obtain ⟨R', hle, htwins, hrs, -⟩ := hmirror
  refine ⟨{m | ∃ n, R' m n}, fun n hn => ⟨n, hle _ _ ⟨rfl, hn⟩⟩, htwins.left, fun r hr => ?_⟩
  obtain ⟨r', -, hrr'⟩ := exists_of_forall₂ hrs r hr
  exact ⟨r', hrr'⟩

theorem eager_eq (fn : PureTransform) (a : Ancestors) (n : Node) :
    eager fn.lift a n = (do
      let results ← eagerAll fn.lift (a.push n) n.children
      regrow n (changes n.children results) : Pass Unit Node) >>= apply fn.lift a := by
  rw [bind_assoc]
  cases n with
  | missing | token _ => rfl
  | list _ _ _ | composite _ _ _ _ => rfl

/-- The children of a node, and the node put together from their results. -/
theorem children_state (hfn : fn.Pure S) (hS : Objects S s) (hroot : root ∈ S)
    (habove : ∀ p ∈ above, p ∈ S) :
    (do
      let results ← eagerAll fn.lift (.ofList (above ++ [root])) root.children
      regrow root (changes root.children results) : Pass Unit Node) ⟨s, {}, ()⟩ =
      (assembled root (passes fn (.ofList (above ++ [root])) root.children s)).state := by
  have hpath : ∀ p ∈ above ++ [root], p ∈ S :=
    List.forall_mem_append.mpr ⟨habove, List.forall_mem_singleton.mpr hroot⟩
  rw [bind_run, eagerAll_run, Stats.zero_add]
  cases hresults : (passes fn (.ofList (above ++ [root])) root.children s).results with
  | error e =>
      unfold assembled
      simp only [hresults]
      rfl
  | ok rs =>
      obtain ⟨S', hsub, hS', hrs⟩ := passes_objects hfn hS hpath (hS.child root hroot) hresults
      exact regrow_state hS' (hsub hroot) hrs (length_of_passes hresults) hresults

/-- **A pass is made of passes** for the children, the root, and a call. -/
theorem below_eq_called (hfn : fn.Pure S) (hS : Objects S s) (hroot : root ∈ S)
    (habove : ∀ p ∈ above, p ∈ S) :
    below root fn.lift (.ofList above) s () = called fn (.ofList above)
      (assembled root (passes fn (.ofList (above ++ [root])) root.children s)) := by
  rw [below_eq]
  refine run_of_state ?_
  rw [eager_eq, bind_run, Ancestors.ofList_push, children_state hfn hS hroot habove]
  generalize assembled root (passes fn (.ofList (above ++ [root])) root.children s) = o
  cases ho : o.result with
  | error e =>
      unfold called
      simp only [Outcome.state, ho]
  | ok n =>
      simp only [Outcome.state, ho]
      exact apply_state ho

theorem descendants_eq_assembled (hfn : fn.Pure S) (hS : Objects S s) (hroot : root ∈ S) :
    descendants root fn.lift s () =
      assembled root (passes fn (.ofList [root]) root.children s) := by
  have hnone : ∀ p ∈ ([] : List Node), p ∈ S := List.forall_mem_nil _
  rw [descendants, visitBelow_eq]
  exact run_of_state (children_state hfn hS hroot hnone)

theorem whole_eq_called (hfn : fn.Pure S) (hS : Objects S s) (hroot : root ∈ S) :
    withStats root fn s = called fn {} (descendants root fn.lift s ()) := by
  have hnone : ∀ p ∈ ([] : List Node), p ∈ S := List.forall_mem_nil _
  rw [descendants_eq_assembled hfn hS hroot]
  exact below_eq_called hfn hS hroot hnone

end Same

/-! ### From two supplies -/

section Two

variable {fn : PureTransform} {S : Set Node} {R : Pairing} {s t : Supply} {m n : Node}
  {a b : Ancestors}

theorem run_agrees {p q : Pass Unit Node} (h : Mirrors S R (fun R' => R') p q)
    (htwins : Twins S s t R) : (run p s ()).Agrees S (run q t ()) := by
  have hmirror := h {} le_rfl htwins
  unfold counting at hmirror
  unfold run
  match p ⟨s, {}, ()⟩, q ⟨t, {}, ()⟩, hmirror with
  | (.error _, _), (.error _, _), h => exact ⟨congrArg Prod.snd h, congrArg Prod.fst h⟩
  | (.ok _, _), (.ok _, _), ⟨R', _, htwins', hr, hstats⟩ => exact ⟨hstats, htwins'.equalOver hr⟩

theorem visitBelow_mirrors (h : fn.Mirrors S R fn) (hmn : R m n) (hab : a.Twins R b) :
    Mirrors S R (fun R' => R') (visitBelow fn.lift a m) (visitBelow fn.lift b n) := by
  rw [visitBelow_eq, visitBelow_eq]
  refine Mirrors.of_twins fun {R₀ _ _} hle₀ htwins => ?_
  have hmn₀ := hle₀ _ _ hmn
  have hchildren := htwins.children hmn₀
  refine (eagerAll_mirrors m.children (h.mono hle₀) hchildren ((hab.mono hle₀).push hmn₀)).bind
    fun {R₁ rs rs'} hle₁ hrs => ?_
  refine Mirrors.of_twins fun {R₂ _ _} hle₂ htwins₂ => ?_
  have hle := hle₁.trans hle₂
  exact regrow_mirrors (hle _ _ hmn₀) (changes_twins htwins₂ (hchildren.imp hle) (hrs.imp hle₂))

end Two

/-- **Decomposition.** A pure transform, a root and the path above it among the objects that are
there at two supplies. Rewriting what is below the root is putting the root together from passes over
its children, left to right up to the first that fails; rewriting the root below the path is calling
the transform for that, where the path to the children goes on with the root; and rewriting the root
as a whole is calling the transform, without ancestors, for what rewriting below it gives. What a pass
did is the sum of what the passes over the children did, of the root if it was built anew, and of the
call. From one supply these are the same outcomes; from different ones they agree. -/
theorem pass_decomposes {S : Set Node} {s t : Supply} {root : Node} {above : List Node}
    {fn : PureTransform} (hs : Objects S s) (ht : Objects S t) (hfn : fn.Pure S)
    (hroot : root ∈ S) (habove : ∀ p ∈ above, p ∈ S) :
    (descendants root fn.lift s () =
        assembled root (passes fn (.ofList [root]) root.children s) ∧
      below root fn.lift (.ofList above) s () = called fn (.ofList above)
        (assembled root (passes fn (.ofList (above ++ [root])) root.children s)) ∧
      withStats root fn s = called fn {} (descendants root fn.lift s ())) ∧
    (descendants root fn.lift s ()).Agrees S
      (assembled root (passes fn (.ofList [root]) root.children t)) ∧
    (below root fn.lift (.ofList above) s ()).Agrees S (called fn (.ofList above)
      (assembled root (passes fn (.ofList (above ++ [root])) root.children t))) ∧
    (withStats root fn s).Agrees S (called fn {} (descendants root fn.lift t ())) := by
  -- the second supply differs, so the two runs agree as twins only
  have htwins := Twins.start subset_rfl hs ht
  have hpair : root = root ∧ root ∈ S := ⟨rfl, hroot⟩
  have hpath := ofList_twins (R := fun m n => m = n ∧ m ∈ S) fun p hp => ⟨rfl, habove p hp⟩
  have hpure := hfn.mono (bot_le (a := fun m n => m = n ∧ m ∈ S))
  refine ⟨⟨descendants_eq_assembled hfn hs hroot, below_eq_called hfn hs hroot habove,
    whole_eq_called hfn hs hroot⟩, ?_, ?_, ?_⟩
  · rw [← descendants_eq_assembled hfn ht hroot]
    exact run_agrees (visitBelow_mirrors hpure hpair .none) htwins
  · rw [← below_eq_called hfn ht hroot habove, below_eq, below_eq]
    exact run_agrees (eager_mirrors root hpure hpair hpath) htwins
  · rw [← whole_eq_called hfn ht hroot, withStats, withStats, whole, whole, below_eq, below_eq]
    exact run_agrees (eager_mirrors root hpure hpair .none) htwins

theorem pass_decomposes_smallTree :
    (Objects smallObjects 3 ∧ Objects smallObjects 7 ∧
      (substitution (.token ⟨1, "name", [], [97], [], 1⟩) .missing).Pure smallObjects ∧
      smallTree ∈ smallObjects ∧ ∀ p ∈ [smallTree], p ∈ smallObjects) ∧
    (below smallTree (substitution (.token ⟨1, "name", [], [97], [], 1⟩) .missing).lift
      (.ofList [smallTree]) 3 ()).result = .ok (.list 3 [.missing] 0) ∧
    (below smallTree (substitution (.token ⟨1, "name", [], [97], [], 1⟩) .missing).lift
      (.ofList [smallTree]) 3 ()).Agrees smallObjects
        (called (substitution (.token ⟨1, "name", [], [97], [], 1⟩) .missing) (.ofList [smallTree])
          (assembled smallTree
            (passes (substitution (.token ⟨1, "name", [], [97], [], 1⟩) .missing)
              (.ofList [smallTree, smallTree]) smallTree.children 7))) := by
  have hlater : Objects smallObjects 7 := smallObjects_objects.mono (by decide)
  have hpure : (substitution (.token ⟨1, "name", [], [97], [], 1⟩) .missing).Pure smallObjects :=
    substitution_pure (.inr (.inl rfl)) smallObjects_objects.missing
  have htree : smallTree ∈ smallObjects := Set.mem_insert _ _
  have hpath : ∀ p ∈ [smallTree], p ∈ smallObjects := List.forall_mem_singleton.mpr htree
  exact ⟨⟨smallObjects_objects, hlater, hpure, htree, hpath⟩, rfl,
    (pass_decomposes smallObjects_objects hlater hpure htree hpath).2.2.1⟩

end Pass

end Lossless
