import Lossless.Proofs.Ensures
import Lossless.Pass.Basic

/-!
# Pass — passes without laziness

A pass collects the new children of a node from the first change on, and links the chain of
ancestors when it is asked for.  Neither is seen from outside: a pass does the same as one that
transforms all children first, with the ancestors of each given in full, and compares them with the
old ones afterwards (`visit_eq_eager`).
-/

namespace Lossless

/-- What a pass has counted after a call for `n` with the answer `r`. -/
def Stats.afterCall (s : Stats) (n : Node) (r : Except Failure (Option Node)) : Stats :=
  match r with
  | .ok (some m) =>
    if m.same n then { s with visited := s.visited + 1 }
    else { s with visited := s.visited + 1, replaced := s.replaced + 1 }
  | _ => { s with visited := s.visited + 1 }

namespace Pass

variable {σ : Type} {fn : Transform σ}

/-! ### One call -/

/-- What a pass makes of the answer of the transform for a node. -/
def answer (n : Node) : Except Failure (Option Node) → Except Failure Node
  | .error e => .error (.onNode n.kind e)
  | .ok none => .error (.onNode n.kind .noResult)
  | .ok (some m) => .ok m

theorem answer_eq_ok {n m : Node} {r : Except Failure (Option Node)} (h : answer n r = .ok m) :
    r = .ok (some m) := by
  match r, h with
  | .ok (some _), h => cases h; rfl

/-- One call of the transform: everything that a pass does with a node whose children are done. -/
theorem apply_run (a : Ancestors) (n : Node) (st : PassState σ) :
    apply fn a n st =
      let o := fn n a (st.supply, st.memory)
      (answer n o.1, ⟨o.2.1, st.stats.afterCall n o.1, o.2.2⟩) := by
  rcases ho : fn n a (st.supply, st.memory) with ⟨r, supply, memory⟩
  have hcall : ∀ stats : Stats, call fn n a ⟨st.supply, stats, st.memory⟩ =
      (r, ⟨supply, stats, memory⟩) := by
    intro stats
    simp only [call, ho]
  rw [apply, bind_run]
  simp only [count, bind_run, tryCatch_run, hcall]
  cases r with
  | error e => rfl
  | ok result =>
      cases result with
      | none => rfl
      | some m =>
          by_cases hs : m.same n = true
          · simp only [hs, if_true, answer, Stats.afterCall]
            rfl
          · simp only [hs, answer, Stats.afterCall]
            rfl

theorem regrow_run {n m : Node} {cs : List Node} {supply : Supply} {st : PassState σ}
    (h : n.rebuild (cs.map some) st.supply = .ok (m, supply)) :
    regrow n (some cs) st =
      (.ok m, ⟨supply, { st.stats with rebuilt := st.stats.rebuilt + 1 }, st.memory⟩) := by
  have hmake : making (orFail (n.rebuild (cs.map some))) st =
      (.ok m, { st with supply }) := by
    simp only [making, orFail, h]
  rw [regrow, bind_run]
  simp only [tryCatch_run, hmake]
  rfl

/-! ### Children -/

/-- The new children of a node with the children `cs`, for which the transform returned `rs`; none
when no child changed. The children in front of the first change are the old ones. -/
def changes : (cs rs : List Node) → Option (List Node)
  | c :: cs, r :: rs => if r.same c then (changes cs rs).map (c :: ·) else some (r :: rs)
  | _, _ => none

/-- What is new among children is old or returned. -/
theorem mem_of_changes {cs rs xs : List Node} (h : changes cs rs = some xs) :
    ∀ x ∈ xs, x ∈ cs ∨ x ∈ rs := by
  induction cs generalizing rs xs with
  | nil => cases h
  | cons c cs ih =>
      cases rs with
      | nil => cases h
      | cons r rs =>
          intro x hx
          rw [changes] at h
          split at h
          · obtain ⟨ys, hys, rfl⟩ := Option.map_eq_some_iff.mp h
            rcases List.mem_cons.mp hx with rfl | hx
            · exact .inl (.head _)
            · exact (ih hys x hx).imp (.tail _) (.tail _)
          · cases h
            exact .inr hx

mutual
/-- Transforms a tree whose ancestors are given. -/
def eager (fn : Transform σ) (a : Ancestors) : Node → Pass σ Node
  | .missing => apply fn a .missing
  | .token t => apply fn a (.token t)
  | .list id items w => do
    let n : Node := .list id items w
    let results ← eagerAll fn (a.push n) items
    apply fn a (← regrow n (changes items results))
  | .composite id k cs w => do
    let n : Node := .composite id k cs w
    let results ← eagerAll fn (a.push n) cs
    apply fn a (← regrow n (changes cs results))

/-- Transforms the children of a node, left to right. -/
def eagerAll (fn : Transform σ) (a : Ancestors) : List Node → Pass σ (List Node)
  | [] => pure []
  | c :: cs => do
    let r ← eager fn a c
    return r :: (← eagerAll fn a cs)
end

/-- The new children of a node whose children are `front` and `cs`, when `changed` is known of the
first ones and the transform returned `rs` for the others. -/
def changesFrom (changed : Option (List Node)) (front cs rs : List Node) : Option (List Node) :=
  match changed with
  | some done => some (done ++ rs)
  | none => (changes cs rs).map (front ++ ·)

/-- Taking note of one child, and then of the others. -/
theorem changesFrom_noteChange {n child next : Node} {front cs rs : List Node}
    {changed : Option (List Node)} (hn : n.children = front ++ child :: cs) :
    changesFrom (noteChange n front.length child next changed) (front ++ [child]) cs rs =
      changesFrom changed front (child :: cs) (next :: rs) := by
  cases changed with
  | some done => simp [changesFrom, noteChange]
  | none =>
      by_cases h : next.same child = true
      · simp [changesFrom, noteChange, changes, h, Function.comp_def]
      · simp [changesFrom, noteChange, changes, h, hn]

/-- The chain for a child: it is linked when the child has children, and it is the same for all. -/
theorem chain_link {n : Node} (child : Node) {above chain : Lineage}
    (h : chain = {} ∨ chain = above.push n) :
    let chain' := if chain.isEmpty && decide (0 < child.childCount) then above.push n else chain
    (child.childCount = 0 ∨ chain' = above.push n) ∧ (chain' = {} ∨ chain' = above.push n) := by
  rcases h with rfl | rfl
  · by_cases hc : 0 < child.childCount
    · simp [hc]
    · simp [hc]; omega
  · simp

mutual
/-- A pass is what it would be without laziness. A node without children needs no chain, as it is
used for these only. -/
theorem visit_eq_eager : ∀ (n : Node) {a : Ancestors} {chain : Lineage},
    n.childCount = 0 ∨ chain = a.lineage → visit fn a chain n = eager fn a n
  | .missing, _, _, _ => rfl
  | .token _, _, _, _ => rfl
  | .list id items w, a, chain, h => by
      rw [visit, eager]
      rcases h with h | rfl
      · obtain rfl := List.eq_nil_of_length_eq_zero h
        simp [visitAll, eagerAll, changes]
      · have hall := visitAll_eq_eager items (.list id items w) a.lineage {} [] none rfl (.inl rfl)
        simp only [List.length_nil] at hall
        simp [hall, changesFrom, Ancestors.push]
  | .composite id k cs w, a, chain, h => by
      rw [visit, eager]
      rcases h with h | rfl
      · obtain rfl := List.eq_nil_of_length_eq_zero h
        simp [visitAll, eagerAll, changes]
      · have hall := visitAll_eq_eager cs (.composite id k cs w) a.lineage {} [] none rfl (.inl rfl)
        simp only [List.length_nil] at hall
        simp [hall, changesFrom, Ancestors.push]

theorem visitAll_eq_eager : ∀ (children : List Node) (n : Node) (above chain : Lineage)
    (front : List Node) (changed : Option (List Node)), n.children = front ++ children →
      chain = {} ∨ chain = above.push n →
      visitAll fn n above chain front.length changed children = do
        let rs ← eagerAll fn ⟨some n, above⟩ children
        return changesFrom changed front children rs
  | [], _, _, _, _, changed, _, _ => by
      cases changed <;> simp [visitAll, eagerAll, changesFrom, changes]
  | child :: rest, n, above, chain, front, changed, hn, hchain => by
      -- the link that this child may add stands for all that follow
      obtain ⟨hvisit, hrest⟩ := chain_link child hchain
      have hn' : n.children = (front ++ [child]) ++ rest := by simp [hn]
      rw [visitAll, visit_eq_eager child hvisit]
      simp only [eagerAll, bind_assoc, pure_bind]
      congr 1
      funext next
      have hall := visitAll_eq_eager rest n above _ _ (noteChange n front.length child next changed)
        hn' hrest
      simp only [List.length_append, List.length_singleton, changesFrom_noteChange hn] at hall
      exact hall
end

theorem below_eq (root : Node) (fn : Transform σ) (a : Ancestors) (supply : Supply) (memory : σ) :
    below root fn a supply memory = run (eager fn a root) supply memory := by
  rw [below, visit_eq_eager root (.inr rfl)]

theorem visitBelow_eq (fn : Transform σ) (a : Ancestors) (n : Node) :
    visitBelow fn a n = (do
      let results ← eagerAll fn (a.push n) n.children
      regrow n (changes n.children results) : Pass σ Node) := by
  have hall : visitAll fn n a.lineage {} ([] : List Node).length none n.children = _ :=
    visitAll_eq_eager n.children n a.lineage {} [] none rfl (.inl rfl)
  simp only [List.length_nil] at hall
  simp [visitBelow, hall, changesFrom, Ancestors.push]

end Pass

end Lossless
