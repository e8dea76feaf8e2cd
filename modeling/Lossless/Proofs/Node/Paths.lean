import Lossless.Proofs.Node.Traversal

/-!
# Node — the way to an object

The search for the ancestors of an object keeps a stack of nodes, each with the path to its parent.
What such a stack will find is what its first tree with the object finds (`pathStack_eq`), and a tree
finds the nodes above the first of its positions, parents before children, at which the object stands
(`pathIn`).

**Ancestors** (`ancestors_eq_some_iff`, `ancestors_eq_none_iff`).  The search finds the nodes above
the first position of the object, unless the object is the root or stands nowhere.

**First positions** (`find?_topDown`).  Among positions of which none is above another, it does not
matter whether parents come before children or behind them: both orders have the same first one.
-/

namespace Lossless.Node

variable {n m target : Node} {path : List Node} {p : Position}

/-! ### The search -/

/-- Whether an object stands at a position. -/
def hits (n target : Node) (p : Position) : Bool := (n.at? p).any (·.same target)

theorem hits_eq_true_iff : n.hits target p = true ↔ ∃ m, n.at? p = some m ∧ m.same target = true := by
  rw [hits, Option.any_eq_true]

/-- What the search finds in a tree below a path: the nodes above the first position of the object. -/
def pathIn (target n : Node) (path : List Node) : Option (List Node) :=
  (n.topDown.find? (n.hits target)).map (path ++ n.above ·)

theorem find?_topDown_of_same (h : n.same target = true) :
    n.topDown.find? (n.hits target) = some [] := by
  rw [topDown_eq]
  exact List.find?_cons_of_pos h

theorem find?_topDown_of_ne (h : n.same target = false) :
    n.topDown.find? (n.hits target) = (topDownAll 0 n.children).find? (n.hits target) := by
  rw [topDown_eq]
  exact List.find?_cons_of_neg (by simp [hits, h])

/-- The first position below the last children of a node is the first one of these children that has
any. -/
theorem pathIn_below (target : Node) (path front : List Node) {cs : List Node}
    (hn : n.children = front ++ cs) :
    ((topDownAll front.length cs).find? (n.hits target)).map (path ++ n.above ·) =
      cs.findSome? fun c => pathIn target c (path ++ [n]) := by
  induction cs generalizing front with
  | nil => rfl
  | cons c cs ih =>
      have hc : n.children[front.length]? = some c := by simp [hn]
      have hhits : n.hits target ∘ (front.length :: ·) = c.hits target :=
        funext fun p => by rw [Function.comp, hits, at?_cons hc, hits]
      have habove : (path ++ n.above ·) ∘ (front.length :: ·) = (path ++ [n] ++ c.above ·) :=
        funext fun p => by simp [above_cons hc]
      have hrest := ih (front ++ [c]) (by simp [hn])
      rw [List.length_append, List.length_singleton] at hrest
      rw [topDownAll, List.find?_append, List.find?_map, hhits, Option.map_or, Option.map_map, habove,
        hrest, List.findSome?_cons, pathIn]
      cases c.topDown.find? (c.hits target) <;> rfl

theorem pathIn_of_same (h : n.same target = true) : pathIn target n path = some path := by
  rw [pathIn, find?_topDown_of_same h, Option.map_some, above_nil, List.append_nil]

theorem pathIn_of_ne (h : n.same target = false) :
    pathIn target n path = n.children.findSome? fun c => pathIn target c (path ++ [n]) := by
  rw [pathIn, find?_topDown_of_ne h]
  exact pathIn_below target path [] rfl

/-- The search finds what the first tree of the stack with the object finds. -/
theorem pathStack_eq (target : Node) (stack : Waiting) :
    pathStack target stack = stack.findSome? fun w => pathIn target w.1 w.2 := by
  -- by the search itself: the children of a node that is not the object find what it would
  fun_induction pathStack target stack with
  | case1 => rfl
  | case2 n path stack h => rw [List.findSome?_cons, pathIn_of_same h]
  | case3 n path stack h ih =>
      rw [ih, List.findSome?_append, List.findSome?_map, Function.comp_def, List.findSome?_cons,
        pathIn_of_ne (Bool.eq_false_iff.mpr h)]
      cases n.children.findSome? fun c => pathIn target c (path ++ [n]) <;> rfl

theorem above_eq_nil_iff : n.above p = [] ↔ p = [] := by
  cases p <;> simp [above]

theorem ancestors_eq (root target : Node) : root.ancestors target =
    ((root.topDown.find? (root.hits target)).map root.above).filter (!·.isEmpty) := by
  rw [ancestors, pathStack_eq, List.findSome?_cons, pathIn]
  cases root.topDown.find? (root.hits target) <;> rfl

/-- **The search finds the nodes above the first position of the object**, if that is not the root. -/
theorem ancestors_eq_some_iff {root : Node} : root.ancestors target = some path ↔
    ∃ p, root.topDown.find? (root.hits target) = some p ∧ p ≠ [] ∧ root.above p = path := by
  rw [ancestors_eq]
  constructor
  · intro h
    obtain ⟨habove, hne⟩ := Option.filter_eq_some_iff.mp h
    obtain ⟨p, hp, rfl⟩ := Option.map_eq_some_iff.mp habove
    exact ⟨p, hp, fun hnil => by simp [hnil] at hne, rfl⟩
  · rintro ⟨p, hp, hne, rfl⟩
    rw [hp, Option.map_some]
    exact Option.filter_eq_some_iff.mpr ⟨rfl, by simpa [above_eq_nil_iff] using hne⟩

theorem mem_topDown_of_at? (h : n.at? p = some m) : p ∈ n.topDown :=
  (topDown_perm n).mem_iff.mpr (mem_positions_of_at? h)

theorem find?_topDown_eq_none_iff :
    n.topDown.find? (n.hits target) = none ↔ ∀ p, n.hits target p = false := by
  rw [List.find?_eq_none]
  refine ⟨fun h p => Bool.eq_false_iff.mpr fun hp => ?_, fun h p _ => by simp [h p]⟩
  obtain ⟨m, hm, -⟩ := hits_eq_true_iff.mp hp
  exact h p (mem_topDown_of_at? hm) hp

/-- **The search finds nothing exactly when the object is the root or stands nowhere.** -/
theorem ancestors_eq_none_iff {root : Node} : root.ancestors target = none ↔
    root.same target = true ∨ ∀ p, root.hits target p = false := by
  rw [← find?_topDown_eq_none_iff, Option.eq_none_iff_forall_ne_some]
  constructor
  · intro h
    -- a path that is found is not empty, unless the target is the root
    cases hfind : root.topDown.find? (root.hits target) with
    | none => exact .inr rfl
    | some p =>
        have hhits := List.find?_some hfind
        cases p with
        | nil => exact .inl hhits
        | cons i p =>
            have hpath := ancestors_eq_some_iff.mpr ⟨_, hfind, List.cons_ne_nil _ _, rfl⟩
            exact (h _ hpath).elim
  · rintro (hsame | hnone) path hpath
    · obtain ⟨p, hp, hne, -⟩ := ancestors_eq_some_iff.mp hpath
      exact hne (Option.some.inj (hp.symm.trans (find?_topDown_of_same hsame)))
    · obtain ⟨p, hp, -, -⟩ := ancestors_eq_some_iff.mp hpath
      cases hnone.symm.trans hp

/-! ### Paths -/

theorem exists_above_append (h : n.at? p = some m) : ∃ rest, n.above p ++ [m] = n :: rest := by
  cases p with
  | nil =>
      cases h
      exact ⟨[], rfl⟩
  | cons i p => exact ⟨_, rfl⟩

/-- Every node on the way to a position is a child of the one before it, and what stands at the
position is a child of the last. -/
theorem isChain_above (h : n.at? p = some m) :
    (n.above p ++ [m]).IsChain fun a b => b ∈ a.children := by
  induction p generalizing n with
  | nil =>
      cases h
      exact .singleton _
  | cons i p ih =>
      obtain ⟨c, hc, hp⟩ := Option.bind_eq_some_iff.mp h
      obtain ⟨rest, hrest⟩ := exists_above_append hp
      have hchain := ih hp
      rw [above_cons hc, List.cons_append]
      rw [hrest] at hchain ⊢
      exact .cons_cons (List.mem_of_getElem? hc) hchain

/-! ### First positions in both orders -/

/-- No position of which a predicate holds is above another one. -/
def Apart (n : Node) (P : Position → Bool) : Prop :=
  ∀ p ∈ n.positions, ∀ q ∈ n.positions, P p = true → P q = true → p <+: q → p = q

theorem Apart.child {P : Position → Bool} {i : Nat} {c : Node} (h : n.Apart P)
    (hc : n.children[i]? = some c) : c.Apart (P ∘ (i :: ·)) := by
  have hbelow : ∀ p ∈ c.positions, i :: p ∈ n.positions := by
    intro p hp
    obtain ⟨m, hm⟩ := mem_positions_iff.mp hp
    exact mem_positions_iff.mpr ⟨m, (at?_cons hc p).trans hm⟩
  intro p hp q hq hPp hPq hpq
  have he := h _ (hbelow p hp) _ (hbelow q hq) hPp hPq (List.cons_prefix_cons.mpr ⟨rfl, hpq⟩)
  exact (List.cons.inj he).2

theorem find?_topDownAll {P : Position → Bool} {i : Nat} {cs : List Node}
    (h : ∀ (j : Nat) (c : Node), cs[j]? = some c →
      c.topDown.find? (P ∘ ((i + j) :: ·)) = c.positions.find? (P ∘ ((i + j) :: ·))) :
    (topDownAll i cs).find? P = (positionsAll i cs).find? P := by
  induction cs generalizing i with
  | nil => rfl
  | cons c cs ih =>
      have hfirst := h 0 c rfl
      have hrest : (topDownAll (i + 1) cs).find? P = (positionsAll (i + 1) cs).find? P := by
        refine ih fun j d hd => ?_
        have hj := h (j + 1) d hd
        rwa [Nat.add_comm j, ← Nat.add_assoc] at hj
      rw [Nat.add_zero] at hfirst
      rw [topDownAll, positionsAll, List.find?_append, List.find?_append, List.find?_map,
        List.find?_map, hfirst, hrest]

/-- **Both orders have the same first position** among positions none of which is above another. -/
theorem find?_topDown (n : Node) {P : Position → Bool} (h : n.Apart P) :
    n.topDown.find? P = n.positions.find? P := by
  induction n using children_induct generalizing P with
  | step n ih =>
      have hall : (topDownAll 0 n.children).find? P = (positionsAll 0 n.children).find? P := by
        refine find?_topDownAll fun j c hc => ih c (List.mem_of_getElem? hc) ?_
        rw [Nat.zero_add]
        exact h.child hc
      rw [topDown_eq, positions_eq, List.find?_cons, List.find?_append, hall]
      cases hroot : P [] with
      | false => simp [hroot]
      | true =>
          -- the root is above all positions, so there is no other one
          have hnone : (positionsAll 0 n.children).find? P = none := by
            refine List.find?_eq_none.mpr fun q hq hPq => ?_
            have hmem : ∀ p ∈ positionsAll 0 n.children ++ [[]], p ∈ n.positions :=
              fun p hp => positions_eq n ▸ hp
            obtain rfl := h [] (hmem [] (by simp)) q (hmem q (by simp [hq])) hroot hPq
              List.nil_prefix
            obtain ⟨_, _, _, -, -, he⟩ := mem_positionsAll_iff.mp hq
            cases he
          rw [hnone]
          simp [hroot]

end Lossless.Node
