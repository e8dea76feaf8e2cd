import Lossless.Node.Traverse
import Mathlib.Data.List.Nodup

/-!
# Node — positions in a tree

An object may stand at several places of a tree, so places are told apart by the way to them: a
*position* lists the children to go to, from the root on.  The nodes on the way to a position are
above it.

**Post-order** (`map_at?_positions`, `nodup_positions`).  The positions of a tree, listed children
before parents, hold the nodes of `postOrder` one by one, and each of them is listed once.
-/

namespace Lossless

/-- A place in a tree: which child to go to at each level, from the root on. -/
abbrev Position := List Nat

namespace Node

/-- The node at a position. -/
def at? (n : Node) : Position → Option Node
  | [] => some n
  | i :: p => n.children[i]?.bind (at? · p)

/-- The nodes from the root to the parent of a position, root first. -/
def above (n : Node) : Position → List Node
  | [] => []
  | i :: p => n :: (n.children.getD i .missing).above p

mutual
/-- The positions of a tree, children before parents, left to right. -/
def positions : Node → List Position
  | .missing | .token _ => [[]]
  | .list _ items _ => positionsAll 0 items ++ [[]]
  | .composite _ _ cs _ => positionsAll 0 cs ++ [[]]

/-- The positions below children, the first of which is number `i`. -/
def positionsAll (i : Nat) : List Node → List Position
  | [] => []
  | n :: rest => (positions n).map (i :: ·) ++ positionsAll (i + 1) rest
end

theorem positions_eq (n : Node) : n.positions = positionsAll 0 n.children ++ [[]] := by
  cases n <;> simp [positions, children, positionsAll]

theorem postOrder_eq (n : Node) : n.postOrder = postOrderAll n.children ++ [n] := by
  cases n <;> simp [postOrder, children, postOrderAll]

@[simp] theorem at?_nil (n : Node) : n.at? [] = some n := rfl

@[simp] theorem above_nil (n : Node) : n.above [] = [] := rfl

theorem at?_cons {n c : Node} {i : Nat} (h : n.children[i]? = some c) (p : Position) :
    n.at? (i :: p) = c.at? p := by
  rw [at?, h]
  rfl

theorem above_cons {n c : Node} {i : Nat} (h : n.children[i]? = some c) (p : Position) :
    n.above (i :: p) = n :: c.above p := by
  rw [above, List.getD_eq_getElem?_getD, h]
  rfl

theorem at?_append {n m : Node} {p : Position} (h : n.at? p = some m) (q : Position) :
    n.at? (p ++ q) = m.at? q := by
  induction p generalizing n with
  | nil =>
      cases h
      rfl
  | cons i p ih =>
      obtain ⟨c, hc, hp⟩ := Option.bind_eq_some_iff.mp h
      rw [List.cons_append, at?_cons hc]
      exact ih hp

theorem exists_at?_of_append {n m : Node} {p q : Position} (h : n.at? (p ++ q) = some m) :
    ∃ a, n.at? p = some a ∧ a.at? q = some m := by
  induction p generalizing n with
  | nil => exact ⟨n, rfl, h⟩
  | cons i p ih =>
      obtain ⟨c, hc, hp⟩ := Option.bind_eq_some_iff.mp h
      obtain ⟨a, ha, hq⟩ := ih hp
      exact ⟨a, (at?_cons hc p).trans ha, hq⟩

theorem at?_child {n m c : Node} {p : Position} {j : Nat} (h : n.at? p = some m)
    (hc : m.children[j]? = some c) : n.at? (p ++ [j]) = some c := by
  rw [at?_append h, at?_cons hc]
  rfl

mutual
/-- **Post-order**: the positions of a tree hold its nodes in the order of the traversal. -/
theorem map_at?_positions : ∀ n : Node, n.positions.map n.at? = n.postOrder.map some
  | .missing | .token _ => rfl
  | .list id items w => by
      have h := map_at?_positionsAll (.list id items w) [] items rfl
      simpa [positions, postOrder] using h
  | .composite id k cs w => by
      have h := map_at?_positionsAll (.composite id k cs w) [] cs rfl
      simpa [positions, postOrder] using h

theorem map_at?_positionsAll : ∀ (n : Node) (front cs : List Node), n.children = front ++ cs →
    (positionsAll front.length cs).map n.at? = (postOrderAll cs).map some
  | _, _, [], _ => rfl
  | n, front, c :: cs, h => by
      have hc : n.children[front.length]? = some c := by simp [h]
      have hrest := map_at?_positionsAll n (front ++ [c]) cs (by simp [h])
      rw [List.length_append, List.length_singleton] at hrest
      have hchild : n.at? ∘ (front.length :: ·) = c.at? := funext (at?_cons hc)
      rw [positionsAll, postOrderAll, List.map_append, List.map_append, hrest, List.map_map,
        hchild, map_at?_positions c]
end

theorem mem_positionsAll_iff {i : Nat} {cs : List Node} {p : Position} :
    p ∈ positionsAll i cs ↔ ∃ j c q, cs[j]? = some c ∧ q ∈ c.positions ∧ p = (i + j) :: q := by
  induction cs generalizing i with
  | nil => simp [positionsAll]
  | cons c cs ih =>
      rw [positionsAll, List.mem_append, List.mem_map, ih]
      constructor
      · rintro (⟨q, hq, rfl⟩ | ⟨j, d, q, hd, hq, rfl⟩)
        · exact ⟨0, c, q, rfl, hq, rfl⟩
        · exact ⟨j + 1, d, q, hd, hq, by rw [Nat.add_assoc, Nat.add_comm 1]⟩
      · rintro ⟨j, d, q, hd, hq, rfl⟩
        cases j with
        | zero =>
            cases hd
            exact .inl ⟨q, hq, rfl⟩
        | succ j => exact .inr ⟨j, d, q, hd, hq, by rw [Nat.add_assoc, Nat.add_comm 1]⟩

mutual
/-- No position is listed twice. -/
theorem nodup_positions : ∀ n : Node, n.positions.Nodup
  | .missing | .token _ => List.nodup_singleton _
  | .list _ items _ => nodup_positions_of (nodup_positionsAll 0 items)
  | .composite _ _ cs _ => nodup_positions_of (nodup_positionsAll 0 cs)

theorem nodup_positionsAll : ∀ (i : Nat) (cs : List Node), (positionsAll i cs).Nodup
  | _, [] => List.nodup_nil
  | i, c :: cs => by
      refine List.nodup_append.mpr ⟨?_, nodup_positionsAll (i + 1) cs, ?_⟩
      · exact (nodup_positions c).map fun _ _ h => (List.cons.inj h).2
      · -- the first number tells a child from those behind it
        rintro _ hp _ hq rfl
        obtain ⟨p, -, rfl⟩ := List.mem_map.mp hp
        obtain ⟨j, _, _, -, -, he⟩ := mem_positionsAll_iff.mp hq
        have := (List.cons.inj he).1
        omega

theorem nodup_positions_of {i : Nat} {cs : List Node} (h : (positionsAll i cs).Nodup) :
    (positionsAll i cs ++ [[]]).Nodup := by
  refine List.nodup_append.mpr ⟨h, List.nodup_singleton _, ?_⟩
  rintro _ hp _ hq rfl
  obtain ⟨_, _, _, -, -, he⟩ := mem_positionsAll_iff.mp hp
  rw [List.mem_singleton.mp hq] at he
  cases he
end

mutual
/-- There are as many positions as the tree has nodes. -/
theorem length_positions : ∀ n : Node, n.positions.length = n.size
  | .missing | .token _ => rfl
  | .list _ items _ => by simp [positions, size, length_positionsAll 0 items]
  | .composite _ _ cs _ => by simp [positions, size, length_positionsAll 0 cs]

theorem length_positionsAll : ∀ (i : Nat) (cs : List Node),
    (positionsAll i cs).length = sizeAll cs
  | _, [] => rfl
  | i, c :: cs => by
      simp [positionsAll, sizeAll, length_positions c, length_positionsAll (i + 1) cs]
end

/-- What stands at a position stands at one of the positions of the tree. -/
theorem mem_positions_of_at? {n m : Node} {p : Position} (h : n.at? p = some m) :
    p ∈ n.positions := by
  rw [positions_eq, List.mem_append]
  induction p generalizing n with
  | nil => exact .inr (.head _)
  | cons i p ih =>
      obtain ⟨c, hc, hp⟩ := Option.bind_eq_some_iff.mp h
      refine .inl (mem_positionsAll_iff.mpr ⟨i, c, p, hc, ?_, by rw [Nat.zero_add]⟩)
      rw [positions_eq, List.mem_append]
      exact ih hp

end Node

end Lossless
