import Lossless.Proofs.Node.Positions
import Lossless.Proofs.Node.Sound

/-!
# Node — pre-order

The walk with a stack lists the trees of the stack one after the other (`preOrderStack_eq`): a node in
front of the trees of its children (`preOrder_eq`).

**Pre-order** (`map_at?_topDown`).  The positions of a tree, listed parents before children, hold the
nodes of `preOrder` one by one.
-/

namespace Lossless.Node

/-! ### The stack -/

theorem preOrderStack_nil : preOrderStack [] = [] := by rw [preOrderStack]

theorem preOrderStack_cons (n : Node) (stack : List Node) :
    preOrderStack (n :: stack) = n :: preOrderStack (n.children ++ stack) := by rw [preOrderStack]

/-- What waits on the stack is listed behind what stands in front of it. -/
theorem preOrderStack_append (front stack : List Node) :
    preOrderStack (front ++ stack) = preOrderStack front ++ preOrderStack stack := by
  -- by the walk of the front, which gets smaller with every node
  fun_induction preOrderStack front with
  | case1 => rfl
  | case2 n front ih =>
      rw [List.cons_append, preOrderStack_cons, ← List.append_assoc, ih, List.cons_append]

/-- The stack is listed tree by tree. -/
theorem preOrderStack_eq (stack : List Node) : preOrderStack stack = stack.flatMap preOrder := by
  induction stack with
  | nil => exact preOrderStack_nil
  | cons n stack ih =>
      rw [List.flatMap_cons, ← ih, preOrder, ← preOrderStack_append, List.singleton_append]

/-- A node comes first, and then the trees of its children. -/
theorem preOrder_eq (n : Node) : n.preOrder = n :: n.children.flatMap preOrder := by
  rw [preOrder, preOrderStack_cons, List.append_nil, preOrderStack_eq]

theorem tokens_eq (n : Node) : n.tokens = n.token?.toList ++ n.children.flatMap tokens := by
  unfold tokens
  rw [preOrder_eq, List.filterMap_cons, List.filterMap_flatMap]
  cases n.token? <;> rfl

theorem tokens_children {n c : Node} (hc : c ∈ n.children) : c.tokens ⊆ n.tokens := by
  intro t ht
  rw [tokens_eq, List.mem_append, List.mem_flatMap]
  exact .inr ⟨c, hc, ht⟩

/-! ### Positions -/

mutual
/-- The positions of a tree, parents before children, left to right. -/
def topDown : Node → List Position
  | .missing | .token _ => [[]]
  | .list _ items _ => [] :: topDownAll 0 items
  | .composite _ _ cs _ => [] :: topDownAll 0 cs

/-- The positions below children, the first of which is number `i`. -/
def topDownAll (i : Nat) : List Node → List Position
  | [] => []
  | n :: rest => (topDown n).map (i :: ·) ++ topDownAll (i + 1) rest
end

theorem topDown_eq (n : Node) : n.topDown = [] :: topDownAll 0 n.children := by
  cases n <;> simp [topDown, children, topDownAll]

/-- The positions below the last children of a node hold what `f` lists for these children, when the
positions of a child hold what it lists for the child. -/
theorem map_at?_topDownAll (n : Node) (front : List Node) {cs : List Node}
    (hn : n.children = front ++ cs) (h : ∀ c ∈ cs, c.topDown.map c.at? = c.preOrder.map some) :
    (topDownAll front.length cs).map n.at? = (cs.flatMap preOrder).map some := by
  induction cs generalizing front with
  | nil => rfl
  | cons c cs ih =>
      have hc : n.children[front.length]? = some c := by simp [hn]
      have hchild : n.at? ∘ (front.length :: ·) = c.at? := funext (at?_cons hc)
      have hrest := ih (front ++ [c]) (by simp [hn]) fun d hd => h d (.tail _ hd)
      rw [List.length_append, List.length_singleton] at hrest
      rw [topDownAll, List.flatMap_cons, List.map_append, List.map_append, hrest, List.map_map,
        hchild, h c (.head _)]

/-- **Pre-order**: the positions of a tree hold its nodes in the order of the traversal. -/
theorem map_at?_topDown (n : Node) : n.topDown.map n.at? = n.preOrder.map some := by
  induction n using children_induct with
  | step n ih =>
      have hbelow := map_at?_topDownAll n [] (List.nil_append n.children).symm ih
      rw [topDown_eq, preOrder_eq, List.map_cons, List.map_cons, ← hbelow]
      rfl

end Lossless.Node
