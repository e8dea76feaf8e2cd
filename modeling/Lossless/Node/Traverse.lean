import Lossless.Node.Basic

/-!
# Node — traversals

Trees are walked with a stack of the nodes still to come, children in front of what follows their
parent.  A walk gives the nodes to a consumer one by one, and stops when it wants no more.  The path to a node is found by the same walk, with every waiting node remembering the path
from the root to its parent.
-/

namespace Lossless.Node

/-- The nodes of the trees of a stack, parents before children, from the top on. -/
def preOrderStack : (stack : List Node) → List Node
  | [] => []
  | n :: stack => n :: preOrderStack (n.children ++ stack)
termination_by stack => sizeAll stack
decreasing_by
  simp only [sizeAll_append, sizeAll, size_eq]
  omega

/-- The nodes of a tree, parents before children, left to right. -/
def preOrder (n : Node) : List Node := preOrderStack [n]

mutual
/-- The nodes of a tree, children before parents, left to right. -/
def postOrder : Node → List Node
  | .missing => [.missing]
  | .token t => [.token t]
  | .list id items w => postOrderAll items ++ [.list id items w]
  | .composite id k cs w => postOrderAll cs ++ [.composite id k cs w]

@[inherit_doc postOrder]
def postOrderAll : List Node → List Node
  | [] => []
  | n :: rest => postOrder n ++ postOrderAll rest
end

/-- What takes the nodes of a walk one by one: it tells whether it wants more, with its next state. -/
abbrev Consumer (σ : Type) := Node → σ → Bool × σ

namespace Consumer

variable {σ α : Type}

/-- What comes next, when more is wanted. -/
def ifWanted (r : Bool × σ) (next : σ → Bool × σ) : Bool × σ := if r.1 then next r.2 else r

/-- Takes every node. -/
def forEach (body : σ → Node → σ) : Consumer σ := fun n s => (true, body s n)

/-- Takes `k` nodes, or one when `k` is zero, and counts them. -/
def upTo (k : Nat) (body : σ → Node → σ) : Consumer (Nat × σ) :=
  fun n s => (decide (s.1 + 1 < k), s.1 + 1, body s.2 n)

/-- Takes every node and keeps what is picked from it. -/
def collect (pick : Node → Option α) : Consumer (List α) :=
  forEach fun found n => found ++ (pick n).toList

end Consumer

open Consumer

section Walks

variable {σ : Type}

/-- A stack with the children of a node pushed on it, the last child first. -/
def pushReversed (stack : List Node) (n : Node) : List Node :=
  n.children.reverse.foldl (fun stack c => c :: stack) stack

theorem pushReversed_eq (stack : List Node) (n : Node) :
    pushReversed stack n = n.children ++ stack := by
  rw [pushReversed, List.foldl_reverse]
  exact List.foldr_cons_eq_append'

/-- Gives a consumer the nodes of the trees of a stack, parents before children, from the top on, as
long as it wants more. -/
def walkStack (yield : Consumer σ) : (stack : List Node) → σ → Bool × σ
  | [], s => (true, s)
  | n :: stack, s => ifWanted (yield n s) (walkStack yield (pushReversed stack n))
termination_by stack => sizeAll stack
decreasing_by
  simp only [pushReversed_eq, sizeAll_append, sizeAll, size_eq]
  omega

/-- Gives a consumer the nodes of a tree, parents before children, left to right, as long as it wants
more. -/
def walkPreOrder (n : Node) (yield : Consumer σ) (s : σ) : σ := (walkStack yield [n] s).2

mutual
/-- Gives a consumer the nodes of a tree, children before parents, as long as it wants more. -/
def walkUp (yield : Consumer σ) : Node → σ → Bool × σ
  | .missing, s => yield .missing s
  | .token t, s => yield (.token t) s
  | .list id items w, s => ifWanted (walkUpAll yield items s) (yield (.list id items w))
  | .composite id k cs w, s => ifWanted (walkUpAll yield cs s) (yield (.composite id k cs w))

@[inherit_doc walkUp]
def walkUpAll (yield : Consumer σ) : List Node → σ → Bool × σ
  | [], s => (true, s)
  | n :: rest, s => ifWanted (walkUp yield n s) (walkUpAll yield rest)
end

/-- Gives a consumer the nodes of a tree, children before parents, left to right, as long as it wants
more. -/
def walkPostOrder (n : Node) (yield : Consumer σ) (s : σ) : σ := (walkUp yield n s).2

end Walks

/-- The nodes of a tree that satisfy a predicate, in pre-order. -/
def find (p : Node → Bool) (n : Node) : List Node := n.preOrder.filter p

/-- The composites of a kind in a tree, in pre-order. -/
def findKind (kind : String) (n : Node) : List Composite :=
  n.preOrder.filterMap fun m => m.composite?.filter (·.kind.name = kind)

/-- The tokens of a tree in source order. -/
def tokens (n : Node) : List Token := n.preOrder.filterMap token?

/-- A waiting node with the path from the root to its parent. -/
abbrev Waiting := List (Node × List Node)

/-- The total number of nodes below a list of waiting ones. -/
def Waiting.size (w : Waiting) : Nat := sizeAll (w.map (·.1))

/-- The path to the first of the waiting nodes, or of those below them, that is the target. -/
def pathStack (target : Node) : (stack : Waiting) → Option (List Node)
  | [] => none
  | (n, path) :: stack =>
    if n.same target then some path
    else pathStack target (n.children.map (fun c => (c, path ++ [n])) ++ stack)
termination_by stack => Waiting.size stack
decreasing_by
  simp only [Waiting.size, List.map_append, List.map_map, sizeAll_append, List.map_cons, sizeAll,
    size_eq]
  have : List.map ((fun x : Node × List Node => x.1) ∘ fun c => (c, path ++ [n])) n.children
      = n.children := by
    rw [Function.comp_def, List.map_id']
  rw [this]
  omega

/-- The path from the root to the parent of the first occurrence of a target, root first. There is
none when the target is the root or does not occur. -/
def ancestors (root target : Node) : Option (List Node) :=
  (pathStack target [(root, [])]).filter (!·.isEmpty)

end Lossless.Node
