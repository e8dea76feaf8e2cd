import Lossless.Node.Basic
import Lossless.Node.Error

/-!
# Pass — the path above a node

The strict ancestors of a node, as seen by the transform that is called for it.  The nearest one is
kept apart and the others form a lineage: linked nodes, nearest first, which siblings share.  Every
link keeps its depth, so that the length of a path is known without walking it.
-/

namespace Lossless

/-- Linked nodes, nearest first. Every link keeps its depth. -/
inductive Links where
  | nil
  | link (node : Node) (up : Links) (depth : Nat)

namespace Links

/-- The depth that the nearest link keeps. -/
def depth : Links → Nat
  | nil => 0
  | link _ _ d => d

/-- The linked nodes, nearest first. -/
def nodes : Links → List Node
  | nil => []
  | link n up _ => n :: up.nodes

/-- The node some links further up: that of the nearest link at zero, none past the last one. -/
def climb : Links → Nat → Option Node
  | nil, _ => none
  | link n _ _, 0 => some n
  | link _ up _, levels + 1 => up.climb levels

/-- Every link is one deeper than the one above it. -/
def Counted : Links → Prop
  | nil => True
  | link _ up d => d = up.depth + 1 ∧ up.Counted

theorem Counted.depth_eq_length {l : Links} (h : l.Counted) : l.depth = l.nodes.length := by
  induction l with
  | nil => rfl
  | link n up d ih => rw [depth, h.1, ih h.2, nodes, List.length_cons]

theorem climb_eq (l : Links) (levels : Nat) : l.climb levels = l.nodes[levels]? := by
  induction l generalizing levels with
  | nil => rfl
  | link n up d ih =>
      cases levels with
      | zero => rfl
      | succ levels => exact ih levels

end Links

/-- Linked nodes, nearest first, whose links keep the right depths. -/
structure Lineage where
  links : Links := .nil
  counted : links.Counted := by trivial

namespace Lineage

/-- The number of nodes, as the nearest link keeps it. -/
def depth (l : Lineage) : Nat := l.links.depth

/-- The nodes, nearest first. -/
def nodes (l : Lineage) : List Node := l.links.nodes

/-- Whether there are no nodes. -/
def isEmpty (l : Lineage) : Bool :=
  match l.links with
  | .nil => true
  | .link .. => false

/-- The lineage with one more node, the nearest one. -/
def push (l : Lineage) (n : Node) : Lineage where
  links := .link n l.links (l.depth + 1)
  counted := ⟨rfl, l.counted⟩

theorem depth_eq_length (l : Lineage) : l.depth = l.nodes.length := l.counted.depth_eq_length

@[simp] theorem isEmpty_nil : ({} : Lineage).isEmpty = true := rfl

@[simp] theorem isEmpty_push (l : Lineage) (n : Node) : (l.push n).isEmpty = false := rfl

@[simp] theorem nodes_push (l : Lineage) (n : Node) : (l.push n).nodes = n :: l.nodes := rfl

end Lineage

/-- The path of the ancestors of a node. -/
structure Ancestors where
  parent : Option Node := none
  above : Lineage := {}

namespace Ancestors

/-- The lineage of all ancestors. -/
def lineage (a : Ancestors) : Lineage :=
  match a.parent with
  | none => {}
  | some p => a.above.push p

/-- All ancestors, nearest first. -/
def chain (a : Ancestors) : List Node := a.lineage.nodes

/-- The ancestors of the children of `n`. -/
def push (a : Ancestors) (n : Node) : Ancestors := ⟨some n, a.lineage⟩

/-- The path with the given ancestors, root first. -/
def ofList (ns : List Node) : Ancestors :=
  match ns.getLast? with
  | none => {}
  | some p => ⟨some p, ns.dropLast.foldl Lineage.push {}⟩

/-- The number of ancestors. -/
def length (a : Ancestors) : Nat :=
  match a.parent with
  | none => 0
  | some _ => a.above.depth + 1

/-- The ancestor some levels above the parent: the parent at zero, none past the root. -/
def up (a : Ancestors) (levels : Int) : Option Node :=
  if levels < 0 then none
  else match a.parent with
    | none => none
    | some p => if levels = 0 then some p else a.above.links.climb (levels.toNat - 1)

/-- The ancestor at a position counted from the root. -/
def at_ (a : Ancestors) (i : Int) : Except Misuse Node :=
  match a.up (a.length - 1 - i) with
  | some n => .ok n
  | none => .error (.ancestor i a.length)

/-- The ancestors, root first. -/
def toList (a : Ancestors) : List Node :=
  (List.range a.length).filterMap fun (i : Nat) => a.up ((a.length : Int) - 1 - i)

/-- The ancestors with their positions counted from the root, root first. -/
def numbered (a : Ancestors) : List (Nat × Node) := a.toList.mapIdx Prod.mk

end Ancestors

end Lossless
