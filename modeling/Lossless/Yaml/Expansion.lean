import Lossless.Yaml.Node

/-!
# Yaml — how far aliases may blow a document up

A small document may stand for a huge one if aliases refer to nodes with aliases.  So the nodes that
are visited are counted, and beside them those below an alias: these may be most of a small
document, and only a small part of a large one.
-/

namespace Lossless.Yaml

/-- The nodes visited so far, and how many of them stand below an alias. -/
structure Expansion where
  visited : Nat
  aliased : Nat

namespace Expansion

/-- Up to this number of nodes 99 percent may stand below an alias. -/
def small : Nat := 400000

/-- From this number of nodes on 10 percent may stand below an alias. -/
def large : Nat := 4000000

/-- Whether too many nodes stand below an alias. Between small and large documents the part that
may do so shrinks evenly. -/
def isExcessive (e : Expansion) : Bool :=
  let span := large - small
  let allowed :=
    if e.visited ≤ small then 99 * span
    else if large ≤ e.visited then 10 * span
    else 99 * span - 89 * (e.visited - small)
  100 < e.aliased && 1000 < e.visited && allowed * e.visited < 100 * span * e.aliased

/-- Counts one node; none when there are too many below an alias. -/
def visit (below : Bool) (e : Expansion) : Option Expansion :=
  let e := ⟨e.visited + 1, if below then e.aliased + 1 else e.aliased⟩
  if e.isExcessive then none else some e

end Expansion

mutual
/-- Counts the nodes of a node. -/
def Node.expand? (below : Bool) (e : Expansion) : Node → Option Expansion
  | .scalar _ _ _ | .cycle _ => e.visit below
  | .seq items => (e.visit below).bind fun e => expandItems? below e items
  | .map entries => (e.visit below).bind fun e => expandEntries? below e entries
  | .alias _ target => (e.visit below).bind fun e => target.expand? true e

@[inherit_doc Node.expand?]
def expandItems? (below : Bool) (e : Expansion) : List Node → Option Expansion
  | [] => some e
  | n :: rest => (n.expand? below e).bind fun e => expandItems? below e rest

@[inherit_doc Node.expand?]
def expandEntries? (below : Bool) (e : Expansion) : List (Node × Node) → Option Expansion
  | [] => some e
  | (k, n) :: rest =>
    ((k.expand? below e).bind fun e => n.expand? below e).bind fun e => expandEntries? below e rest
end

/-- Whether a document may be expanded. -/
def Node.isExpandable (n : Node) : Bool := (n.expand? false ⟨1, 0⟩).isSome

end Lossless.Yaml
