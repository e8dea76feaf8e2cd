import Lossless.Node.Make
import Lossless.Pass.Ancestors

/-!
# Pass — bottom-up passes

A pass visits every node after its children.  When no child of a node changed, the transform sees
the node itself; otherwise it sees a new node with the new children.  Subtrees that nothing touched
are shared between input and output, so a pass that changes nothing returns its root.

A pass does no work for what does not change: new children are collected from the first change on,
and the chain of ancestors gets a link for a node when the first child with children of its own is
met, which the later ones share.
-/

namespace Lossless

/-- What a pass did. -/
structure Stats where
  /-- The number of calls of the transform. -/
  visited : Int64 := 0
  /-- The number of nodes built anew because a child changed. -/
  rebuilt : Int64 := 0
  /-- The number of calls that returned another node. -/
  replaced : Int64 := 0
  deriving DecidableEq, Repr

namespace Stats

/-- Whether a pass changed anything. -/
def changed (s : Stats) : Bool := 0 < s.rebuilt || 0 < s.replaced

/-- The sum of what two passes did; the counts are words and wrap around. -/
def add (a b : Stats) : Stats :=
  ⟨a.visited + b.visited, a.rebuilt + b.rebuilt, a.replaced + b.replaced⟩

/-- The sum of what several passes did. -/
def sum (ss : List Stats) : Stats := ss.foldl add {}

end Stats

/-- Why a transform, or the pass that called it, failed. -/
inductive Failure where
  /-- The transform gave a message of its own. -/
  | custom (message : String)
  /-- An operation on nodes failed. -/
  | node (e : NodeError)
  /-- The transform returned no node. -/
  | noResult
  /-- The transform asked a node for what no caller should ask. -/
  | misuse (m : Misuse)
  /-- The transform failed on a node of the given kind. -/
  | onNode (kind : String) (cause : Failure)
  /-- A node of the given kind could not be built anew from its new children. -/
  | rebuilding (kind : String) (cause : Failure)
  /-- The leading trivia of a token of the given kind could not be taken off. -/
  | stripping (kind : String) (cause : Failure)
  deriving DecidableEq, Repr

namespace Failure

/-- The text of a failure. -/
def message : Failure → String
  | .custom m => m
  | .node e => e.message
  | .noResult => "transform returned nil node"
  | .misuse m => m.message.getD "index out of range"
  | .onNode kind cause => "rewrite " ++ kind ++ ": " ++ cause.message
  | .rebuilding kind cause => "rebuild " ++ kind ++ ": " ++ cause.message
  | .stripping kind cause => "strip leading trivia of " ++ kind ++ ": " ++ cause.message

/-- What a failure comes down to, without the places it passed through. -/
def root : Failure → Failure
  | .onNode _ cause => cause.root
  | .rebuilding _ cause => cause.root
  | .stripping _ cause => cause.root
  | f => f

end Failure

/-- The result of a computation that builds nodes, with node errors as failures. -/
def orFail {α : Type} (m : Make NodeError α) : Make Failure α := fun s =>
  match m s with
  | .ok r => .ok r
  | .error e => .error (.node e)

/-- A transform of nodes: it sees a node and its ancestors, and returns the node itself to leave it
unchanged. `σ` is what it remembers from call to call. -/
abbrev Transform (σ : Type) :=
  Node → Ancestors → ExceptT Failure (StateM (Supply × σ)) (Option Node)

/-- A transform without memory. -/
abbrev PureTransform := Node → Ancestors → Make Failure (Option Node)

/-- A transform without memory as one that leaves every memory alone. -/
def PureTransform.lift {σ : Type} (f : PureTransform) : Transform σ := fun n a s =>
  match f n a s.1 with
  | .ok (r, supply) => (.ok r, (supply, s.2))
  | .error e => (.error e, s)

/-- The state of a pass. -/
structure PassState (σ : Type) where
  supply : Supply
  stats : Stats
  memory : σ

/-- Computations of a pass. -/
abbrev Pass (σ : Type) := ExceptT Failure (StateM (PassState σ))

namespace Pass

variable {σ : Type}

/-- Builds nodes. -/
def making {α : Type} (m : Make Failure α) : Pass σ α := fun s =>
  match m s.supply with
  | .ok (a, supply) => (.ok a, { s with supply })
  | .error e => (.error e, s)

/-- Changes what the pass has counted. -/
def count (f : Stats → Stats) : Pass σ Unit := fun s => (.ok (), { s with stats := f s.stats })

/-- Calls the transform. -/
def call (fn : Transform σ) (n : Node) (a : Ancestors) : Pass σ (Option Node) := fun s =>
  let (r, supply, memory) := fn n a (s.supply, s.memory)
  (r, { s with supply, memory })

/-- Calls the transform for a node, counts the call, and names the node's kind when it fails. -/
def apply (fn : Transform σ) (a : Ancestors) (n : Node) : Pass σ Node := do
  count fun s => { s with visited := s.visited + 1 }
  let result ← tryCatch (call fn n a) fun e => throw (.onNode n.kind e)
  match result with
  | none => throw (.onNode n.kind .noResult)
  | some r =>
    if r.same n then return r
    else
      count fun s => { s with replaced := s.replaced + 1 }
      return r

/-- A new node like `n` with new children, or `n` itself when none of its children changed. -/
def regrow (n : Node) (changed : Option (List Node)) : Pass σ Node :=
  match changed with
  | none => pure n
  | some children => do
    let r ← tryCatch (making (orFail (n.rebuild (children.map some)))) fun e =>
      throw (.rebuilding n.kind e)
    count fun s => { s with rebuilt := s.rebuilt + 1 }
    return r

/-- The new children of `n` up to position `i`, where `next` was made of `child`. There are none as
long as no child changed; with the first change the children in front of it are taken over. -/
def noteChange (n : Node) (i : Nat) (child next : Node) :
    Option (List Node) → Option (List Node)
  | some changed => some (changed ++ [next])
  | none => if next.same child then none else some (n.children.take i ++ [next])

mutual
/-- Transforms a tree whose ancestors are given. Their chain is given too, when the root of the tree
has children; it is what they share. -/
def visit (fn : Transform σ) (a : Ancestors) (chain : Lineage) : Node → Pass σ Node
  | .missing => apply fn a .missing
  | .token t => apply fn a (.token t)
  | .list id items w => do
    let n : Node := .list id items w
    apply fn a (← regrow n (← visitAll fn n chain {} 0 none items))
  | .composite id k cs w => do
    let n : Node := .composite id k cs w
    apply fn a (← regrow n (← visitAll fn n chain {} 0 none cs))

/-- Transforms the children of `n` from position `i` on, left to right. The chain of the ancestors
of `n` is `above`; the one of its children is empty as long as no child asked for it. -/
def visitAll (fn : Transform σ) (n : Node) (above : Lineage) :
    (chain : Lineage) → (i : Nat) → (changed : Option (List Node)) → List Node →
      Pass σ (Option (List Node))
  | _, _, changed, [] => pure changed
  | chain, i, changed, child :: rest => do
    let chain := if chain.isEmpty && 0 < child.childCount then above.push n else chain
    let next ← visit fn ⟨some n, above⟩ chain child
    visitAll fn n above chain (i + 1) (noteChange n i child next changed) rest
end

/-- Transforms what is below a node, and not the node itself. -/
def visitBelow (fn : Transform σ) (a : Ancestors) (n : Node) : Pass σ Node := do
  regrow n (← visitAll fn n a.lineage {} 0 none n.children)

end Pass

/-- The outcome of a pass: its result, what it did, and the state it leaves. -/
structure Outcome (σ : Type) where
  result : Except Failure Node
  stats : Stats
  supply : Supply
  memory : σ

namespace Pass

variable {σ : Type}

/-- The outcome of running a pass. -/
def run (p : Pass σ Node) (supply : Supply) (memory : σ) : Outcome σ :=
  let (result, s) := p ⟨supply, {}, memory⟩
  ⟨result, s.stats, s.supply, s.memory⟩

/-- Transforms a tree that is part of a larger one, whose nodes above it are `a`. -/
def below (root : Node) (fn : Transform σ) (a : Ancestors) (supply : Supply) (memory : σ) :
    Outcome σ := run (Pass.visit fn a a.lineage root) supply memory

/-- Transforms a whole tree. -/
def whole (root : Node) (fn : Transform σ) (supply : Supply) (memory : σ) : Outcome σ :=
  below root fn {} supply memory

/-- Transforms everything strictly below the root. -/
def descendants (root : Node) (fn : Transform σ) (supply : Supply) (memory : σ) : Outcome σ :=
  run (Pass.visitBelow fn {} root) supply memory

/-- Transforms a whole tree with a transform without memory, and reports what the pass did. -/
def withStats (root : Node) (fn : PureTransform) (supply : Supply) : Outcome Unit :=
  whole root fn.lift supply ()

/-- The transform that puts `new` in the place of `old`. -/
def substitution (old new : Node) : PureTransform := fun n _ =>
  pure (some (if n.same old then new else n))

/-- The tree with every occurrence of `old` replaced. -/
def replace (root : Node) (old new : Option Node) : Make Failure Node :=
  match new with
  | none => throw .noResult
  | some new =>
    let fn : PureTransform := match old with
      | some old => substitution old new
      | none => fun n _ => pure (some n)
    fun supply =>
      let o := withStats root fn supply
      o.result.map fun n => (n, o.supply)

end Pass

end Lossless
