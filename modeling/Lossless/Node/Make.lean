import Lossless.Node.Basic
import Lossless.Node.Error

/-!
# Node — building nodes

Every node that is built gets the next number of a supply, so that no two built nodes are the same
object.  The operations that change part of a node return the node itself when nothing changes.
A child may be absent (`none`), which is an error that names its position.
-/

namespace Lossless

/-- The next number for a node. -/
abbrev Supply := Nat

/-- The supply with which numbering starts; zero is the number of the missing node. -/
def Supply.start : Supply := 1

/-- Computations that build nodes and may fail with an error `ε`. -/
abbrev Make (ε : Type) := StateT Supply (Except ε)

namespace Make

variable {ε α β : Type}

theorem liftM_eq_ok {x : Except ε α} {s s' : Supply} {a : α} :
    (liftM x : Make ε α) s = .ok (a, s') ↔ x = .ok a ∧ s' = s := by
  show (x >>= fun a => pure (a, s)) = _ ↔ _
  cases x with
  | error e => exact ⟨nofun, nofun⟩
  | ok b => exact ⟨fun h => by cases h; exact ⟨rfl, rfl⟩, fun ⟨h, hs⟩ => by cases h; cases hs; rfl⟩

theorem bind_apply (m : Make ε α) (f : α → Make ε β) (s : Supply) :
    (m >>= f) s = match m s with
      | .ok (a, s') => f a s'
      | .error e => .error e := by
  show (m s >>= fun p => f p.1 p.2) = _
  cases m s <;> rfl

/-- A sequence of two computations gives a result when both do. -/
theorem bind_eq_ok {m : Make ε α} {f : α → Make ε β} {s : Supply} {r : β × Supply} :
    (m >>= f) s = .ok r ↔ ∃ a s', m s = .ok (a, s') ∧ f a s' = .ok r := by
  rw [bind_apply]
  cases m s with
  | error e => simp
  | ok p => exact ⟨fun h => ⟨p.1, p.2, rfl, h⟩, fun ⟨_, _, hp, h⟩ => by cases hp; exact h⟩

/-- A sequence of two computations fails where the first of them that fails does. -/
theorem bind_eq_error {m : Make ε α} {f : α → Make ε β} {s : Supply} {e : ε} :
    (m >>= f) s = .error e ↔
      m s = .error e ∨ ∃ a s', m s = .ok (a, s') ∧ f a s' = .error e := by
  rw [bind_apply]
  cases m s with
  | error e' => simp
  | ok p => exact ⟨fun h => .inr ⟨p.1, p.2, rfl, h⟩,
      fun h => h.elim nofun fun ⟨_, _, hp, hf⟩ => by cases hp; exact hf⟩

end Make

/-- A new number. -/
def fresh {ε : Type} : Make ε Nat := fun n => .ok (n, n + 1)

/-- The value at a position counted from zero; none for negative positions. -/
def nth? {α : Type} (xs : List α) (i : Int) : Option α := if i < 0 then none else xs[i.toNat]?

namespace Token

/-- A new token. -/
def make {ε : Type} (kind : String) (leading : List Trivia) (text : Text) (trailing : List Trivia) :
    Make ε Token := do
  let id ← fresh
  return ⟨id, kind, leading, text, trailing,
    triviaWidth leading + text.length + triviaWidth trailing⟩

/-- The token with another text. -/
def withText {ε : Type} (t : Token) (text : Text) : Make ε Token :=
  if text = t.text then pure t else make t.kind t.leading text t.trailing

/-- The token with another kind. -/
def withKind {ε : Type} (t : Token) (kind : String) : Make ε Token :=
  if kind = t.kind then pure t else make kind t.leading t.text t.trailing

/-- The token with other leading trivia. -/
def withLeading {ε : Type} (t : Token) (leading : List Trivia) : Make ε Token :=
  if leading = t.leading then pure t else make t.kind leading t.text t.trailing

/-- The token with other trailing trivia. -/
def withTrailing {ε : Type} (t : Token) (trailing : List Trivia) : Make ε Token :=
  if trailing = t.trailing then pure t else make t.kind t.leading t.text trailing

/-- The token with another kind and text. -/
def withKindAndText {ε : Type} (t : Token) (kind : String) (text : Text) : Make ε Token :=
  if t.kind = kind ∧ t.text = text then pure t else make kind t.leading text t.trailing

end Token

/-- The children of a list of possibly absent ones. The error names the first absent position,
counted from `i`. -/
def presentFrom (owner : String) : (i : Nat) → List (Option Node) → Except NodeError (List Node)
  | _, [] => .ok []
  | i, none :: _ => .error (.noChildAt owner i)
  | i, some n :: rest => (presentFrom owner (i + 1) rest).map (n :: ·)

/-- Whether possibly absent children are the given nodes, object by object. -/
def sameChildren : List Node → List (Option Node) → Bool
  | [], [] => true
  | a :: as, some b :: bs => a.same b && sameChildren as bs
  | _, _ => false

namespace NodeList

/-- A new list of nodes. -/
def ofNodes {ε : Type} (items : List Node) : Make ε NodeList := do
  let id ← fresh
  return ⟨id, items, Node.totalWidth items⟩

/-- A new list of possibly absent items. -/
def make (items : List (Option Node)) : Make NodeError NodeList := do
  ofNodes (← presentFrom "list" 0 items)

/-- The list with other items. -/
def withItems (l : NodeList) (items : List (Option Node)) : Make NodeError NodeList :=
  if sameChildren l.items items then pure l else make items

/-- The list with one item replaced. -/
def withItem (l : NodeList) (i : Int) (item : Option Node) : Make NodeError NodeList :=
  match nth? l.items i with
  | none => throw (.unknownIndex i l.items.length)
  | some current =>
    match item with
    | none => throw .noChild
    | some n =>
      if current.same n then pure l
      else do
        let id ← fresh
        return ⟨id, l.items.set i.toNat n, l.width - current.width + n.width⟩

end NodeList

namespace Composite

/-- A new composite of a kind with the given children, in number and order those of the slots. -/
def ofNodes (kind : Kind) (children : List Node) : Make NodeError Composite := do
  if children.length = kind.arity then
    let id ← fresh
    return ⟨id, kind, children, Node.totalWidth children⟩
  else throw (.arity kind.name kind.arity children.length)

/-- A new composite of a possibly unknown kind with possibly absent children. -/
def make (kind : Option Kind) (children : List (Option Node)) : Make NodeError Composite :=
  match kind with
  | none => throw .noKind
  | some k =>
    if children.length = k.arity then do ofNodes k (← presentFrom k.name 0 children)
    else throw (.arity k.name k.arity children.length)

/-- The composite with one slot replaced. -/
def withSlot (c : Composite) (slot : String) (child : Option Node) : Make NodeError Composite :=
  match c.kind.slot? slot with
  | none => throw (.unknownSlot c.kind.name slot)
  | some (i, _) =>
    match child with
    | none => throw (.noChildInSlot c.kind.name slot)
    | some n =>
      let current := c.children.getD i .missing
      if current.same n then pure c
      else do
        let id ← fresh
        return ⟨id, c.kind, c.children.set i n, c.width - current.width + n.width⟩

/-- The composite with all children replaced. -/
def withChildren (c : Composite) (children : List (Option Node)) : Make NodeError Composite :=
  if sameChildren c.children children then pure c else make (some c.kind) children

end Composite

namespace Node

/-- A new node like `n` with the given children. Leaves have none. -/
def rebuild (n : Node) (children : List (Option Node)) : Make NodeError Node :=
  match n with
  | .composite _ k _ _ => do return (← Composite.make (some k) children).toNode
  | .list .. => do return (← NodeList.make children).toNode
  | .token t => throw (.leaf t.kind)
  | .missing => throw (.leaf "missing")

end Node

end Lossless
