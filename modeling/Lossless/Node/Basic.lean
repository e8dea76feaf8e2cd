import Lossless.Catalog.Basic
import Lossless.Text.Basic

/-!
# Node — full-fidelity syntax trees

A tree holds every byte of its source: tokens carry their literal text and the trivia around it.
Nodes are immutable, and every node is an object of its own, known by its number: two nodes are *the
same* when their numbers agree, however equal their contents are.  The missing node is one object
for all trees.  Each node also carries its width, the byte length of its full text.
-/

namespace Lossless

/-- Source text without meaning of its own, attached to a token. -/
structure Trivia where
  kind : String
  text : Text
  deriving DecidableEq, Repr

/-- The concatenated texts of pieces of trivia. -/
def triviaText (ts : List Trivia) : Text := ts.flatMap (·.text)

/-- The total byte length of pieces of trivia. -/
def triviaWidth (ts : List Trivia) : Nat := (ts.map (·.text.length)).foldr (· + ·) 0

/-- A leaf with its literal text between leading and trailing trivia. -/
structure Token where
  id : Nat
  kind : String
  leading : List Trivia
  text : Text
  trailing : List Trivia
  width : Nat
  deriving DecidableEq, Repr

namespace Token

/-- The text of the leading trivia. -/
def leadingText (t : Token) : Text := triviaText t.leading

/-- The text of the trailing trivia. -/
def trailingText (t : Token) : Text := triviaText t.trailing

/-- The token's text with its trivia. -/
def fullText (t : Token) : Text := t.leadingText ++ t.text ++ t.trailingText

end Token

/-- A node of a syntax tree. -/
inductive Node where
  | missing
  | token (t : Token)
  | list (id : Nat) (items : List Node) (width : Nat)
  | composite (id : Nat) (kind : Kind) (children : List Node) (width : Nat)

/-- An ordered sequence of nodes of any length. -/
structure NodeList where
  id : Nat
  items : List Node
  width : Nat

/-- A node of a catalog kind with one child per slot. -/
structure Composite where
  id : Nat
  kind : Kind
  children : List Node
  width : Nat

namespace Node

instance : Inhabited Node := ⟨.missing⟩

/-- The number of a node. The missing node has number zero, and no other node has it. -/
def id : Node → Nat
  | .missing => 0
  | .token t => t.id
  | .list id _ _ => id
  | .composite id _ _ _ => id

/-- Whether two nodes are the same object. -/
def same (a b : Node) : Bool := a.id == b.id

/-- The structural class of a node. -/
def nodeClass : Node → NodeClass
  | .missing => .missing
  | .token _ => .token
  | .list .. => .list
  | .composite .. => .composite

/-- The kind of a node: of a token or a composite its own, otherwise the name of its class. -/
def kind : Node → String
  | .missing => "missing"
  | .token t => t.kind
  | .list .. => "list"
  | .composite _ k _ _ => k.name

/-- The byte length of the full text. -/
def width : Node → Nat
  | .missing => 0
  | .token t => t.width
  | .list _ _ w => w
  | .composite _ _ _ w => w

/-- The children of a node in order. -/
def children : Node → List Node
  | .missing | .token _ => []
  | .list _ items _ => items
  | .composite _ _ cs _ => cs

/-- The number of children. -/
def childCount (n : Node) : Nat := n.children.length

/-- Whether a node is the missing node. -/
def isMissing : Node → Bool
  | .missing => true
  | _ => false

/-- The names of the child positions: slot names, or the numbers of list items. -/
def slotNames : Node → List String
  | .missing | .token _ => []
  | .list _ items _ => (List.range items.length).map toString
  | .composite _ k _ _ => k.slotNames

/-- The token that a node is. -/
def token? : Node → Option Token
  | .token t => some t
  | _ => none

/-- The list that a node is. -/
def list? : Node → Option NodeList
  | .list id items w => some ⟨id, items, w⟩
  | _ => none

/-- The composite that a node is. -/
def composite? : Node → Option Composite
  | .composite id k cs w => some ⟨id, k, cs, w⟩
  | _ => none

/-- The total width of nodes. -/
def totalWidth (ns : List Node) : Nat := (ns.map width).foldr (· + ·) 0

mutual
/-- The number of nodes of a tree. -/
def size : Node → Nat
  | .missing | .token _ => 1
  | .list _ items _ => sizeAll items + 1
  | .composite _ _ cs _ => sizeAll cs + 1

@[inherit_doc size]
def sizeAll : List Node → Nat
  | [] => 0
  | n :: rest => size n + sizeAll rest
end

theorem sizeAll_append (a b : List Node) : sizeAll (a ++ b) = sizeAll a + sizeAll b := by
  induction a with
  | nil => simp [sizeAll]
  | cons n rest ih => simp only [List.cons_append, sizeAll, ih]; omega

theorem size_eq (n : Node) : n.size = sizeAll n.children + 1 := by
  cases n <;> simp [size, children, sizeAll]

end Node

/-- The node of a list. -/
def NodeList.toNode (l : NodeList) : Node := .list l.id l.items l.width

/-- The node of a composite. -/
def Composite.toNode (c : Composite) : Node := .composite c.id c.kind c.children c.width

end Lossless
