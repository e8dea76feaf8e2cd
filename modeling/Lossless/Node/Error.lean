import Lossless.Catalog.Variant

/-!
# Node — errors

What can be wrong with building a node, reaching a child or narrowing one, and what is no error but
a misuse of the library: asking a leaf for a child, or a position that does not exist.
-/

namespace Lossless

/-- A child that is not of the variants it should be. The parent is absent when a node was
narrowed on its own. -/
structure UnexpectedKind where
  parent : String := ""
  slot : String := ""
  want : VariantSet
  got : String
  gotClass : NodeClass
  deriving DecidableEq, Repr

/-- The text of the error. -/
def UnexpectedKind.message (e : UnexpectedKind) : String :=
  let got := if e.gotClass = .token then "token:" ++ e.got else e.got
  (if e.parent = "" then "" else e.parent ++ "." ++ e.slot ++ ": ")
    ++ "unexpected node kind: got " ++ got ++ ", want " ++ e.want.text

/-- What can be wrong with an operation on nodes. -/
inductive NodeError where
  | unknownSlot (kind slot : String)
  | unknownIndex (index : Int) (length : Nat)
  | arity (kind : String) (slots children : Nat)
  | noKind
  | noChild
  | noChildInSlot (kind slot : String)
  | noChildAt (owner : String) (position : Nat)
  | leaf (kind : String)
  | unexpected (e : UnexpectedKind)
  deriving DecidableEq, Repr

/-- The text of an error. -/
def NodeError.message : NodeError → String
  | .unknownSlot kind slot =>
    "unknown slot: " ++ kind ++ " has no slot " ++ Text.quoteString slot
  | .unknownIndex i n => "unknown slot: list index " ++ toString i ++ " of " ++ toString n
  | .arity kind slots children =>
    "wrong number of children: " ++ kind ++ " has " ++ toString slots ++ " slots, got "
      ++ toString children
  | .noKind => "nil kind"
  | .noChild => "nil child"
  | .noChildInSlot kind slot => kind ++ "." ++ slot ++ ": nil child"
  | .noChildAt owner i => owner ++ ": nil child at position " ++ toString i
  | .leaf kind => "leaf nodes have no children: " ++ kind
  | .unexpected e => e.message

/-- A use of the library that no caller should make. -/
inductive Misuse where
  | tokenChild (kind : String) (index : Int)
  | tokenSlot (kind : String) (index : Int)
  | missingChild (index : Int)
  | missingSlot (index : Int)
  | ancestor (index : Int) (length : Nat)
  | outOfRange
  deriving DecidableEq, Repr

/-- The text of a misuse; a plain position out of range has none. -/
def Misuse.message : Misuse → Option String
  | .tokenChild kind i => some ("token " ++ kind ++ " has no child " ++ toString i)
  | .tokenSlot kind i => some ("token " ++ kind ++ " has no slot " ++ toString i)
  | .missingChild i => some ("missing node has no child " ++ toString i)
  | .missingSlot i => some ("missing node has no slot " ++ toString i)
  | .ancestor i n => some ("ancestor " ++ toString i ++ " out of range [0:" ++ toString n ++ "]")
  | .outOfRange => none

end Lossless
