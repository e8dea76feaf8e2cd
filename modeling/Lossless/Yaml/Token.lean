import Lossless.Yaml.Property
import Lossless.Yaml.Scalar

/-!
# Yaml — tokens

What a document is made of: the marks of its notation, the properties of its nodes and its scalars.
Block collections have no brackets of their own; tokens say where they start and end.
-/

namespace Lossless.Yaml

/-- A token. -/
inductive Token where
  | version (major minor : Nat)
  | handle (handle stem : String)
  | documentStart
  | documentEnd
  | streamEnd
  | blockSeqStart
  | blockMapStart
  | blockEnd
  | flowSeqStart
  | flowSeqEnd
  | flowMapStart
  | flowMapEnd
  | blockEntry
  | flowEntry
  | key
  | value
  | alias (name : String)
  | anchor (name : String)
  | tag (handle name : String)
  | scalar (text : String) (plain : Bool)
  deriving DecidableEq, Repr

/-- The token of a directive. -/
def Token.ofDirective : Directive → Token
  | .version major minor => .version major minor
  | .handle mark stem => .handle mark stem

/-- Whether a token stands for a directive. -/
def Token.isDirective : Token → Bool
  | .version _ _ | .handle _ _ => true
  | _ => false

/-- Whether a token cannot belong to the document in front of it. -/
def Token.endsDocument : Token → Bool
  | .documentStart | .documentEnd | .streamEnd => true
  | t => t.isDirective

/-- Something that becomes a key if a colon follows it: the number of its first token, and where its
text begins. A required candidate has to become a key. -/
structure KeyCandidate where
  possible : Bool := false
  required : Bool := false
  token : Nat := 0
  index : Nat := 0
  line : Nat := 0
  col : Nat := 0

/-- How far a key may reach. -/
def keyReach : Nat := 1024

/-- Whether a position is too far from a candidate for it to become a key. -/
def KeyCandidate.isStale (k : KeyCandidate) (c : Cursor) : Bool :=
  k.line < c.line || k.index + keyReach < c.index

end Lossless.Yaml
