import Lossless.Text.Rune

/-!
# Telemetry — attributes

Spans carry named values: texts, numbers and truth values, and lists of these.
-/

namespace Lossless.Telemetry

/-- The value of an attribute. Of floating-point numbers it holds the bits. -/
inductive Value where
  | text (t : Text)
  | int (i : Int)
  | float (bits : UInt64)
  | bool (b : Bool)
  | texts (ts : List Text)
  | ints (is : List Int)
  | floats (bits : List UInt64)
  | bools (bs : List Bool)
  deriving DecidableEq, Repr

/-- A named value. -/
structure Attribute where
  key : String
  value : Value
  deriving DecidableEq, Repr

namespace Attribute

/-- An attribute with a string. -/
def str (key s : String) : Attribute := ⟨key, .text s⟩

/-- An attribute with an integer. -/
def int (key : String) (i : Int) : Attribute := ⟨key, .int i⟩

/-- An attribute with a truth value. -/
def bool (key : String) (b : Bool) : Attribute := ⟨key, .bool b⟩

/-- The greatest number of attributes that are kept together. -/
def limit : Nat := 128

/-- Sets an attribute: a key that is there keeps its place, an empty key is ignored, and so is a new
key when there is no room for it. -/
def set (attrs : List Attribute) (a : Attribute) : List Attribute :=
  if a.key = "" then attrs
  else if attrs.any (·.key = a.key) then
    attrs.map fun b => if b.key = a.key then a else b
  else if attrs.length < limit then attrs ++ [a]
  else attrs

/-- Sets several attributes in order. -/
def setAll (attrs new : List Attribute) : List Attribute := new.foldl set attrs

end Attribute

end Lossless.Telemetry
