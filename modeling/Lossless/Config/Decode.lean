import Lossless.Config.Value
import Lossless.Decimal.General
import Lossless.Measure.Duration

/-!
# Config — what a value means where it stands

A setting has a type of its own, and a value of another type is converted when there is an obvious
way: texts are read as numbers, numbers and truth values stand for each other, and a text is a list
of the parts between its commas.  Collections are never converted to single values.
-/

namespace Lossless.Config.Value

/-- The written form of a double without exponent. -/
def positionalText (x : Float) : String :=
  match Decimal.Binary.ofFloat x with
  | .nan => "NaN"
  | .infinite negative => if negative then "-Inf" else "+Inf"
  | .finite negative m q least =>
    let d := Decimal.shortest m q least
    let body := if d.digits = ['0'] then ['0'] else Decimal.positional d
    String.ofList (if negative then '-' :: body else body)

/-- The value as a text. -/
def text? : Value → Option String
  | .str s => some s
  | .bool b => some (if b then "1" else "0")
  | .int i => some (toString i)
  | .float x => some (positionalText x)
  | _ => none

/-- The words for the truth values. -/
def truthWord? (s : String) : Option Bool :=
  if ["1", "t", "T", "TRUE", "true", "True"].contains s then some true
  else if ["0", "f", "F", "FALSE", "false", "False"].contains s then some false
  else none

/-- The value as a truth value. -/
def truth? : Value → Option Bool
  | .bool b => some b
  | .int i => some (i ≠ 0)
  | .float x => some (x != 0.0)
  | .str s => if s = "" then some false else truthWord? s
  | _ => none

/-- The integer part of a double; the least integer for doubles beyond the range of integers. -/
def truncate (x : Float) : Int :=
  if -9223372036854775808.0 ≤ x && x < 9223372036854775808.0 then x.toInt64.toInt
  else Decimal.minInt

/-- The 64-bit integer of the same last 64 bits. -/
def wrap (i : Int) : Int := i.bmod (Nat.pow 2 64)

/-- The value as an integer. -/
def integer? : Value → Option Int
  | .int i => some (wrap i)
  | .float x => some (truncate x)
  | .bool b => some (if b then 1 else 0)
  | .str s => if s = "" then some 0 else Decimal.basedInt64? s.toList
  | _ => none

/-- The value as a double. -/
def double? : Value → Option Float
  | .int i => some (Float.ofInt i)
  | .float x => some x
  | .bool b => some (if b then 1.0 else 0.0)
  | .str s => if s = "" then some 0.0 else Decimal.float? s
  | _ => none

/-- The value as a duration; numbers count nanoseconds. -/
def duration? : Value → Option Duration
  | .str s => Duration.parse? s
  | v => v.integer?.map fun n => ⟨n⟩

/-- An item of a list of texts; null is the empty text. -/
def item? : Value → Option String
  | .null => some ""
  | v => v.text?

/-- The value as a list of texts. -/
def texts? : Value → Option (List String)
  | .str s => some (if s = "" then [] else (s.toList.splitOn ',').map String.ofList)
  | .list items => items.mapM item?
  | .map entries => if entries.isEmpty then some [] else none
  | v => v.text?.map fun s => [s]

end Lossless.Config.Value
