import Lossless.Decimal.Numeral
import Lossless.Text.Base64
import Lossless.Text.Rune
import Lossless.Yaml.Timestamp

/-!
# Yaml — what scalars stand for

A scalar stands for its own text, unless it is written plainly and looks like something else: a few
words, a number or a point in time.  A tag demands one of these types, and a text that does not look
like it is malformed; a tag of any other type leaves the text as it is.
-/

namespace Lossless.Yaml

/-- What a scalar stands for. -/
inductive Atom where
  | null
  | bool (value : Bool)
  | int (value : Int)
  | float (value : Float)
  | moment
  | str (value : String)

namespace Atom

/-- The words with a fixed meaning. -/
def ofWord? (s : String) : Option Atom :=
  let infinity : Float := 1.0 / 0.0
  if ["", "~", "null", "Null", "NULL"].contains s then some .null
  else if ["true", "True", "TRUE"].contains s then some (.bool true)
  else if ["false", "False", "FALSE"].contains s then some (.bool false)
  else if [".nan", ".NaN", ".NAN"].contains s then some (.float (0.0 / 0.0))
  else if [".inf", ".Inf", ".INF", "+.inf", "+.Inf", "+.INF"].contains s then some (.float infinity)
  else if ["-.inf", "-.Inf", "-.INF"].contains s then some (.float (-infinity))
  else none

/-- A number of digits of a base behind the mark of the base, where the sign stands behind the mark
too, or in front of both. -/
def ofMarked? (mark : Char) (base : Nat) (cs : List Char) : Option Atom :=
  let read (cs : List Char) : Option Int :=
    let (negative, ds) := Decimal.sign cs
    if ds.isEmpty then none
    else (Decimal.digits? base ds).bind fun n =>
      let i := if negative then -(n : Int) else n
      if Decimal.minInt ≤ i && i ≤ Decimal.maxInt then some i else none
  match cs with
  | '0' :: c :: rest => if c = mark then (read rest).map .int else none
  | '-' :: '0' :: c :: rest => if c = mark then (read ('-' :: rest)).map .int else none
  | _ => none

/-- The number that the characters stand for. Underscores are ignored. -/
def ofNumber? (cs : List Char) : Option Atom :=
  let body := cs.filter (· ≠ '_')
  let whole := ((Decimal.basedInt64? body).map Atom.int).orElse fun _ =>
    (Decimal.basedWord? body).map fun n => .int n
  let fraction :=
    if (Decimal.scientific? body).isSome then (Decimal.float? (String.ofList body)).map Atom.float
    else none
  whole.orElse fun _ => fraction.orElse fun _ =>
    (ofMarked? 'b' 2 body).orElse fun _ => ofMarked? 'o' 8 body

/-- What a text looks like; points in time are looked for only if `moments`. -/
def ofText (moments : Bool) (s : String) : Atom :=
  match ofWord? s with
  | some a => a
  | none =>
    let number := match s.toList with
      | '.' :: _ => (Decimal.float? s).map Atom.float
      | c :: _ =>
        if c.isDigit || c = '+' || c = '-' then
          if moments && Timestamp.accepts s.toList then some .moment else ofNumber? s.toList
        else none
      | [] => none
    number.getD (.str s)

/-- The type that an atom has of itself, by its short name. -/
def tag : Atom → String
  | .null => "!!null"
  | .bool _ => "!!bool"
  | .int _ => "!!int"
  | .float _ => "!!float"
  | .moment => "!!timestamp"
  | .str _ => "!!str"

/-- The atom of a text that has to be of a type. An integer of 64 bits will do for a float. -/
def ofTyped? (type s : String) : Option Atom :=
  let a := ofText (type = "!!timestamp") s
  if a.tag = type then some a
  else match a with
    | .int i =>
      if type = "!!float" && i ≤ Decimal.maxInt then some (.float (Float.ofInt i)) else none
    | _ => none

/-- The atom of a scalar. -/
def ofScalar? (text : String) (plain : Bool) (tag : String) : Option Atom :=
  if tag = "" then some (if plain then ofText true text else .str text)
  else if tag = "!!binary" then (Text.Base64.decode? text.toList).map fun t => .str t.toStr
  else if ["!!null", "!!bool", "!!int", "!!float", "!!timestamp"].contains tag then
    ofTyped? tag text
  else some (.str text)

/-- The text of a scalar of the given atom, unless it is null. -/
def text? (written : String) : Atom → Option String
  | .null => none
  | .str s => some s
  | _ => some written

end Atom

end Lossless.Yaml
