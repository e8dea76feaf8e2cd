import Lossless.Decimal.Reading

/-!
# Decimal — numerals of programs

Numerals as programming languages write them.  Integers may have a base, marked by `0x`, `0o`, `0b`
or a leading zero; doubles may be hexadecimal with a binary exponent; and single underscores may
stand between digits, or between the mark of a base and the first digit.
-/

namespace Lossless.Decimal

/-! ### Digits -/

/-- The value of a digit, in bases up to sixteen. -/
def digitValue? (c : Char) : Option Nat :=
  if c.isDigit then some (c.toNat - '0'.toNat)
  else if 'a' ≤ c && c ≤ 'f' then some (c.toNat - 'a'.toNat + 10)
  else if 'A' ≤ c && c ≤ 'F' then some (c.toNat - 'A'.toNat + 10)
  else none

/-- The value of digits of a base; none for characters that are no digits of it. -/
def digits? (base : Nat) (cs : List Char) : Option Nat :=
  cs.foldlM (fun n c =>
    (digitValue? c).bind fun d => if d < base then some (base * n + d) else none) 0

/-- What stands in front of a character: a digit, a separator, or neither. -/
inductive Before where
  | digit
  | separator
  | other

/-- Whether every separator stands between digits. -/
def separatorsFrom (isDigit : Char → Bool) : Before → List Char → Bool
  | .separator, [] => false
  | _, [] => true
  | before, c :: rest =>
    if isDigit c then separatorsFrom isDigit .digit rest
    else if c = '_' then
      match before with
      | .digit => separatorsFrom isDigit .separator rest
      | _ => false
    else match before with
      | .separator => false
      | _ => separatorsFrom isDigit .other rest

/-- Whether every separator of a numeral without sign stands between digits; the mark of a base
counts as a digit. -/
def separatorsOk (cs : List Char) : Bool :=
  match cs with
  | '0' :: mark :: rest =>
    if mark.toLower = 'x' then separatorsFrom (fun c => (digitValue? c).isSome) .digit rest
    else if mark.toLower = 'b' || mark.toLower = 'o' then separatorsFrom Char.isDigit .digit rest
    else separatorsFrom Char.isDigit .other cs
  | _ => separatorsFrom Char.isDigit .other cs

/-- The characters without separators. -/
def withoutSeparators (cs : List Char) : List Char := cs.filter (· ≠ '_')

/-! ### Integers -/

/-- The base of a numeral without sign, and its digits. -/
def baseOf (cs : List Char) : Nat × List Char :=
  match cs with
  | '0' :: mark :: d :: rest =>
    if mark.toLower = 'x' then (16, d :: rest)
    else if mark.toLower = 'o' then (8, d :: rest)
    else if mark.toLower = 'b' then (2, d :: rest)
    else (8, mark :: d :: rest)
  | '0' :: rest => (8, rest)
  | _ => (10, cs)

/-- Why a numeral is not read as an integer. -/
inductive NumeralFault where
  | malformed
  | outOfRange
  deriving DecidableEq, Repr

/-- The greatest unsigned 64-bit integer. -/
def maxWord : Nat := Nat.pow 2 64 - 1

/-- The value of digits of a base, behind digits of the value `n`. The first character that is no
digit, or that makes the value too large, ends the reading; separators are passed over. -/
def wordDigits (base : Nat) : (n : Nat) → List Char → Except NumeralFault Nat
  | n, [] => .ok n
  | n, c :: rest =>
    if c = '_' then wordDigits base n rest
    else match (digitValue? c).filter (· < base) with
      | none => .error .malformed
      | some d =>
        if maxWord < base * n + d then .error .outOfRange else wordDigits base (base * n + d) rest

/-- An unsigned 64-bit integer in the base that its mark tells. A value that is too large is found
before a separator that is out of place. -/
def basedWord (cs : List Char) : Except NumeralFault Nat := do
  if cs.isEmpty then throw .malformed
  let (base, body) := baseOf cs
  let n ← wordDigits base 0 body
  if separatorsOk cs then return n else throw .malformed

/-- A 64-bit integer in the base that its mark tells. -/
def basedInt64 (cs : List Char) : Except NumeralFault Int := do
  let (negative, body) := sign cs
  let n ← basedWord body
  let i := if negative then -(n : Int) else n
  if minInt ≤ i && i ≤ maxInt then return i else throw .outOfRange

/-- An unsigned 64-bit integer in the base that its mark tells. -/
def basedWord? (cs : List Char) : Option Nat := (basedWord cs).toOption

/-- A 64-bit integer in the base that its mark tells. -/
def basedInt64? (cs : List Char) : Option Int := (basedInt64 cs).toOption

/-! ### Doubles -/

/-- The double nearest to `m` times a power of two. -/
def nearestBinary (m : Nat) (e : Int) : Float :=
  if m = 0 then 0.0
  else if 2000 < e then 1.0 / 0.0
  else if e < -2000 - (Nat.log2 m : Int) then 0.0
  else if 0 ≤ e then Float.ofScientific (m * Nat.pow 2 e.toNat) false 0
  else Float.ofScientific (m * Nat.pow 5 (-e).toNat) true (-e).toNat

/-- A hexadecimal numeral behind its mark: digits with an optional point, and a binary exponent. -/
def hexadecimal? (cs : List Char) : Option Float :=
  let isHex (c : Char) := (digitValue? c).isSome
  let whole := cs.takeWhile isHex
  let rest := cs.dropWhile isHex
  let (fraction, rest) := match rest with
    | '.' :: more => (more.takeWhile isHex, more.dropWhile isHex)
    | _ => ([], rest)
  match rest with
  | mark :: e =>
    if mark.toLower ≠ 'p' || (whole ++ fraction).isEmpty then none
    else match digits? 16 (whole ++ fraction), int? e with
      | some m, some e => some (nearestBinary m (e - 4 * fraction.length))
      | _, _ => none
  | [] => none

/-- The names of the values that are no numbers, in lower case. -/
def special? (cs : List Char) : Option Float :=
  let (negative, body) := sign cs
  let name := String.ofList (body.map Char.toLower)
  if name = "inf" || name = "infinity" then some (if negative then -(1.0 / 0.0) else 1.0 / 0.0)
  else if name = "nan" && body.length = cs.length then some (0.0 / 0.0)
  else none

/-- The magnitude of a numeral without sign. -/
def magnitude? (cs : List Char) : Option Float :=
  if !separatorsOk cs then none
  else match withoutSeparators cs with
    | '0' :: mark :: rest =>
      if mark.toLower = 'x' then hexadecimal? rest
      else (scientific? ('0' :: mark :: rest)).map Scientific.toFloat
    | '+' :: _ | '-' :: _ => none
    | body => (scientific? body).map Scientific.toFloat

/-- The double of a numeral; none for what is no numeral and for finite numerals beyond the range
of doubles. -/
def float? (s : String) : Option Float :=
  match special? s.toList with
  | some x => some x
  | none =>
    let (negative, body) := sign s.toList
    ((magnitude? body).filter Float.isFinite).map fun x => if negative then -x else x

end Lossless.Decimal
