/-!
# Decimal — reading numerals

Decimal integers with an optional sign, and decimal floating-point numerals, which are rounded to
the nearest double.
-/

namespace Lossless.Decimal

/-- The value of a list of decimal digits, when it is non-empty and all are digits. -/
def nat? (cs : List Char) : Option Nat :=
  if cs.isEmpty || !cs.all Char.isDigit then none
  else some (cs.foldl (fun n c => 10 * n + (c.toNat - '0'.toNat)) 0)

/-- A sign and the characters after it. -/
def sign (cs : List Char) : Bool × List Char :=
  match cs with
  | '-' :: rest => (true, rest)
  | '+' :: rest => (false, rest)
  | _ => (false, cs)

/-- A decimal integer with an optional sign. -/
def int? (cs : List Char) : Option Int :=
  let (negative, body) := sign cs
  (nat? body).map fun n => if negative then -(n : Int) else n

/-- The least and the greatest 64-bit integer. -/
def minInt : Int := -9223372036854775808

@[inherit_doc minInt]
def maxInt : Int := 9223372036854775807

/-- A decimal integer of 64 bits with an optional sign. -/
def int64? (cs : List Char) : Option Int :=
  (int? cs).filter fun i => minInt ≤ i && i ≤ maxInt

/-- The parts of a decimal floating-point numeral: sign, significand and decimal exponent. -/
structure Scientific where
  negative : Bool
  significand : Nat
  exponent : Int

/-- The exponent part of a numeral: nothing, or a mark, an optional sign and digits. -/
def exponent? (cs : List Char) : Option Int :=
  match cs with
  | [] => some 0
  | c :: rest => if c = 'e' || c = 'E' then int? rest else none

/-- A decimal floating-point numeral. At least one digit stands before or after the point. -/
def scientific? (cs : List Char) : Option Scientific :=
  let (negative, body) := sign cs
  let whole := body.takeWhile Char.isDigit
  let rest := body.dropWhile Char.isDigit
  let (fraction, rest) := match rest with
    | '.' :: more => (more.takeWhile Char.isDigit, more.dropWhile Char.isDigit)
    | _ => ([], rest)
  match nat? (whole ++ fraction), exponent? rest with
  | some n, some e => some ⟨negative, n, e - fraction.length⟩
  | _, _ => none

/-- The nearest double. Exponents beyond the range of doubles are cut off first. -/
def Scientific.toFloat (s : Scientific) : Float :=
  let digits : Int := (Nat.toDigits 10 s.significand).length
  let x :=
    if s.significand = 0 then 0.0
    else if 400 < digits + s.exponent then 1.0 / 0.0
    else if digits + s.exponent < -400 then 0.0
    else if 0 ≤ s.exponent then Float.ofScientific s.significand false s.exponent.toNat
    else Float.ofScientific s.significand true (-s.exponent).toNat
  if s.negative then -x else x

end Lossless.Decimal
