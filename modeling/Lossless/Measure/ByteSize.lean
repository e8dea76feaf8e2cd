import Lossless.Decimal.Numeral
import Lossless.Text.Blank
import Lossless.Text.Case

/-!
# Measure — byte sizes

Numbers of bytes written with units: powers of a thousand (`kB`) or of 1024 (`KiB`), in any case.
-/

namespace Lossless.ByteSize

/-- The bytes of a unit in lower case; the `b` at its end may be left out. -/
def unit? (name : String) : Option Nat :=
  let kilo := Nat.pow 1000
  let kibi := Nat.pow 1024
  let units := [("", 1), ("b", 1), ("k", kilo 1), ("m", kilo 2), ("g", kilo 3), ("t", kilo 4),
    ("p", kilo 5), ("e", kilo 6), ("ki", kibi 1), ("mi", kibi 2), ("gi", kibi 3), ("ti", kibi 4),
    ("pi", kibi 5), ("ei", kibi 6)]
  (units.find? fun (n, _) => n = name || (n ≠ "b" && n ≠ "" && n ++ "b" = name)).map (·.2)

/-- The characters of the number in front of the unit. -/
def isNumber (c : Char) : Bool := c.isDigit || c = '.' || c = ','

/-- Reads a number of bytes: a decimal, in which commas are ignored, and a unit. The product is
computed in doubles and has to fit into 64 bits. -/
def parse? (s : String) : Option Nat := do
  let number := s.toList.takeWhile isNumber
  let x ← Decimal.float? (String.ofList (number.filter (· ≠ ',')))
  let name := Text.trim (String.ofList (s.toList.dropWhile isNumber))
  let unit ← unit? (Text.lower name)
  let bytes := x * unit.toFloat
  if 18446744073709551616.0 ≤ bytes then none else some bytes.toUInt64.toNat

/-- The names of the powers of 1024. -/
def suffixes : List String := ["B", "KiB", "MiB", "GiB", "TiB", "PiB", "EiB"]

/-- The greatest power of 1024 that is at most `x`, as an exponent. -/
def power (x : Float) : (fuel : Nat) → Nat
  | 0 => 0
  | k + 1 => if (Nat.pow 1024 (k + 1)).toFloat ≤ x then k + 1 else power x k

/-- A number of bytes in the greatest fitting unit: with one decimal below ten, otherwise rounded to
a whole number, halves to the even one. -/
def text (n : Nat) : String :=
  if n < 10 then toString n ++ " B"
  else
    let x := n.toFloat
    let e := power x 6
    let tenths := (x / (Nat.pow 1024 e).toFloat * 10.0 + 0.5).floor.toUInt64.toNat
    let suffix := suffixes.getD e ""
    if tenths < 100 then toString (tenths / 10) ++ "." ++ toString (tenths % 10) ++ " " ++ suffix
    else
      let q := tenths / 10
      let r := tenths % 10
      let up := 5 < r || (r = 5 && q % 2 = 1)
      toString (if up then q + 1 else q) ++ " " ++ suffix

end Lossless.ByteSize
