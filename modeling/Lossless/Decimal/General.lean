import Lossless.Decimal.Shortest

/-!
# Decimal — general notation

The shortest decimal of a double in general notation: positional for decimal exponents from -4 up
to 5, otherwise with an exponent of at least two digits and its sign.
-/

namespace Lossless.Decimal

/-- Positional notation of a decimal. -/
def positional (d : Digits) : List Char :=
  if d.point ≤ 0 then '0' :: '.' :: (List.replicate (-d.point).toNat '0' ++ d.digits)
  else
    let n := d.point.toNat
    if d.digits.length ≤ n then d.digits ++ List.replicate (n - d.digits.length) '0'
    else d.digits.take n ++ '.' :: d.digits.drop n

/-- The exponent of a decimal in exponent notation. -/
def exponentChars (e : Int) : List Char :=
  let ds := Nat.toDigits 10 e.natAbs
  'e' :: (if e < 0 then '-' else '+') :: (if ds.length < 2 then '0' :: ds else ds)

/-- Exponent notation of a decimal. -/
def exponential (d : Digits) : List Char :=
  let rest := d.digits.drop 1
  d.digits.take 1 ++ (if rest.isEmpty then [] else '.' :: rest) ++ exponentChars (d.point - 1)

/-- General notation of a decimal. -/
def generalChars (d : Digits) : List Char :=
  if d.point - 1 < -4 || 6 ≤ d.point - 1 then
    if d.digits = ['0'] then ['0'] else exponential d
  else positional d

/-- General notation of a double. -/
def general (x : Float) : String :=
  match Binary.ofFloat x with
  | .nan => "NaN"
  | .infinite negative => if negative then "-Inf" else "+Inf"
  | .finite negative m q least =>
    let body := generalChars (shortest m q least)
    String.ofList (if negative then '-' :: body else body)

end Lossless.Decimal
