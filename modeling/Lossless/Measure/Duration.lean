import Lossless.Decimal.Reading

/-!
# Measure — durations

Durations in nanoseconds, written as sums of numbers with units: `1h2m3.5s`.  The written form of a
duration has no unit greater than it needs, and whole hours and minutes keep their smaller units.
-/

namespace Lossless

/-- A duration in nanoseconds, of at most 63 bits and a sign. -/
structure Duration where
  ns : Int
  deriving DecidableEq, Repr

namespace Duration

/-- The greatest magnitude of a duration that may be read. -/
def limit : Nat := Nat.pow 2 63

/-- The nanoseconds of a unit. -/
def unit? (name : List Char) : Option Nat :=
  let units := [("ns", 1), ("us", 1000), ("µs", 1000), ("μs", 1000), ("ms", 1000000),
    ("s", 1000000000), ("m", 60000000000), ("h", 3600000000000)]
  units.lookup (String.ofList name)

/-- The digits of a fraction as a number and the power of ten below it; digits that no longer fit
are dropped. -/
def fraction : (n : Nat) → (scale : Nat) → List Char → Nat × Nat
  | n, scale, [] => (n, scale)
  | n, scale, c :: rest =>
    let m := 10 * n + (c.toNat - '0'.toNat)
    if (limit - 1) / 10 < n || limit < m then (n, scale) else fraction m (10 * scale) rest

/-- The value of a number of units with a fraction; the fraction is computed in doubles. -/
def amount? (whole : Nat) (digits : List Char) (unit : Nat) : Option Nat :=
  if limit / unit < whole then none
  else
    let (f, scale) := fraction 0 1 digits
    let part := if f = 0 then 0
      else (f.toFloat * (unit.toFloat / scale.toFloat)).toUInt64.toNat
    let total := whole * unit + part
    if limit < total then none else some total

/-- The characters of a number. -/
def isNumber (c : Char) : Bool := c.isDigit || c = '.'

/-- The sum of numbers with units, added to `sum`. Every round consumes a unit. -/
def terms? : (fuel : Nat) → (sum : Nat) → List Char → Option Nat
  | _, sum, [] => some sum
  | 0, _, _ => none
  | fuel + 1, sum, cs =>
    let whole := cs.takeWhile Char.isDigit
    let rest := cs.dropWhile Char.isDigit
    let (digits, rest) := match rest with
      | '.' :: more => (more.takeWhile Char.isDigit, more.dropWhile Char.isDigit)
      | _ => ([], rest)
    let name := rest.takeWhile (!isNumber ·)
    if (whole.isEmpty && digits.isEmpty) || name.isEmpty then none
    else do
      let w := (Decimal.nat? whole).getD 0
      if limit < w then none
      let v ← amount? w digits (← unit? name)
      if limit < sum + v then none else terms? fuel (sum + v) (rest.dropWhile (!isNumber ·))

/-- Reads a duration. -/
def parse? (s : String) : Option Duration :=
  let (negative, body) := Decimal.sign s.toList
  if body = ['0'] then some ⟨0⟩
  else if body.isEmpty then none
  else match terms? body.length 0 body with
    | none => none
    | some n =>
      if negative then some ⟨-(n : Int)⟩ else if n < limit then some ⟨n⟩ else none

/-! ### Writing -/

/-- A number of thousandths, millionths or so as a decimal without trailing zeros. -/
def decimal (n digits : Nat) : String :=
  let whole := n / Nat.pow 10 digits
  let part := n % Nat.pow 10 digits
  let padded := (List.replicate digits '0' ++ Nat.toDigits 10 part).reverse.take digits
  let shown := (padded.dropWhile (· = '0')).reverse
  toString whole ++ (if shown.isEmpty then "" else "." ++ String.ofList shown)

/-- The written form of a magnitude. -/
def magnitudeText (n : Nat) : String :=
  if n = 0 then "0s"
  else if n < 1000 then toString n ++ "ns"
  else if n < 1000000 then decimal n 3 ++ "µs"
  else if n < 1000000000 then decimal n 6 ++ "ms"
  else
    let minutes := n / 60000000000
    let seconds := decimal (n % 60000000000) 9 ++ "s"
    if minutes = 0 then seconds
    else if minutes < 60 then toString minutes ++ "m" ++ seconds
    else toString (minutes / 60) ++ "h" ++ toString (minutes % 60) ++ "m" ++ seconds

/-- The written form of a duration. -/
def text (d : Duration) : String :=
  (if d.ns < 0 then "-" else "") ++ magnitudeText d.ns.natAbs

/-- The duration rounded to a multiple of `unit`; halves go away from zero. -/
def round (d : Duration) (unit : Nat) : Duration :=
  let n := (d.ns.natAbs + unit / 2) / unit * unit
  ⟨if d.ns < 0 then -(n : Int) else n⟩

end Duration

end Lossless
