/-!
# Decimal — the shortest decimal of a binary number

A finite double is `m · 2 ^ q`.  The reals that round to it form an interval around it, whose ends
belong to it when `m` is even.  `shortest` looks for the decimal with the fewest digits in that
interval: for one, two, … digits it tests the two neighbours of the value on that decimal grid, and
takes the nearer one when both are inside.
-/

namespace Lossless.Decimal

/-- A positive rational number. -/
structure Ratio where
  num : Nat
  den : Nat

namespace Ratio

/-- `n · 2 ^ q`. -/
def scaled (n : Nat) (q : Int) : Ratio :=
  if 0 ≤ q then ⟨n * Nat.pow 2 q.toNat, 1⟩ else ⟨n, Nat.pow 2 (-q).toNat⟩

/-- The number divided by `10 ^ p`. -/
def shift (r : Ratio) (p : Int) : Ratio :=
  if 0 ≤ p then ⟨r.num, r.den * Nat.pow 10 p.toNat⟩ else ⟨r.num * Nat.pow 10 (-p).toNat, r.den⟩

/-- The position of the leading decimal digit below one, by search. -/
def smallMagnitude (r : Ratio) : (fuel : Nat) → (j : Nat) → Int
  | 0, j => -(j : Int)
  | fuel + 1, j =>
    if r.den ≤ r.num * Nat.pow 10 j then -(j : Int) else r.smallMagnitude fuel (j + 1)

/-- The exponent `k` with `10 ^ k ≤ r < 10 ^ (k + 1)`. -/
def magnitude (r : Ratio) : Int :=
  if r.den ≤ r.num then ((Nat.toDigits 10 (r.num / r.den)).length : Int) - 1
  else r.smallMagnitude 400 1

end Ratio

/-- A positive decimal `0.d₁d₂… · 10 ^ point`: its digits, and the position of the point. -/
structure Digits where
  digits : List Char
  point : Int
  deriving DecidableEq, Repr

/-- A finite positive double with the interval of reals that round to it. -/
structure Rounding where
  value : Ratio
  low : Ratio
  high : Ratio
  closed : Bool

/-- The rounding interval of `m · 2 ^ q`. Below a power of two the neighbours are nearer, unless
the exponent is the least one. -/
def Rounding.ofBinary (m : Nat) (q : Int) (least : Bool) : Rounding :=
  { value := Ratio.scaled (4 * m) (q - 2)
    low := Ratio.scaled (if m = Nat.pow 2 52 && !least then 4 * m - 1 else 4 * m - 2) (q - 2)
    high := Ratio.scaled (4 * m + 2) (q - 2)
    closed := m % 2 = 0 }

/-- Whether the grid point `n · 10 ^ p` rounds to the value. -/
def Rounding.holds (r : Rounding) (n : Nat) (p : Int) : Bool :=
  let lo := r.low.shift p
  let hi := r.high.shift p
  if r.closed then lo.num ≤ n * lo.den && n * hi.den ≤ hi.num
  else lo.num < n * lo.den && n * hi.den < hi.num

/-- The digits of `n · 10 ^ p`, without trailing zeros. -/
def digitsOf (n : Nat) (p : Int) : Digits :=
  let ds := Nat.toDigits 10 n
  { digits := (ds.reverse.dropWhile (· == '0')).reverse
    point := ds.length + p }

/-- The shortest decimal of a positive double, found with at least `17 - fuel` digits. -/
def Rounding.search (r : Rounding) (k : Int) : (fuel : Nat) → (n : Nat) → Digits
  | 0, n =>
    let p := k - n + 1
    let v := r.value.shift p
    digitsOf (v.num / v.den) p
  | fuel + 1, n =>
    let p := k - n + 1
    let v := r.value.shift p
    let below := v.num / v.den
    let fitsBelow := r.holds below p
    let fitsAbove := r.holds (below + 1) p
    if fitsBelow && fitsAbove then
      -- the nearer of the two grid points, the even one at equal distance
      let twice := 2 * (v.num % v.den)
      if twice < v.den || (twice = v.den && below % 2 = 0) then digitsOf below p
      else digitsOf (below + 1) p
    else if fitsBelow then digitsOf below p
    else if fitsAbove then digitsOf (below + 1) p
    else r.search k fuel (n + 1)

/-- A double by its parts. -/
inductive Binary where
  | nan
  | infinite (negative : Bool)
  | finite (negative : Bool) (mantissa : Nat) (exponent : Int) (least : Bool)

/-- The parts of a double. -/
def Binary.ofFloat (x : Float) : Binary :=
  let bits := x.toBits.toNat
  let negative := bits / Nat.pow 2 63 = 1
  let e : Nat := bits / Nat.pow 2 52 % Nat.pow 2 11
  let f : Nat := bits % Nat.pow 2 52
  if e = 2047 then (if f = 0 then .infinite negative else .nan)
  else if e = 0 then .finite negative f (-1074) true
  else .finite negative (f + Nat.pow 2 52) (Int.ofNat e - 1075) (e = 1)

/-- The shortest decimal of `m · 2 ^ q`; zero has the single digit zero. -/
def shortest (m : Nat) (q : Int) (least : Bool) : Digits :=
  if m = 0 then ⟨['0'], 1⟩
  else
    let r := Rounding.ofBinary m q least
    r.search r.value.magnitude 17 1

end Lossless.Decimal
