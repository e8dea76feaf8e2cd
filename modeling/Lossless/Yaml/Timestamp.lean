/-!
# Yaml — points in time

A plain scalar may be a date, or a date and a time of day.  The year has four digits and the other
numbers have one or two; the time of day may have a fraction and, if a letter separates it from the
date, needs a time zone.
-/

namespace Lossless.Yaml.Timestamp

/-- The value of decimal digits. -/
def number (ds : List Char) : Nat := ds.foldl (fun n d => 10 * n + (d.toNat - '0'.toNat)) 0

/-- A number of one or two digits, and what follows it. -/
def short? (cs : List Char) : Option (Nat × List Char) :=
  let ds := (cs.take 2).takeWhile Char.isDigit
  if ds.isEmpty then none else some (number ds, cs.drop ds.length)

/-- What follows the character `c`. -/
def after? (c : Char) : List Char → Option (List Char)
  | d :: rest => if d = c then some rest else none
  | [] => none

/-- Whether a year has a 29th of February. -/
def isLeap (year : Nat) : Bool := year % 4 = 0 && (year % 100 ≠ 0 || year % 400 = 0)

/-- The number of days of a month. -/
def daysIn (year month : Nat) : Nat :=
  if month = 2 then (if isLeap year then 29 else 28)
  else if [4, 6, 9, 11].contains month then 30
  else 31

/-- What follows a date: a year of exactly four digits, a month and a day of it. -/
def afterDate? (cs : List Char) : Option (List Char) := do
  let ys := cs.takeWhile Char.isDigit
  if ys.length ≠ 4 then none
  else
    let year := number ys
    let (month, rest) ← short? (← after? '-' (cs.drop 4))
    let (day, rest) ← short? (← after? '-' rest)
    if 1 ≤ month && month ≤ 12 && 1 ≤ day && day ≤ daysIn year month then some rest else none

/-- What follows a time of day: hour, minute and second, and maybe a fraction. -/
def afterClock? (cs : List Char) : Option (List Char) := do
  let (hour, rest) ← short? cs
  let (minute, rest) ← short? (← after? ':' rest)
  let (second, rest) ← short? (← after? ':' rest)
  if 24 ≤ hour || 60 ≤ minute || 60 ≤ second then none
  else match rest with
    | mark :: d :: more =>
      if (mark = '.' || mark = ',') && d.isDigit then some (more.dropWhile Char.isDigit)
      else some rest
    | _ => some rest

/-- Whether the characters are a time zone: the letter for the zero meridian, or hours and minutes
from it. -/
def isZone : List Char → Bool
  | ['Z'] => true
  | [sign, a, b, ':', c, d] =>
    (sign = '+' || sign = '-') && [a, b, c, d].all Char.isDigit
      && number [a, b] ≤ 24 && number [c, d] ≤ 60
  | _ => false

/-- Whether the characters are a point in time. -/
def accepts (cs : List Char) : Bool :=
  match afterDate? cs with
  | none => false
  | some [] => true
  | some (c :: rest) =>
    if c = 'T' || c = 't' then ((afterClock? rest).map isZone).getD false
    else if c = ' ' then afterClock? (rest.dropWhile (· = ' ')) = some []
    else false

end Lossless.Yaml.Timestamp
