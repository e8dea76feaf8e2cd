import Lossless.Text.Rune
import Lossless.Yaml.Cursor

/-!
# Yaml — encodings

A document is written in UTF-8 or, if it starts with a byte order mark that says so, in one of the
two forms of UTF-16.  The mark itself is no part of the document.
-/

namespace Lossless.Yaml

/-- The 16-bit units of a byte string in which the high byte stands first; none when a byte is left
over. -/
def units? : Text → Option (List Nat)
  | [] => some []
  | high :: low :: rest => (units? rest).map ((high.toNat * 0x100 + low.toNat) :: ·)
  | [_] => none

/-- The bytes with the two of every pair swapped. -/
def swapPairs : Text → Text
  | a :: b :: rest => b :: a :: swapPairs rest
  | rest => rest

/-- The characters of 16-bit units; none when a surrogate has no partner. -/
def ofUnits? : List Nat → Option (List Char)
  | [] => some []
  | high :: low :: rest =>
    if 0xd800 ≤ high && high < 0xdc00 && 0xdc00 ≤ low && low < 0xe000 then
      let code := 0x10000 + (high - 0xd800) * 0x400 + (low - 0xdc00)
      (ofUnits? rest).map (Char.ofNat code :: ·)
    else if 0xd800 ≤ high && high < 0xe000 then none
    else (ofUnits? (low :: rest)).map (Char.ofNat high :: ·)
  | [unit] => if 0xd800 ≤ unit && unit < 0xe000 then none else some [Char.ofNat unit]

/-- The characters of a document; none when the bytes are no text or hold a character that no
document may contain. -/
def decode? (t : Text) : Option (List Char) :=
  let chars := match t with
    | 0xff :: 0xfe :: rest => (units? (swapPairs rest)).bind ofUnits?
    | 0xfe :: 0xff :: rest => (units? rest).bind ofUnits?
    | 0xef :: 0xbb :: 0xbf :: rest => (Text.toString? rest).map String.toList
    | _ => t.toString?.map String.toList
  chars.filter (·.all isAllowed)

end Lossless.Yaml
