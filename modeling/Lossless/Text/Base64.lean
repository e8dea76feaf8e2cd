import Lossless.Text.Basic

/-!
# Text — base 64

Bytes written as letters: four letters of an alphabet of sixty-four stand for three bytes, and
padding fills up the last four.  Line breaks between the letters mean nothing.
-/

namespace Lossless.Text.Base64

/-- The six bits that a letter stands for. -/
def value? (c : Char) : Option Nat :=
  if c.isUpper then some (c.toNat - 'A'.toNat)
  else if c.isLower then some (c.toNat - 'a'.toNat + 26)
  else if c.isDigit then some (c.toNat - '0'.toNat + 52)
  else if c = '+' then some 62
  else if c = '/' then some 63
  else none

/-- The first bytes of the 24 bits of four letters; a missing letter counts as zero. -/
def bytes (n : Nat) (a b c d : Nat) : Text :=
  let bits := ((a * 64 + b) * 64 + c) * 64 + d
  [UInt8.ofNat (bits / 0x10000), UInt8.ofNat (bits / 0x100), UInt8.ofNat bits].take n

/-- The bytes of letters without line breaks. -/
def groups? : List Char → Option Text
  | [] => some []
  | a :: b :: c :: d :: rest =>
    match value? a, value? b with
    | some a, some b =>
      if c = '=' && d = '=' && rest.isEmpty then some (bytes 1 a b 0 0)
      else match value? c with
        | none => none
        | some c =>
          if d = '=' && rest.isEmpty then some (bytes 2 a b c 0)
          else match value? d, groups? rest with
            | some d, some more => some (bytes 3 a b c d ++ more)
            | _, _ => none
    | _, _ => none
  | _ => none

/-- The bytes that a text in base 64 stands for. -/
def decode? (cs : List Char) : Option Text :=
  groups? (cs.filter fun c => !(c = '\r' || c = '\n'))

end Lossless.Text.Base64
