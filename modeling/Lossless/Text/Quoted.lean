import Lossless.Text.Printable
import Lossless.Text.Rune

/-!
# Text — quoted form

The quoted form of a text is ASCII quotes around its characters.  Printable characters stand for
themselves, a quote and a backslash are preceded by a backslash, seven control characters have a
letter, and all else is given by its number: two hexadecimal digits for a stray byte or an ASCII
character, four or eight for any other character.
-/

namespace Lossless.Text

/-- The lower-case hexadecimal digit of `n % 16`. -/
def hexDigit (n : Nat) : Char := Nat.digitChar (n % 16)

/-- The last `width` hexadecimal digits of `n`, most significant first. -/
def hexDigits : (width : Nat) → (n : Nat) → List Char
  | 0, _ => []
  | w + 1, n => hexDigits w (n / 16) ++ [hexDigit n]

/-- The letter that follows the backslash for the control characters that have one. -/
def escapeLetter? (c : Char) : Option Char :=
  match c.toNat with
  | 7 => some 'a'
  | 8 => some 'b'
  | 9 => some 't'
  | 10 => some 'n'
  | 11 => some 'v'
  | 12 => some 'f'
  | 13 => some 'r'
  | _ => none

/-- The characters that write `c` between quotes. -/
def quoteChar (c : Char) : List Char :=
  if c = '"' || c = '\\' then ['\\', c]
  else if isPrintable c then [c]
  else match escapeLetter? c with
    | some l => ['\\', l]
    | none =>
      if c.toNat < 0x80 then '\\' :: 'x' :: hexDigits 2 c.toNat
      else if c.toNat < 0x10000 then '\\' :: 'u' :: hexDigits 4 c.toNat
      else '\\' :: 'U' :: hexDigits 8 c.toNat

/-- The characters that write a piece of text between quotes. -/
def quotePiece : Piece → List Char
  | .char c => quoteChar c
  | .stray b => '\\' :: 'x' :: hexDigits 2 b.toNat

/-- The quoted form of a text. -/
def quote (t : Text) : String :=
  String.ofList ('"' :: t.pieces.flatMap quotePiece ++ ['"'])

/-- A character between single quotes. -/
def quoteSingle (c : Char) : String :=
  let body := if c = '"' then ['"'] else if c.toNat = 39 then ['\\', c] else quoteChar c
  String.ofList ([Char.ofNat 39] ++ body ++ [Char.ofNat 39])

/-- The quoted form of a string. -/
def quoteString (s : String) : String :=
  String.ofList ('"' :: s.toList.flatMap quoteChar ++ ['"'])

end Lossless.Text
