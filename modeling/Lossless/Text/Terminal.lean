import Lossless.Text.Rune

/-!
# Text — names on a terminal

A name that the user supplied is echoed without markup and without control characters: the
characters that mean something in markup become references, line breaks and tabs become blanks,
and every other control character is dropped.
-/

namespace Lossless.Text

/-- The reference that stands for a character of markup. -/
def markupReference? (c : Char) : Option String :=
  match c with
  | '&' => some "&amp;"
  | '\'' => some "&#39;"
  | '<' => some "&lt;"
  | '>' => some "&gt;"
  | '"' => some "&#34;"
  | _ => none

/-- Whether a character is a control character. -/
def isControl (c : Char) : Bool := c.toNat < 0x20 || (0x7f ≤ c.toNat && c.toNat < 0xa0)

/-- The characters that show `c` on a terminal. -/
def echoChar (c : Char) : List Char :=
  match markupReference? c with
  | some r => r.toList
  | none =>
    if c = '\n' || c = '\r' || c = '\t' then [' ']
    else if isControl c then []
    else [c]

/-- The form in which a user-supplied name is echoed. -/
def echo (t : Text) : Text := ofChars (t.chars.flatMap echoChar)

end Lossless.Text
