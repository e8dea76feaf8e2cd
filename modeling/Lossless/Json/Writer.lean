import Lossless.Json.Basic
import Lossless.Text.Quoted

/-!
# Json — writing

Two layouts: `compact` on one line without blanks, and `indented` with two blanks per level.  Both
write the members of an object in the order of their keys.  Inside strings the controls and the line
separators U+2028 and U+2029 are escaped; the indented layout also escapes the characters that mean
something in markup.
-/

namespace Lossless.Json

/-- Which characters a string escapes beyond the obligatory ones. -/
structure StringStyle where
  /-- Escape the angle brackets and the ampersand. -/
  markup : Bool
  /-- Write backspace and form feed with their letters. -/
  letters : Bool

/-- Strings of documents. -/
def StringStyle.document : StringStyle := ⟨false, true⟩

/-- Strings of documents that may be embedded in markup. -/
def StringStyle.embedded : StringStyle := ⟨true, true⟩

/-- Strings of log records. -/
def StringStyle.record : StringStyle := ⟨false, false⟩

/-- The four-digit escape of a character. -/
def unicodeEscape (c : Char) : List Char := '\\' :: 'u' :: Text.hexDigits 4 c.toNat

/-- The characters that write `c` in a string. -/
def escapeChar (style : StringStyle) (c : Char) : List Char :=
  if c = '"' || c = '\\' then ['\\', c]
  else if c = '\n' then ['\\', 'n']
  else if c = '\r' then ['\\', 'r']
  else if c = '\t' then ['\\', 't']
  else if style.letters && c = '\x08' then ['\\', 'b']
  else if style.letters && c = '\x0c' then ['\\', 'f']
  else if c.toNat < 0x20 || c = '\u2028' || c = '\u2029' then unicodeEscape c
  else if style.markup && (c = '<' || c = '>' || c = '&') then unicodeEscape c
  else [c]

/-- A string literal. -/
def strLiteral (style : StringStyle) (s : String) : List Char :=
  '"' :: s.toList.flatMap (escapeChar style) ++ ['"']

/-- Members in the order of their keys. -/
def sortMembers {α : Type} (ms : List (String × α)) : List (String × α) :=
  ms.mergeSort fun a b => decide (a.1 ≤ b.1)

/-- Parts with `sep` between neighbours. -/
def separated (sep : List Char) : List (List Char) → List Char
  | [] => []
  | [p] => p
  | p :: q :: rest => p ++ sep ++ separated sep (q :: rest)

mutual
/-- The characters of a value on one line. -/
def compactChars (style : StringStyle) : Json → List Char
  | .null => "null".toList
  | .bool b => (if b then "true" else "false").toList
  | .number n => n.text.toList
  | .str s => strLiteral style s
  | .arr items => '[' :: separated [','] (compactItems style items) ++ [']']
  | .obj members =>
    '\x7b' :: separated [',']
      ((sortMembers (compactMembers style members)).map fun (k, v) =>
        strLiteral style k ++ ':' :: v) ++ ['\x7d']

@[inherit_doc compactChars]
def compactItems (style : StringStyle) : List Json → List (List Char)
  | [] => []
  | v :: rest => compactChars style v :: compactItems style rest

@[inherit_doc compactChars]
def compactMembers (style : StringStyle) : List (String × Json) → List (String × List Char)
  | [] => []
  | (k, v) :: rest => (k, compactChars style v) :: compactMembers style rest
end

/-- The value on one line. -/
def compact (v : Json) : String := String.ofList (compactChars .document v)

/-- A new line indented by `level` levels. -/
def lineBreak (level : Nat) : List Char := '\n' :: List.replicate (2 * level) ' '

mutual
/-- The characters of a value in the indented layout. -/
def indentedChars (style : StringStyle) (level : Nat) : Json → List Char
  | .arr [] => ['[', ']']
  | .arr (v :: rest) =>
    '[' :: lineBreak (level + 1)
      ++ separated (',' :: lineBreak (level + 1))
        (indentedChars style (level + 1) v :: indentedItems style (level + 1) rest)
      ++ lineBreak level ++ [']']
  | .obj [] => ['\x7b', '\x7d']
  | .obj ((k, v) :: rest) =>
    '\x7b' :: lineBreak (level + 1)
      ++ separated (',' :: lineBreak (level + 1))
        ((sortMembers ((k, indentedChars style (level + 1) v)
            :: indentedMembers style (level + 1) rest)).map fun (k, v) =>
          strLiteral style k ++ ':' :: ' ' :: v)
      ++ lineBreak level ++ ['\x7d']
  | .null => "null".toList
  | .bool b => (if b then "true" else "false").toList
  | .number n => n.text.toList
  | .str s => strLiteral style s

@[inherit_doc indentedChars]
def indentedItems (style : StringStyle) (level : Nat) : List Json → List (List Char)
  | [] => []
  | v :: rest => indentedChars style level v :: indentedItems style level rest

@[inherit_doc indentedChars]
def indentedMembers (style : StringStyle) (level : Nat) :
    List (String × Json) → List (String × List Char)
  | [] => []
  | (k, v) :: rest => (k, indentedChars style level v) :: indentedMembers style level rest
end

/-- The value in the indented layout. -/
def indented (v : Json) : String := String.ofList (indentedChars .embedded 0 v)

end Lossless.Json
