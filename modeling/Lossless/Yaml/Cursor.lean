/-!
# Yaml — reading position

A position in a character stream: what is left, and how far it is from the start of the text and of
its line.  The end of the stream reads as NUL, which no document contains.  The size of the whole
text goes along, since no loop over the stream takes more steps.
-/

namespace Lossless.Yaml

/-- A position in a character stream. -/
structure Cursor where
  rest : List Char
  size : Nat
  index : Nat := 0
  line : Nat := 0
  col : Nat := 0

/-- Whether a document may contain the character. -/
def isAllowed (c : Char) : Bool :=
  let n := c.toNat
  n == 0x09 || n == 0x0a || n == 0x0d || (0x20 ≤ n && n ≤ 0x7e) || n == 0x85
    || (0xa0 ≤ n && n ≤ 0xd7ff) || (0xe000 ≤ n && n ≤ 0xfffd) || 0x10000 ≤ n

/-- Blanks within a line. -/
def isBlank (c : Char) : Bool := c = ' ' || c = '\t'

/-- Line breaks. -/
def isBreak (c : Char) : Bool :=
  c = '\r' || c = '\n' || c = '\u0085' || c = '\u2028' || c = '\u2029'

/-- The end of the stream. -/
def isEnd (c : Char) : Bool := c = '\x00'

/-- A line break or the end. -/
def isBreakOrEnd (c : Char) : Bool := isBreak c || isEnd c

/-- A blank, a line break or the end. -/
def isGap (c : Char) : Bool := isBlank c || isBreakOrEnd c

/-- The characters of the names of anchors, of tag handles and of directives. -/
def isWord (c : Char) : Bool := c.isAlphanum || c = '_' || c = '-'

namespace Cursor

/-- The character `n` places ahead. -/
def peek (c : Cursor) (n : Nat) : Char := c.rest.getD n '\x00'

/-- The character at the position. -/
def char (c : Cursor) : Char := c.peek 0

/-- The position after one character; a carriage return and a line feed count as one break. -/
def next (c : Cursor) : Cursor :=
  match c.rest with
  | [] => c
  | '\r' :: '\n' :: rest => ⟨rest, c.size, c.index + 2, c.line + 1, 0⟩
  | ch :: rest =>
    if isBreak ch then ⟨rest, c.size, c.index + 1, c.line + 1, 0⟩
    else ⟨rest, c.size, c.index + 1, c.line, c.col + 1⟩

/-- The characters that the break at the position stands for. -/
def breakText (c : Cursor) : List Char :=
  if c.char = '\u2028' || c.char = '\u2029' then [c.char] else ['\n']

/-- An upper bound of the number of characters left, as fuel for loops. -/
def fuel (c : Cursor) : Nat := c.size + 1

/-- The start of a text. -/
def ofChars (cs : List Char) : Cursor := { rest := cs, size := cs.length }

/-- The position after the characters that satisfy `p`. -/
def skipWhile (p : Char → Bool) : (fuel : Nat) → Cursor → Cursor
  | 0, c => c
  | fuel + 1, c => if p c.char && !isEnd c.char then skipWhile p fuel c.next else c

/-- The characters that satisfy `p`, and the position after them. -/
def takeWhile (p : Char → Bool) : (fuel : Nat) → Cursor → List Char × Cursor
  | 0, c => ([], c)
  | fuel + 1, c =>
    if p c.char && !isEnd c.char then
      let (cs, after) := takeWhile p fuel c.next
      (c.char :: cs, after)
    else ([], c)

/-- The position after the blanks. -/
def skipBlanks (c : Cursor) : Cursor := c.skipWhile isBlank c.fuel

/-- The end of the line. -/
def lineEnd (c : Cursor) : Cursor := c.skipWhile (fun ch => !isBreak ch) c.fuel

/-- The first position whose index is at least `target`. -/
def reach (target : Nat) : (fuel : Nat) → Cursor → Cursor
  | 0, c => c
  | fuel + 1, c => if c.index < target then reach target fuel c.next else c

/-- Whether a document marker of three equal characters stands at the start of a line. -/
def atMarker (c : Cursor) (mark : Char) : Bool :=
  c.col == 0 && c.char == mark && c.peek 1 == mark && c.peek 2 == mark && isGap (c.peek 3)

/-- Whether either document marker stands at the position. -/
def atAnyMarker (c : Cursor) : Bool := c.atMarker '-' || c.atMarker '.'

end Cursor

end Lossless.Yaml
