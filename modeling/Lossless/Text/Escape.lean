import Lossless.Text.Blank
import Lossless.Text.Width

/-!
# Text — escape sequences

An escape sequence tells a terminal how to show the text behind it, and takes no columns.  It starts
with the escape character; a bracket behind it tells its kind, and the kind tells the character that
ends it.
-/

namespace Lossless.Text

/-- The character that starts an escape sequence. -/
def escapeChar : Char := '\x1b'

/-- Where a character stands with regard to escape sequences. -/
inductive Escape where
  /-- Outside of any. -/
  | outside
  /-- Inside one whose kind is not known yet. -/
  | started
  /-- Inside one that ends with `m`. -/
  | control
  /-- Inside one that ends with a backslash. -/
  | system
  deriving DecidableEq, Repr

namespace Escape

/-- Where the next character stands. -/
def next : Escape → Char → Escape
  | .outside, c => if c = escapeChar then .started else .outside
  | .started, c => if c = '[' then .control else if c = ']' then .system else .started
  | .control, c => if c = 'm' then .outside else .control
  | .system, c => if c = '\\' then .outside else .system

/-- The number of columns that a character takes. -/
def columnsOf (e : Escape) (c : Char) : Nat :=
  if e = .outside && c ≠ escapeChar then Text.columnsOf c else 0

end Escape

/-- The number of columns of characters, without escape sequences. -/
def visibleFrom (e : Escape) : List Char → Nat
  | [] => 0
  | c :: rest => e.columnsOf c + visibleFrom (e.next c) rest

/-- The number of columns of a text, without escape sequences. -/
def visibleColumns (cs : List Char) : Nat := visibleFrom .outside cs

/-- The number of columns of the longest line of characters, where the line so far has `n`. A
sequence goes on over the ends of lines. -/
def longestFrom (e : Escape) (n : Nat) : List Char → Nat
  | [] => n
  | c :: rest =>
    if c = '\n' then max n (longestFrom (e.next c) 0 rest)
    else longestFrom (e.next c) (n + e.columnsOf c) rest

/-- The number of columns of the longest line of a text, without escape sequences. -/
def longestLine (cs : List Char) : Nat := longestFrom .outside 0 cs

/-! ### Sequences that are left open -/

/-- The sequence that ends what others started. -/
def resetSequence : List Char := [escapeChar, '[', '0', 'm']

/-- The last sequence of a text, as far as it goes; `seen` is what was read of it, reversed. Nothing
when it ends what others started. -/
def openSequence (inside : Bool) (seen : List Char) : List Char → List Char
  | [] => if seen.reverse = resetSequence then [] else seen.reverse
  | c :: rest =>
    if c = escapeChar then openSequence true [c] rest
    else openSequence (inside && c ≠ 'm') (if inside then c :: seen else seen) rest

/-! ### Lines of limited width -/

/-- A text in the making: what was written, reversed, and the columns of its last line. -/
structure Wrapped where
  written : List Char := []
  columns : Nat := 0

namespace Wrapped

/-- Writes characters. -/
def put (w : Wrapped) (cs : List Char) (columns : Nat) : Wrapped :=
  ⟨cs.reverse ++ w.written, w.columns + columns⟩

/-- Starts a new line. An open sequence ends with the line and starts again in the next one. -/
def newLine (w : Wrapped) (sequence : List Char) : Wrapped :=
  let close := if sequence.isEmpty then [] else resetSequence
  ⟨(close ++ '\n' :: sequence).reverse ++ w.written, 0⟩

/-- Writes a word character by character, with a new line wherever a line is exactly full. -/
def putWord (limit : Nat) (w : Wrapped) (inside : Bool) (sequence : List Char) :
    List Char → Wrapped
  | [] => w
  | c :: rest =>
    let inside := inside || c = escapeChar
    let sequence := if c = escapeChar then [c] else if inside then sequence ++ [c] else sequence
    let w := if w.columns = limit && !inside then w.newLine sequence else w
    let w := w.put [c] (if inside then 0 else Text.columnsOf c)
    putWord limit w (inside && c ≠ 'm') (if sequence = resetSequence then [] else sequence) rest

/-- Writes words with single blanks between them. `sequence` is the one left open by the words so
far. -/
def putWords (limit : Nat) (w : Wrapped) (sequence : List Char) : List (List Char) → List Char
  | [] =>
    if sequence.isEmpty || resetSequence.reverse.isPrefixOf w.written then w.written.reverse
    else w.written.reverse ++ resetSequence
  | word :: rest =>
    let left := openSequence false [] word
    let sequence := if left.isEmpty then sequence else left
    let w := if w.columns = 0 then w else w.put [' '] 1
    let n := visibleColumns word
    let w := if w.columns + n ≤ limit then w.put word n else putWord limit w false sequence word
    let w := if w.columns = limit && !rest.isEmpty then w.newLine sequence else w
    putWords limit w sequence rest

end Wrapped

/-- The lines of a line: the line itself when it has at most `limit` columns, otherwise its words in
lines that are broken where they are exactly full. -/
def wrapLine (limit : Nat) (line : List Char) : List (List Char) :=
  if visibleColumns line ≤ limit then [line]
  else (Wrapped.putWords limit {} [] (words line)).splitOn '\n'

end Lossless.Text
