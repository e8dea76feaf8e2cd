import Lossless.Text.Basic

/-!
# Text — lines

A line ends with its newline; a last line without one counts as well.  `Text.lines` keeps the
terminators, so that the lines of a text concatenate to it (`flatten_lines`).
-/

namespace Lossless.Text

/-- The newline byte. -/
def newline : UInt8 := 10

/-- The lines of a text, each with its terminator. -/
def lines : Text → List Text
  | [] => []
  | b :: rest =>
    if b = newline then [b] :: lines rest
    else match lines rest with
      | [] => [[b]]
      | l :: ls => (b :: l) :: ls

theorem flatten_lines : ∀ t : Text, t.lines.flatten = t
  | [] => rfl
  | b :: rest => by
    have ih := flatten_lines rest
    rw [lines]
    split
    · simp [ih]
    · split <;> rename_i h <;> simp_all

/-- The number of lines: newlines, and one more for an unterminated last line. -/
def countLines (t : Text) : Nat :=
  match t.getLast? with
  | none => 0
  | some b => t.count newline + if b = newline then 0 else 1

/-- A line without its terminator. -/
def dropNewline (line : Text) : Text := (dropTail? [newline] line).getD line

/-- How many bytes are examined to tell binary data from text. -/
def sniffLength : Nat := 8000

/-- Data is binary when a zero byte occurs among its first `sniffLength` bytes. -/
def isBinary (t : Text) : Bool := (t.take sniffLength).contains 0

end Lossless.Text
