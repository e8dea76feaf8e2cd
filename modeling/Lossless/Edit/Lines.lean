import Lossless.Edit.Script
import Lossless.Text.Lines

/-!
# Edit — line diffs

The difference of two texts as a list of marked lines: `-` removed, `+` added, a blank for context.
Unchanged lines are shown within `context` lines of a change, and a run of hidden lines is shown as
one elision mark.
-/

namespace Lossless.Edit

/-- The script between two texts, line by line. -/
def lineScript (before after : Text) : Script Text := Script.between before.lines after.lines

/-- The number of unchanged lines shown on either side of a change. -/
def context : Nat := 2

/-- What stands for a run of hidden lines. -/
def elision : Text := "@@ ... @@\n"

/-- The lines, each behind its mark and with its own newline. -/
def markLines (mark : Text) (lines : List Text) : Text :=
  lines.flatMap fun line => mark ++ line.dropNewline ++ [Text.newline]

/-- An unchanged chunk: its first `head` and last `tail` lines, the others elided. -/
def markContext (head tail : Nat) (lines : List Text) : Text :=
  if lines.length ≤ head + tail then markLines " " lines
  else markLines " " (lines.take head) ++ elision
    ++ markLines " " (lines.drop (lines.length - tail))

/-- The text of a script. `first` says that no chunk precedes the list. -/
def renderScript (first : Bool) : Script Text → Text
  | [] => []
  | c :: rest =>
    let shown := match c.change with
      | .delete => markLines "-" c.items
      | .insert => markLines "+" c.items
      | .keep => markContext (if first then 0 else context) (if rest.isEmpty then 0 else context)
          c.items
    shown ++ renderScript false rest

/-- The line diff of two texts, empty for equal texts. -/
def lineDiff (before after : Text) : Text :=
  if before = after then [] else renderScript true (lineScript before after)

/-- The number of lines of a script's chunks of one kind. -/
def countChange (change : Change) (s : Script Text) : Nat :=
  (s.map fun c => if c.change = change then Text.countLines c.items.flatten else 0).foldr (· + ·) 0

/-- The number of lines added and removed between two texts. -/
def diffStats (before after : Text) : Nat × Nat :=
  if before = after then (0, 0)
  else
    let s := lineScript before after
    (countChange .insert s, countChange .delete s)

end Lossless.Edit
