import Lossless.Text.Blank
import Lossless.Text.Case
import Lossless.Text.Escape

/-!
# Command — grids

Rows of cells drawn with lines between the columns.  A column is as wide as its widest line, heads
and foots are in upper case, and the columns that hold nothing but numbers are aligned to the right.
-/

namespace Lossless

/-- A cell of a row. -/
inductive Cell where
  | text (s : String)
  | number (n : Int)
  deriving DecidableEq, Repr

/-- A table to be drawn. Rows may be shorter than the head. -/
structure Grid where
  title : String := ""
  head : List String
  rows : List (List Cell)
  foot : List String := []

namespace Cell

/-- The characters with four blanks for every tab. -/
def expandTabs (cs : List Char) : List Char :=
  cs.flatMap fun c => if c = '\t' then [' ', ' ', ' ', ' '] else [c]

/-- What a line shows when every carriage return leads back to its start, where what follows
overwrites what stands there. `done` is what stands in front, reversed. -/
def overwrite : (done ahead : List Char) → List Char → List Char
  | done, ahead, [] => done.reverse ++ ahead
  | done, ahead, c :: rest =>
    if c = '\r' then overwrite [] (done.reverse ++ ahead) rest
    else overwrite (c :: done) (ahead.drop 1) rest

/-- The lines of characters; a carriage return in front of the end of a line is part of the end. -/
def splitLines (cs : List Char) : List (List Char) :=
  let parts := cs.splitOn '\n'
  parts.zipIdx.map fun (line, i) =>
    let cut := i + 1 < parts.length && line.getLast? = some '\r'
    overwrite [] [] (if cut then line.dropLast else line)

/-- The characters of a text as a cell shows them. -/
def shown (s : String) : List Char := List.intercalate ['\n'] (splitLines (expandTabs s.toList))

/-- The lines of a text. -/
def linesOf (s : String) : List String := ((shown s).splitOn '\n').map String.ofList

/-- The text of a cell. -/
def toText : Cell → String
  | .text s => s
  | .number n => toString n

/-- The lines of a cell. -/
def lines (c : Cell) : List String := linesOf c.toText

/-- Whether a cell is a number. -/
def isNumber : Cell → Bool
  | .text _ => false
  | .number _ => true

end Cell

namespace Grid

/-- The number of columns. -/
def width (g : Grid) : Nat :=
  ((g.head.length :: g.foot.length :: g.rows.map List.length).max?).getD 0

/-- The cells of a column, without head and foot. -/
def column (g : Grid) (i : Nat) : List Cell := g.rows.filterMap (·[i]?)

/-- Whether a column is aligned to the right. -/
def isNumeric (g : Grid) (i : Nat) : Bool := (g.column i).all Cell.isNumber

/-- The number of terminal columns of a column. -/
def columnWidth (g : Grid) (i : Nat) : Nat :=
  let all := [g.head, g.foot].filterMap (·[i]?) ++ (g.column i).map Cell.toText
  ((all.map (Text.longestLine ∘ Cell.shown)).max?).getD 0

/-- A line filled up with blanks to a width. -/
def pad (right : Bool) (width : Nat) (s : String) : String :=
  let blanks := String.ofList (List.replicate (width - Text.visibleColumns s.toList) ' ')
  if right then blanks ++ s else s ++ blanks

/-- Copies of a character. -/
def copies (c : Char) (n : Nat) : String := String.ofList (List.replicate n c)

/-- A horizontal line. -/
def rule (g : Grid) (left middle right : String) : String :=
  left ++ middle.intercalate ((List.range g.width).map fun i => copies '─' (g.columnWidth i + 2))
    ++ right

/-- A row of cells, each given by its lines. -/
def row (g : Grid) (cells : List (List String)) : List String :=
  let height := ((cells.map List.length).max?).getD 1
  (List.range height).map fun l =>
    "│" ++ "│".intercalate ((List.range g.width).map fun i =>
      let line := ((cells[i]?).bind (·[l]?)).getD ""
      " " ++ pad (g.isNumeric i) (g.columnWidth i) line ++ " ") ++ "│"

/-- The terminal columns between the outer lines. -/
def innerWidth (g : Grid) : Nat :=
  ((List.range g.width).map fun i => g.columnWidth i + 3).foldr (· + ·) 0 - 1

/-- The lines of the title, in a box over the whole width. -/
def titleLines (g : Grid) : List String :=
  let n := g.innerWidth - 2
  let parts := (g.title.toList.splitOn '\n').flatMap fun line =>
    if n = 0 then [[]] else Text.wrapLine n (Cell.expandTabs line)
  ("┌" ++ copies '─' g.innerWidth ++ "┐") :: parts.map fun part =>
    "│ " ++ pad false n (String.ofList (Text.trimChars part)) ++ " │"

/-- The lines of a grid. -/
def lines (g : Grid) : List String :=
  let separator := g.rule "├" "┼" "┤"
  let top := if g.title = "" then [g.rule "┌" "┬" "┐"] else g.titleLines ++ [g.rule "├" "┬" "┤"]
  let foot := if g.foot.isEmpty then []
    else separator :: g.row (g.foot.map (Cell.linesOf ∘ Text.upper))
  top ++ g.row (g.head.map (Cell.linesOf ∘ Text.upper)) ++ [separator]
    ++ g.rows.flatMap (fun r => g.row (r.map Cell.lines)) ++ foot ++ [g.rule "└" "┴" "┘"]

/-- A grid drawn in lines, without a newline at the end. -/
def render (g : Grid) : String := "\n".intercalate g.lines

end Grid

end Lossless
