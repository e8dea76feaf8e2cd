import Lossless.Text.Rune

/-!
# Edit — the distance between two texts

The number of single-character insertions, deletions and substitutions that turn one text into
another, computed by one row of the table of distances between initial segments at a time.
-/

namespace Lossless.Edit

/-- The entries of the row for one more character `c` of the source, after its first entry.
`left` is the entry just computed and `row` holds the previous row from the entry diagonally
above. -/
def fillRow (c : Char) : (left : Nat) → (target : List Char) → (row : List Nat) → List Nat
  | left, d :: ds, diagonal :: above :: rest =>
    let entry := min (min (above + 1) (left + 1)) (diagonal + if c = d then 0 else 1)
    entry :: fillRow c entry ds (above :: rest)
  | _, _, _ => []

/-- The row of distances after one more character `c` of the source. -/
def nextRow (target : List Char) (row : List Nat) (c : Char) : List Nat :=
  match row with
  | [] => []
  | first :: _ => (first + 1) :: fillRow c (first + 1) target row

/-- The distances from the source to all initial segments of the target, shortest first. -/
def lastRow (source target : List Char) : List Nat :=
  source.foldl (nextRow target) (List.range (target.length + 1))

/-- The edit distance of two character sequences. The shorter one spans the row. -/
def charDistance (a b : List Char) : Nat :=
  if a.length < b.length then (lastRow b a).getLastD 0 else (lastRow a b).getLastD 0

/-- The edit distance of two texts, counted in characters. -/
def distance (a b : Text) : Nat := charDistance a.chars b.chars

end Lossless.Edit
