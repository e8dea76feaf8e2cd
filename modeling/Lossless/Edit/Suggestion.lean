import Lossless.Edit.Distance

/-!
# Edit — suggestions for a misspelt name

The candidate nearest to a name, when it is near enough: at most a third of the name's length away,
or one edit for short names.  Of equally near candidates the least in byte order is taken.
-/

namespace Lossless.Edit

/-- How far a suggestion may be from the name. -/
def suggestionLimit (name : Text) : Nat := max (name.chars.length / 3) 1

/-- Byte order of texts. -/
def textLe (a b : Text) : Bool := decide (a ≤ b)

/-- Keeps the candidate that is strictly nearer than the best so far. -/
def nearer (name : Text) (best : Text × Nat) (candidate : Text) : Text × Nat :=
  let d := distance name candidate
  if d < best.2 then (candidate, d) else best

/-- The suggestion for `name` among `candidates`; the empty candidate is never suggested. -/
def suggest (name : Text) (candidates : List Text) : Option Text :=
  let best := (candidates.mergeSort textLe).foldl (nearer name) ([], suggestionLimit name + 1)
  if best.1.isEmpty then none else some best.1

/-- The suggestion for a name among names. -/
def suggestName (name : String) (candidates : List String) : Option String :=
  (suggest name (candidates.map Text.ofString)).map Text.toStr

end Lossless.Edit
