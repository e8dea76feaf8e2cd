import Lossless.Catalog.Basic

/-!
# Telemetry — metrics

What the runs of migrations add up to: measurements of an instrument are summed up for every set of
labels.
-/

namespace Lossless.Telemetry

/-- An instrument that measures runs. -/
inductive Instrument where
  | runs
  | duration
  | visited
  | rebuilt
  | errors
  deriving DecidableEq, Repr

namespace Instrument

/-- The name of an instrument. -/
def name : Instrument → String
  | .runs => "codemod.migrate.runs.total"
  | .duration => "codemod.migrate.duration.seconds"
  | .visited => "codemod.rewrite.nodes.visited"
  | .rebuilt => "codemod.rewrite.nodes.rebuilt"
  | .errors => "codemod.migrate.errors.total"

end Instrument

/-- A measurement: an amount, under labels in ascending order of their names. Of durations only
their number is kept, so that each has the amount one. -/
structure Measurement where
  instrument : Instrument
  labels : List (String × String)
  amount : Int64
  deriving DecidableEq, Repr

/-- How a run ended. -/
inductive RunStatus where
  | changed
  | unchanged
  | error
  deriving DecidableEq, Repr

/-- The name of a status. -/
def RunStatus.name : RunStatus → String
  | .changed => "changed"
  | .unchanged => "unchanged"
  | .error => "error"

/-- The measurements of one run of a migration. -/
def measureRun (migration : String) (status : RunStatus) : List Measurement :=
  let labels := [("migration", migration), ("status", status.name)]
  [⟨.runs, labels, 1⟩, ⟨.duration, labels, 1⟩]
    ++ if status = .error then [⟨.errors, [("migration", migration)], 1⟩] else []

/-- The measurements of one pass of a step. -/
def measureStep (migration step : String) (visited rebuilt : Int64) : List Measurement :=
  let labels := [("migration", migration), ("step", step)]
  [⟨.visited, labels, visited⟩, ⟨.rebuilt, labels, rebuilt⟩]

/-- The integer of 53 significant bits that is nearest to `n`, an even one in the middle of two. -/
def nearestWhole (n : Int) : Int :=
  let unit := Nat.pow 2 (n.natAbs.log2 - 52)
  let q := n.natAbs / unit
  let r := n.natAbs % unit
  let up := unit < 2 * r || (2 * r = unit && q % 2 = 1)
  n.sign * ((if up then q + 1 else q) * unit : Nat)

/-- The total of an instrument under some labels. The amounts are summed up as words, which wrap
around, and the sum is read off with 53 significant bits. -/
def total (ms : List Measurement) (i : Instrument) (labels : List (String × String)) : Int64 :=
  let amounts := (ms.filter fun m => m.instrument = i && m.labels = labels).map (·.amount)
  .ofInt (nearestWhole (amounts.foldr (· + ·) 0).toInt)

/-- The instruments and labels that were measured, each once. -/
def series (ms : List Measurement) : List (Instrument × List (String × String)) :=
  (ms.map fun m => (m.instrument, m.labels)).eraseDups

end Lossless.Telemetry
