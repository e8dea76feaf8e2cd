import Lossless.Pass.Basic

/-!
# Migration — named sequences of steps

A step is a named transform, applied to a whole tree in one pass.  A migration is a non-empty
sequence of steps; applying it threads the tree through them, each exactly once.
-/

namespace Lossless

/-- A named transform. -/
structure Step where
  name : String
  transform : PureTransform

/-- A named, non-empty sequence of steps. -/
structure Migration where
  name : String
  description : String
  steps : List Step
  steps_ne_nil : steps ≠ []

/-- A migration was described without steps. -/
structure NoSteps where
  migration : String
  deriving DecidableEq, Repr

/-- The text of the error. -/
def NoSteps.message (e : NoSteps) : String := "migration has no steps: " ++ e.migration

/-- The migration with the given steps. -/
def Migration.make (name description : String) (steps : List Step) : Except NoSteps Migration :=
  if h : steps = [] then .error ⟨name⟩ else .ok ⟨name, description, steps, h⟩

/-- The failure of a step. -/
structure StepFailure where
  step : String
  cause : Failure
  deriving DecidableEq, Repr

/-- The text of the failure. -/
def StepFailure.message (e : StepFailure) : String := "step " ++ e.step ++ ": " ++ e.cause.message

/-- The failure of a migration. -/
structure MigrationFailure where
  migration : String
  cause : StepFailure
  deriving DecidableEq, Repr

/-- The text of the failure. -/
def MigrationFailure.message (e : MigrationFailure) : String :=
  "migration " ++ e.migration ++ ": " ++ e.cause.message

/-- What a step makes of a tree, and what the pass did. -/
structure StepOutcome where
  result : Except StepFailure Node
  stats : Stats
  supply : Supply

/-- Applies a step to a whole tree and reports what the pass did. -/
def Step.applyWithStats (s : Step) (root : Node) (supply : Supply) : StepOutcome :=
  let o := Pass.withStats root s.transform supply
  { result := o.result.mapError fun e => ⟨s.name, e⟩, stats := o.stats, supply := o.supply }

/-- Applies a step to a whole tree. -/
def Step.apply (s : Step) (root : Node) : Make StepFailure Node := fun supply =>
  let o := s.applyWithStats root supply
  o.result.map fun n => (n, o.supply)

/-- Applies steps in order, each to the result of the one before. -/
def applySteps : List Step → Node → Make StepFailure Node
  | [], root => pure root
  | s :: rest, root => do applySteps rest (← s.apply root)

/-- Applies a migration to a whole tree. -/
def Migration.apply (m : Migration) (root : Node) : Make MigrationFailure Node := fun supply =>
  (applySteps m.steps root supply).mapError fun e => ⟨m.name, e⟩

end Lossless
