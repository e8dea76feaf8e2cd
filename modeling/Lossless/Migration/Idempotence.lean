import Lossless.Edit.Lines
import Lossless.Migration.Basic
import Lossless.Node.Outline
import Lossless.Node.Text

/-!
# Migration — idempotence

A step is idempotent on a tree when a second pass over its own result returns that result: the same
text, and the same object.  The check runs both passes and, when they differ, shows how.
-/

namespace Lossless

/-- What a second pass has to keep. -/
inductive Property where
  | text
  | object
  deriving DecidableEq, Repr

/-- The name of a property. -/
def Property.name : Property → String
  | .text => "text"
  | .object => "object"

/-- A second pass changed the result of the first. The step is empty when it was a pass of the
whole migration. -/
structure NotIdempotent where
  migration : String
  step : String
  property : Property
  diff : Text
  deriving DecidableEq, Repr

/-- The text of the error. -/
def NotIdempotent.message (e : NotIdempotent) : Text :=
  Text.ofString ("migration " ++ e.migration
    ++ (if e.step = "" then "" else " step " ++ e.step)
    ++ ": transform is not idempotent (" ++ e.property.name ++ ")")
    ++ if e.diff = [] then [] else Text.ofString ":\n" ++ e.diff

/-- Why a check did not pass. -/
inductive CheckFailure where
  | step (e : StepFailure)
  | migration (e : MigrationFailure)
  | notIdempotent (e : NotIdempotent)
  deriving DecidableEq, Repr

/-- The text of a failed check. -/
def CheckFailure.message : CheckFailure → Text
  | .step e => e.message
  | .migration e => e.message
  | .notIdempotent e => e.message

/-- How two results that are equal texts but different objects differ: by their outlines, or not at
all. -/
def objectDiff (once twice : Node) : Text :=
  match Edit.lineDiff once.outline twice.outline with
  | [] => "trees are structurally equal but the second pass rebuilt the root " ++ once.kind
  | diff => diff

/-- Compares the results of two passes: first their texts, then their identity. -/
def compareResults (migration step : String) (once twice : Node) : Except NotIdempotent Unit :=
  if once.fullText ≠ twice.fullText then
    .error ⟨migration, step, .text, Edit.lineDiff once.fullText twice.fullText⟩
  else if !once.same twice then .error ⟨migration, step, .object, objectDiff once twice⟩
  else .ok ()

/-- A computation with its errors seen as failures of a check. -/
def checking {ε α : Type} (wrap : ε → CheckFailure) (m : Make ε α) : Make CheckFailure α :=
  fun supply => (m supply).mapError wrap

theorem checking_ok {ε α : Type} {wrap : ε → CheckFailure} {m : Make ε α} {p : α × Supply}
    {s : Supply} (h : m s = .ok p) : checking wrap m s = .ok p := by
  simp only [checking, h]
  rfl

theorem checking_error {ε α : Type} {wrap : ε → CheckFailure} {m : Make ε α} {e : ε}
    {s : Supply} (h : m s = .error e) : checking wrap m s = .error (wrap e) := by
  simp only [checking, h]
  rfl

/-- The comparison of two results as a check. -/
def checkResults (migration step : String) (once twice : Node) : Make CheckFailure Unit :=
  fun supply =>
    ((compareResults migration step once twice).mapError .notIdempotent).map fun _ => ((), supply)

/-- Checks a step of a migration on a tree. -/
def checkStep (migration : String) (s : Step) (tree : Node) : Make CheckFailure Unit := do
  let once ← checking .step (s.apply tree)
  let twice ← checking .step (s.apply once)
  checkResults migration s.name once twice

/-- Checks steps of a migration, each on the same tree. -/
def checkSteps (migration : String) (tree : Node) : List Step → Make CheckFailure Unit
  | [] => pure ()
  | s :: rest => do
    checkStep migration s tree
    checkSteps migration tree rest

/-- Checks a migration on a tree: every step, and then the migration as a whole. -/
def checkMigration (m : Migration) (tree : Node) : Make CheckFailure Unit := do
  checkSteps m.name tree m.steps
  let once ← checking .migration (m.apply tree)
  let twice ← checking .migration (m.apply once)
  checkResults m.name "" once twice

end Lossless
