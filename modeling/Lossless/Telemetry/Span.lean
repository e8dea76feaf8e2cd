import Lossless.Telemetry.Attribute

/-!
# Telemetry — spans

A span is a piece of work with a name, attributes, the errors recorded on it and a status.
-/

namespace Lossless.Telemetry

/-- How a span ended. -/
inductive Status where
  | unset
  | ok
  | error (description : String)
  deriving DecidableEq, Repr

/-- The name of a status. -/
def Status.name : Status → String
  | .unset => "Unset"
  | .ok => "Ok"
  | .error _ => "Error"

/-- The text that goes with a status. -/
def Status.description : Status → String
  | .error d => d
  | _ => ""

/-- An ended span. -/
structure Span where
  name : String
  attrs : List Attribute := []
  /-- The texts of the errors recorded on the span. -/
  errors : List Text := []
  status : Status := .unset
  /-- The name of the span it is part of; empty for none. -/
  parent : String := ""
  deriving DecidableEq, Repr

namespace Span

/-- The name of the span of a migration of one file. -/
def migrate : String := "codemod.migrate"

/-- The name of the span of one step. -/
def step : String := "codemod.migrate.step"

/-- The keys of the attributes that spans are exported with. -/
def exportedKeys : List String :=
  ["migration.name", "migration.changed", "step.name", "file.path", "catalog.language",
    "rewrite.visited", "rewrite.rebuilt", "rewrite.replaced", "error.type"]

end Span

end Lossless.Telemetry
