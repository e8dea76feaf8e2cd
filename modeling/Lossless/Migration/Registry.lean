import Lossless.Edit.Suggestion
import Lossless.Migration.Builtin

/-!
# Migration — the registry

Migrations found by name.  A name that is not registered is answered with the nearest one that is.
-/

namespace Lossless

/-- Migrations with distinct names, in the order of registration. -/
structure MigrationRegistry where
  entries : List Migration := []

/-- What can be wrong with a name given to a registry. -/
inductive RegistryError where
  | duplicate (name : String)
  | unknown (name : String) (hint : Option String)
  deriving DecidableEq, Repr

/-- The text of the error. -/
def RegistryError.message : RegistryError → String
  | .duplicate name => "migration already registered: " ++ name
  | .unknown name none => "unknown migration: " ++ name
  | .unknown name (some hint) => "unknown migration: " ++ name ++ " (did you mean " ++ hint ++ "?)"

namespace MigrationRegistry

/-- The migration of a name. -/
def get? (r : MigrationRegistry) (name : String) : Option Migration :=
  r.entries.find? (·.name = name)

/-- Adds a migration. -/
def register (r : MigrationRegistry) (m : Migration) : Except RegistryError MigrationRegistry :=
  if (r.get? m.name).isSome then .error (.duplicate m.name) else .ok ⟨r.entries ++ [m]⟩

/-- The migration of a name, or what to say when there is none. -/
def lookup (r : MigrationRegistry) (name : String) : Except RegistryError Migration :=
  match r.get? name with
  | some m => .ok m
  | none => .error (.unknown name (Edit.suggestName name (r.entries.map (·.name))))

/-- All migrations in ascending order of their names. -/
def all (r : MigrationRegistry) : List Migration :=
  r.entries.mergeSort fun a b => decide (a.name ≤ b.name)

/-- The registered names in ascending order. -/
def names (r : MigrationRegistry) : List String := r.all.map (·.name)

/-- The named migrations in the given order; all of them when no name is given. -/
def select (r : MigrationRegistry) (names : List String) : Except RegistryError (List Migration) :=
  if names.isEmpty then .ok r.all else names.mapM r.lookup

/-- The registry of the built-in migrations. -/
def builtin : MigrationRegistry := ⟨Migration.builtins⟩

end MigrationRegistry

end Lossless
