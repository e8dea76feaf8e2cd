import Lossless.Catalog.Document
import Lossless.Catalog.Registry
import Lossless.Command.Flag
import Lossless.Command.Input
import Lossless.Config.Load
import Lossless.Migration.Idempotence
import Lossless.Migration.Registry
import Lossless.Migration.Runner
import Lossless.Parse.Document
import Lossless.Text.Terminal

/-!
# Command — how commands fail

Every error of a command with its text, and the status that the program exits with: two for
documents that are not valid, one for all else.
-/

namespace Lossless

/-- An error together with the status to exit with, when it was given one. -/
structure Failed (ε : Type) where
  cause : ε
  status : Option Int := none

namespace Failed

variable {ε : Type}

/-- The status of errors that were given none. -/
def failureStatus : Int := 1

/-- The status for documents that are not valid. -/
def invalidStatus : Int := 2

/-- The status that the program exits with. -/
def exitStatus (f : Failed ε) : Int := f.status.getD failureStatus

end Failed

/-- Why a command fails. -/
inductive CommandError where
  | usage (e : UsageError)
  | config (e : Config.LoadError)
  | catalogNotOpened (e : FileError)
  | catalogNotLoaded (path : String) (e : CatalogError)
  | unknownLanguage (language : String) (known : List String)
  | input (e : InputError)
  | malformed (e : Malformed)
  | noCatalog (e : NoCatalog)
  | schema (e : Parse.BadSchema)
  | roundTrip (path : String) (diff : Text)
  | outputNotCreated (e : FileError)
  | outputNotWritten (target : Text) (e : FileError)
  | unknownKind (name language : String) (hint : Option String)
  | registry (e : RegistryError)
  | deadline (path : String)
  | check (path : String) (e : CheckFailure)
  | run (e : RunFailure)
  | validationFailed (failed total : Nat)
  | checkFailed (failed total : Nat)
  | metricsNotWritten (path : Text) (e : FileError)

namespace CommandError

/-- The text of an error of the configuration. -/
def configMessage : Config.LoadError → String
  | .unreadable => "failed to read config file: no settings"
  | .illTyped => "failed to unmarshal config: a value has a wrong type"
  | .invalid e => "invalid configuration: " ++ e.message

/-- The text of the error. -/
def message : CommandError → Text
  | .usage e => e.message
  | .config e => configMessage e
  | .catalogNotOpened e => Text.ofString "open catalog: " ++ e.message
  | .catalogNotLoaded path e => "load catalog " ++ path ++ ": " ++ e.message
  | .unknownLanguage language known =>
    "no catalog for language: " ++ language ++ " (have [" ++ " ".intercalate known ++ "])"
  | .input e => e.message
  | .malformed e => e.message
  | .noCatalog e => e.message
  | .schema e => e.message
  | .roundTrip path diff =>
    Text.ofString "tree text differs from program text in " ++ Text.echo path ++ Text.ofString ":\n"
      ++ diff
  | .outputNotCreated e => Text.ofString "create output file: " ++ e.message
  | .outputNotWritten target e =>
    Text.ofString "write output " ++ target ++ Text.ofString ": " ++ e.message
  | .unknownKind name language hint =>
    Text.ofString "unknown kind: " ++ Text.echo name
      ++ Text.ofString (" in " ++ language ++ " catalog"
      ++ match hint with
        | some h => " (did you mean " ++ h ++ "?)"
        | none => "")
  | .registry e => e.message
  | .deadline path => path ++ ": context deadline exceeded"
  | .check path e => Text.ofString (path ++ ": ") ++ e.message
  | .run e => e.message
  | .validationFailed failed total =>
    "validation failed: " ++ toString failed ++ " of " ++ toString total ++ " documents"
  | .checkFailed failed total =>
    "idempotence check failed: " ++ toString failed ++ " of " ++ toString total ++ " checks"
  | .metricsNotWritten path e =>
    Text.ofString "write metrics textfile " ++ path ++ Text.ofString ": " ++ e.message

end CommandError

/-- A failed command. -/
abbrev CommandFailure := Failed CommandError

end Lossless
