import Lossless.Catalog.Registry
import Lossless.Text.Blank

/-!
# Telemetry — who reports

The attributes that tell whose telemetry it is, and the headers it is sent with.
-/

namespace Lossless.Telemetry

/-- What reports. -/
structure Resource where
  service : String := "codemod"
  version : String := ""
  environment : String := ""
  mode : String := "cli"

/-- The attributes of a resource in ascending order of their keys. Only the service is reported when
it is empty. -/
def Resource.attributes (r : Resource) : List (String × String) :=
  let given (key value : String) := if value = "" then [] else [(key, value)]
  given "app.mode" r.mode ++ given "deployment.environment" r.environment
    ++ [("service.name", r.service)] ++ given "service.version" r.version

/-- The key and the value around the first equals sign. -/
def splitPair? : List Char → Option (List Char × List Char)
  | [] => none
  | '=' :: rest => some ([], rest)
  | c :: rest => (splitPair? rest).map fun (k, v) => (c :: k, v)

/-- The parts of a list with commas between them. -/
def splitCommas (cs : List Char) : List (List Char) := cs.splitOn ','

/-- The headers of a list of pairs `key=value` with commas between them. What is no pair is skipped,
and a later pair wins; none when there is no pair at all. -/
def parseHeaders (raw : String) : Option (Table String) :=
  let pairs := (splitCommas raw.toList).filterMap splitPair?
  if pairs.isEmpty then none
  else some (pairs.foldl
    (fun t (k, v) =>
      t.put (String.ofList (Text.trimChars k)) (String.ofList (Text.trimChars v))) [])

end Lossless.Telemetry
