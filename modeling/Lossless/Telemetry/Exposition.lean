import Lossless.Telemetry.Metric
import Lossless.Telemetry.Resource

/-!
# Telemetry — metrics in a file

The totals of all instruments as text: per instrument a line of help, a line with its type, and a
line for every set of labels.  Durations are not reproducible and stay out of it.
-/

namespace Lossless.Telemetry

/-- What an instrument counts; nothing for one that is left out. -/
def Instrument.counted? : Instrument → Option String
  | .runs => some "Migration runs by outcome"
  | .visited => some "Nodes passed to step transforms"
  | .rebuilt => some "Nodes reallocated because a descendant changed"
  | .errors => some "Failed migration runs"
  | .duration => none

/-- A name in a metrics file, where names have no dots. -/
def dotless (name : String) : String :=
  String.ofList (name.toList.map fun c => if c = '.' then '_' else c)

/-- The name of an instrument in a metrics file. What it counts is a total, and named as one. -/
def Instrument.exposedName (i : Instrument) : String :=
  let name := dotless i.name
  if "_total".toList.isSuffixOf name.toList then name else name ++ "_total"

/-- The instruments in ascending order of their names in a file. -/
def exposedInstruments : List Instrument := [.errors, .runs, .rebuilt, .visited]

/-- The characters of a label value; quotes, backslashes and line breaks are escaped. -/
def labelChars (value : String) : List Char :=
  value.toList.flatMap fun c =>
    if c = '"' || c = '\\' then ['\\', c] else if c = '\n' then ['\\', 'n'] else [c]

/-- Labels in a metrics file. -/
def labelText (labels : List (String × String)) : String :=
  let one (l : String × String) := l.1 ++ "=\"" ++ String.ofList (labelChars l.2) ++ "\""
  "\x7b" ++ ",".intercalate (labels.map one) ++ "\x7d"

/-- The lines about one instrument: help, type and one line for each entry. -/
def familyText (name help type : String) (entries : List String) : String :=
  "# HELP " ++ name ++ " " ++ help ++ "\n# TYPE " ++ name ++ " " ++ type ++ "\n"
    ++ String.join (entries.map fun e => name ++ e ++ "\n")

/-- The labels of a resource. -/
def Resource.labels (r : Resource) : List (String × String) :=
  r.attributes.map fun (k, v) => (dotless k, v)

/-- The lines about an instrument that was used. -/
def instrumentText (ms : List Measurement) (i : Instrument) : String :=
  let used := (series ms).filterMap fun (j, labels) => if j = i then some labels else none
  match i.counted? with
  | none => ""
  | some help =>
    if used.isEmpty then "" else
      familyText i.exposedName help "counter"
        (sortedNames (used.map fun ls => labelText ls ++ " " ++ toString (total ms i ls)))

/-- The text of a metrics file. -/
def exposition (r : Resource) (ms : List Measurement) : String :=
  String.join (exposedInstruments.map (instrumentText ms))
    ++ familyText "target_info" "Target metadata" "gauge" [labelText r.labels ++ " 1"]

end Lossless.Telemetry
