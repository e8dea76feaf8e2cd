import Lossless.Decimal.General
import Lossless.Measure.ByteSize
import Lossless.Measure.Duration
import Lossless.Telemetry.Resource
import Lossless.Telemetry.Log

/-!
# Config — settings

The settings of the program, their defaults, and the conditions they have to meet.  Checked settings
come with the parsed size limit and log level.
-/

namespace Lossless

namespace Config

/-- Which catalog documents are read with. -/
structure CatalogSettings where
  /-- A catalog file to register beside the built-in catalog; empty for none. -/
  path : String := ""
  /-- The language whose catalog is used; empty to detect it for each file. -/
  language : String := ""
  /-- Whether documents are checked against the schema of the catalog. -/
  strict : Bool := false

/-- How migrations are run. -/
structure MigrateSettings where
  /-- The migrations to run, in order; all of them when empty. -/
  migrations : List String := []
  outputDir : String := ""
  maxFileSize : String := "64MB"
  timeout : Duration := ⟨300000000000⟩
  workers : Int := 4
  write : Bool := false
  checkIdempotence : Bool := false

/-- What is logged and how. -/
structure LoggingSettings where
  level : String := "info"
  format : String := "text"

/-- What telemetry is reported and where to. -/
structure TelemetrySettings where
  environment : String := ""
  endpoint : String := ""
  headers : String := ""
  metricsFile : String := ""
  sampleRatio : Float := 1.0
  insecure : Bool := false
  traceVerbose : Bool := false

end Config

/-- The settings of the program. -/
structure Config where
  catalog : Config.CatalogSettings := {}
  migrate : Config.MigrateSettings := {}
  logging : Config.LoggingSettings := {}
  telemetry : Config.TelemetrySettings := {}

namespace Config

/-- A condition that settings do not meet. -/
inductive Invalid where
  | workers (given : Int)
  | fileSize (given : String)
  | timeout (given : Duration)
  | logLevel (given : String)
  | logFormat (given : String)
  | sampleRatio (given : Float)

/-- The text of an unmet condition. -/
def Invalid.message : Invalid → String
  | .workers n => "migrate workers must be positive: " ++ toString n
  | .fileSize s => "invalid max file size: " ++ Text.quoteString s
  | .timeout d => "migrate timeout must be positive: " ++ d.text
  | .logLevel s => "invalid log level: " ++ Text.quoteString s
  | .logFormat s => "invalid log format: " ++ Text.quoteString s
  | .sampleRatio x => "sample ratio must be between 0 and 1: " ++ Decimal.general x

/-- The level that is named, in any case. -/
def namedLevel? (name : String) : Option Telemetry.Level :=
  match Text.upper name with
  | "DEBUG" => some Telemetry.Level.debug
  | "INFO" => some Telemetry.Level.info
  | "WARN" => some Telemetry.Level.warn
  | "ERROR" => some Telemetry.Level.error
  | _ => none

/-- The level of a name and, behind a sign, a distance from it. -/
def LoggingSettings.level? (s : LoggingSettings) : Option Telemetry.Level :=
  let isSign (c : Char) := c = '+' || c = '-'
  let name := s.level.toList.takeWhile (!isSign ·)
  let distance := s.level.toList.dropWhile (!isSign ·)
  match namedLevel? (String.ofList name) with
  | none => none
  | some l =>
    if distance.isEmpty then some l
    else (Decimal.int64? distance).map fun d => (l + d).bmod (Nat.pow 2 64)

/-- Whether log lines are JSON objects; none for an unknown form. -/
def LoggingSettings.format? (s : LoggingSettings) : Option Telemetry.LogFormat :=
  match s.format with
  | "text" => some .pairs
  | "json" => some .json
  | _ => none

/-- Settings that meet all conditions, with what was parsed to see it. -/
structure Checked extends Config where
  sizeLimit : UInt64
  level : Telemetry.Level
  format : Telemetry.LogFormat

/-- Checks the conditions in order; the first that is not met is reported. -/
def check (c : Config) : Except Invalid Checked := do
  if c.migrate.workers ≤ 0 then throw (.workers c.migrate.workers)
  let size ← match ByteSize.parse? c.migrate.maxFileSize with
    | some (n + 1) => pure (n + 1)
    | _ => throw (.fileSize c.migrate.maxFileSize)
  if c.migrate.timeout.ns ≤ 0 then throw (.timeout c.migrate.timeout)
  let level ← match c.logging.level? with
    | some l => pure l
    | none => throw (.logLevel c.logging.level)
  let format ← match c.logging.format? with
    | some f => pure f
    | none => throw (.logFormat c.logging.format)
  let ratio := c.telemetry.sampleRatio
  if ratio < 0.0 || 1.0 < ratio then throw (.sampleRatio ratio)
  return { c with sizeLimit := UInt64.ofNat size, level := level, format := format }

end Config

end Lossless
