import Lossless.Config.Basic
import Lossless.Config.Decode
import Lossless.Files.Basic

/-!
# Config — loading settings

A setting comes from the environment, from the file, or is the default, in this order.  The variable
of the setting `key` of a section is `CODEMOD_SECTION_KEY`; an empty variable counts as absent.  In
the file a setting stands in the mapping of its section, or under its section and key joined by a
dot. -/

namespace Lossless.Config

/-- The variables of the environment. -/
abbrev Environment := List (String × String)

/-- The value of a variable; none when it is absent or empty. -/
def envValue? (env : Environment) (name : String) : Option String :=
  ((env.find? (·.1 = name)).map (·.2)).filter (· ≠ "")

/-- Why settings cannot be loaded. -/
inductive LoadError where
  /-- The file cannot be read or is no mapping. -/
  | unreadable
  /-- A value cannot be converted to the type of its setting. -/
  | illTyped
  | invalid (cause : Invalid)

/-! ### Sections -/

/-- Where the settings of a section come from. -/
structure Source where
  env : Environment
  file : Entries
  section_ : String

namespace Source

/-- The entry of a mapping. -/
def find? (entries : Entries) (key : String) : Option Value :=
  (entries.find? (·.1 = key)).map (·.2)

/-- The value under a key, unless it is null. -/
def present? (entries : Entries) (key : String) : Option Value :=
  (find? entries key).bind fun
    | .null => none
    | v => some v

/-- The name of the variable of a section. -/
def variableOfSection (s : Source) : String := "CODEMOD_" ++ Text.upper s.section_

/-- The entries of the section in the file. -/
def entries (s : Source) : Entries :=
  match find? s.file s.section_ with
  | some (.map entries) => entries
  | _ => []

/-- The value of a setting in the file. -/
def inFile? (s : Source) (key : String) : Option Value :=
  match present? s.file (s.section_ ++ "." ++ key) with
  | some v => some v
  | none => present? s.entries key

/-- How the settings of a section are found. -/
inductive Mode where
  /-- One by one. -/
  | single
  /-- All are the defaults, since the section is null. -/
  | defaults
  /-- All are empty, since the section is a point in time, which has no settings. -/
  | empty
  /-- Not at all, since the section is not a mapping. -/
  | none
  deriving DecidableEq, Repr

/-- How the settings of the section are found. -/
def mode (s : Source) : Mode :=
  match find? s.file s.section_ with
  | Option.none => .single
  | some (.map _) => .single
  | some .null => if (envValue? s.env s.variableOfSection).isSome then .none else .defaults
  | some .moment => if (envValue? s.env s.variableOfSection).isSome then .none else .empty
  | some _ => .none

/-- The value of a setting, converted by `read`: from its variable, from the file, or the default.
A variable of the section itself hides file and defaults, and leaves `empty`. -/
def setting {α : Type} (s : Source) (key : String) (read : Value → Option α) (default empty : α) :
    Except LoadError α :=
  let convert (v : Value) : Except LoadError α :=
    match read v with
    | some a => .ok a
    | Option.none => .error .illTyped
  if s.mode = .defaults then .ok default
  else if s.mode = .empty then .ok empty
  else match envValue? s.env (s.variableOfSection ++ "_" ++ Text.upper key) with
    | some v => convert (.str v)
    | Option.none =>
      if (envValue? s.env s.variableOfSection).isSome then .ok empty
      else match s.inFile? key with
        | some v => convert v
        | Option.none => .ok default

/-- A setting that is a text. -/
def text (s : Source) (key default : String) : Except LoadError String :=
  s.setting key Value.text? default ""

/-- A setting that is off by default. -/
def switch (s : Source) (key : String) : Except LoadError Bool :=
  s.setting key Value.truth? false false

end Source

/-- The settings of every section, by the names they have in a file. -/
def settingNames : List (String × List String) := [
  ("catalog", ["path", "language", "strict"]),
  ("migrate", ["migrations", "output_dir", "max_file_size", "timeout", "workers", "write",
    "check_idempotence"]),
  ("logging", ["level", "format"]),
  ("telemetry", ["environment", "otlp_endpoint", "otlp_headers", "metrics_textfile", "sample_ratio",
    "otlp_insecure", "trace_verbose"])]

/-- The variables that settings may come from. -/
def variableNames : List String :=
  settingNames.flatMap fun (name, keys) =>
    let stem := "CODEMOD_" ++ Text.upper name
    stem :: keys.map fun k => stem ++ "_" ++ Text.upper k

/-- The settings of the environment and the entries of a file. -/
def ofEntries (env : Environment) (file : Entries) : Except LoadError Config := do
  let source (name : String) : Source := ⟨env, file, name⟩
  if settingNames.any fun (n, _) => (source n).mode = .none then
    throw .illTyped
  let c := source "catalog"
  let m := source "migrate"
  let l := source "logging"
  let t := source "telemetry"
  let noTime : Duration := ⟨0⟩
  let standard : Config := {}
  let catalog : CatalogSettings :=
    { path := ← c.text "path" "", language := ← c.text "language" "",
      strict := ← c.switch "strict" }
  let migrate : MigrateSettings := {
    migrations := ← m.setting "migrations" Value.texts? [] []
    outputDir := ← m.text "output_dir" ""
    maxFileSize := ← m.text "max_file_size" standard.migrate.maxFileSize
    timeout := ← m.setting "timeout" Value.duration? standard.migrate.timeout noTime
    workers := ← m.setting "workers" Value.integer? standard.migrate.workers 0
    write := ← m.switch "write"
    checkIdempotence := ← m.switch "check_idempotence" }
  let logging : LoggingSettings := {
    level := ← l.text "level" standard.logging.level
    format := ← l.text "format" standard.logging.format }
  let telemetry : TelemetrySettings := {
    environment := ← t.text "environment" ""
    endpoint := ← t.text "otlp_endpoint" ""
    headers := ← t.text "otlp_headers" ""
    metricsFile := ← t.text "metrics_textfile" ""
    sampleRatio := ← t.setting "sample_ratio" Value.double? standard.telemetry.sampleRatio 0.0
    insecure := ← t.switch "otlp_insecure"
    traceVerbose := ← t.switch "trace_verbose" }
  return ⟨catalog, migrate, logging, telemetry⟩

/-! ### Files -/

/-- The extensions under which a configuration file is looked for. -/
def extensions : List String :=
  ["json", "toml", "yaml", "yml", "properties", "props", "prop", "hcl", "tfvars", "dotenv", "env",
    "ini"]

/-- The places where a configuration file is looked for, in order. -/
def candidates : List Text :=
  let names := extensions.map ("codemod." ++ ·) ++ ["codemod"]
  (names ++ names.map ("config/" ++ ·)).map Text.ofString

/-- The contents of the first of the places that holds a file. -/
def search? (fs : FileSystem) : Option Text :=
  candidates.findSome? fun path =>
    match fs.find? path with
    | some (.file t) => some t
    | _ => none

/-- The entries of the file at a path. The extension tells how it is written. -/
def readFile (fs : FileSystem) (path : Text) : Except LoadError Entries :=
  match fs.open_ path with
  | .ok (.file t) =>
    let entries := match (Path.extension path).toStr with
      | ".yaml" | ".yml" => ofYamlText? t
      | ".json" => ofJsonText? t
      | _ => none
    match entries with
    | some es => .ok es
    | none => .error .unreadable
  | _ => .error .unreadable

/-- Loads and checks the settings. Without a path the file is searched for, and may be missing. -/
def load (fs : FileSystem) (env : Environment) (path : Text) : Except LoadError Checked := do
  let entries ←
    if path.isEmpty then
      match search? fs with
      | none => pure []
      | some t => match ofYamlText? t with
        | some es => pure es
        | none => throw .unreadable
    else readFile fs path
  let c ← ofEntries env entries
  match c.check with
  | .ok checked => return checked
  | .error e => throw (.invalid e)

end Lossless.Config
