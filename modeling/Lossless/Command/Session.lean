import Lossless.Catalog.Hack
import Lossless.Catalog.Load
import Lossless.Telemetry.Exposition
import Lossless.Command.Invocation
import Lossless.Command.World

/-!
# Command — sessions

A session is what a command works with: the settings, the catalogs, the language that was chosen and
the logger.  It loads documents and, at its end, writes the metrics when that is asked for.

Some things it leaves to others, and works with whatever they are (`Externals`).
-/

namespace Lossless

/-- What is left to others. -/
structure Externals where
  /-- Tells the languages of files for which none was chosen. -/
  detect : Detector
  wording : Parse.Wording

/-- What a command works with. -/
structure Session extends Externals where
  config : Config.Checked
  catalogs : CatalogRegistry
  /-- The language of all documents; empty to detect it for each of them. -/
  language : String
  logger : Telemetry.Logger
  mode : String
  quiet : Bool

/-- A document that was read and decoded, but not yet built. -/
structure LoadedDocument where
  path : String
  content : Parse.Document
  catalog : Catalog
  /-- The number of bytes it was decoded from. -/
  size : Nat

namespace Session

/-- The version that is reported. -/
def version : String := "dev"

/-- The least level that is logged: flags win over the settings. -/
def logLevel (g : Globals) (c : Config.Checked) : Telemetry.Level :=
  if g.verbose then Telemetry.Level.debug else if g.quiet then Telemetry.Level.warn else c.level

/-- The built-in catalog and the one of the settings. -/
def loadCatalogs (fs : FileSystem) (c : Config.Checked) : Except CommandError CatalogRegistry :=
  let standard := CatalogRegistry.ofCatalogs [Catalog.hack]
  let path := c.catalog.path
  if path = "" then .ok standard
  else match fs.open_ path with
    | .error f => .error (.catalogNotOpened ⟨"open", path, f⟩)
    | .ok .directory => .error (.catalogNotLoaded path .undecodable)
    | .ok (.file t) =>
      match Catalog.load t with
      | .error e => .error (.catalogNotLoaded path e)
      | .ok extra => .ok (standard.register extra)

/-- Starts a session from settings that were loaded. -/
def ofConfig (x : Externals) (fs : FileSystem) (g : Globals) (mode : String)
    (c : Config.Checked) : Except CommandError Session := do
  let registry ← loadCatalogs fs c
  let language := if g.language = "" then c.catalog.language else g.language
  if language ≠ "" && (registry.lookup language).isNone then
    throw (.unknownLanguage language registry.languages)
  return {
    toExternals := x
    config := c
    catalogs := registry
    language := language
    logger := Telemetry.Logger.ofService c.format (logLevel g c) Invocation.program mode
      c.telemetry.environment
    mode := mode
    quiet := g.quiet }

/-- Starts a session. -/
def start (x : Externals) (g : Globals) (mode : String) : Command Session := do
  let w ← get
  let c ← Command.orFail .config (Config.load w.files w.environment g.config)
  Command.orFail id (ofConfig x w.files g mode c)

/-- Who reports. -/
def resource (s : Session) : Telemetry.Resource where
  version := version
  environment := s.config.telemetry.environment
  mode := s.mode

/-- Ends a session: writes the metrics when a file for them is named. -/
def close (s : Session) : Command Unit := do
  let path := s.config.telemetry.metricsFile
  if path = "" then return
  let text := Telemetry.exposition s.resource (← get).measurements
  Command.writeFile (.metricsNotWritten path) path text

/-- Runs a command in a session. The session is ended also when the command fails. -/
def run (x : Externals) (g : Globals) (mode : String) (body : Session → Command Unit) :
    Command Unit := do
  let s ← start x g mode
  tryCatch (body s) fun e => do
    tryCatch s.close fun _ => pure ()
    throw e
  s.close

/-! ### Documents -/

/-- The catalog for a source file. -/
def catalogFor (s : Session) (name : String) (source : Text) : Except NoCatalog Catalog :=
  let chosen := if s.language = "" then none else s.catalogs.lookup s.language
  match chosen with
  | some c => .ok c
  | none => s.catalogs.forFile s.detect name source

/-- Decodes a document and finds its catalog. -/
def decode (s : Session) (path : String) (data : Text) : Except CommandError LoadedDocument := do
  let content ← (Parse.Document.decode s.wording data path).mapError .malformed
  let name := (Input.sourceName path).toStr
  let c ← (s.catalogFor name content.source).mapError .noCatalog
  return ⟨path, content, c, data.length⟩

/-- The tree of a document. With strict settings it has to conform to the schema of its catalog. -/
def build (s : Session) (d : LoadedDocument) : Make CommandFailure Node := fun supply => do
  let invalid (e : Malformed) : CommandFailure :=
    { cause := .malformed e, status := some Failed.invalidStatus }
  if s.config.catalog.strict then
    match Parse.validate d.catalog d.content.tree with
    | .error e => throw { cause := .schema e }
    | .ok false =>
      let objections := s.wording.objections d.catalog.schema d.content.tree
      throw (invalid (Parse.schemaError d.path objections))
    | .ok true => pure ()
  (Parse.fromDecoded d.catalog d.content.tree d.content.source d.path supply).mapError invalid

/-- Reads and decodes a document. -/
def readDocument (s : Session) (path : String) : Command LoadedDocument := do
  let data ← Command.readInput path s.config.sizeLimit
  Command.orFail id (s.decode path data)

/-- Loads the tree of a document. -/
def load (s : Session) (path : String) : Command (LoadedDocument × Node) := do
  let d ← s.readDocument path
  let w ← get
  match s.build d w.supply with
  | .error e => throw e
  | .ok (tree, supply) =>
    set { w with supply := supply }
    Command.report s.logger [{
      level := Telemetry.Level.debug, message := "document loaded",
      fields := [.str "path" path, .str "catalog" d.catalog.language, .int "bytes" d.size] }]
    return (d, tree)

/-- The migrations of the given names; without names those of the settings, and without these
all. -/
def migrations (s : Session) (names : List String) : Except RegistryError (List Migration) :=
  MigrationRegistry.builtin.select (if names.isEmpty then s.config.migrate.migrations else names)

end Session

end Lossless
