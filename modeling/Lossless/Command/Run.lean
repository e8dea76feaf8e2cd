import Lossless.Command.Migrated
import Lossless.Command.Overview

/-!
# Command — running commands

What each command does, and the program as a whole: a function of a command line and the world it
runs in.
-/

namespace Lossless

namespace Command

/-! ### parse -/

/-- Builds the tree of a document and prints its text or its outline. With `check` it only reports
whether the text of the tree is the source. -/
def parse (x : Externals) (g : Globals) (path : String) (output : Text) (outline check : Bool) :
    Command Unit :=
  Session.run x g "cli" fun s => do
    let (d, root) ← s.load path
    let text := root.fullText
    if check then
      if text ≠ d.content.source then
        fail (.roundTrip path (Edit.lineDiff d.content.source text))
      else if !s.quiet then
        print (Text.echo path ++ Text.ofString (": ok (" ++ toString text.countLines ++ " lines, "
          ++ toString text.length ++ " bytes)\n"))
    else
      let shown : Text := if outline then root.outline else text
      if output.isEmpty then print shown else writeFile .outputNotCreated output shown

/-! ### validate -/

/-- The colours of verdicts. -/
inductive Color where
  | red
  | green
  deriving DecidableEq, Repr

/-- The number of a colour on a terminal. -/
def Color.code : Color → String
  | .red => "31"
  | .green => "32"

/-- A text in a colour, when colours are used. -/
def colored (use : Bool) (c : Color) (t : Text) : Text :=
  if use then Text.ofString ("\x1b[" ++ c.code ++ "m") ++ t ++ Text.ofString "\x1b[0m" else t

/-- The report on a document that is malformed. -/
def malformedReport (path : String) (e : Malformed) : Text :=
  Text.echo path ++ Text.ofString (": invalid\n  - " ++ e.message ++ "\n")

/-- The line on what a validator objects to. -/
def detail (o : Parse.Objection) : Text :=
  Text.ofString ("  - " ++ o.field ++ ": " ++ o.description ++ "\n")

/-- The report on a document that does not conform to the schema of its language. Each of its lines is
coloured apart. -/
def rejectedReport (use : Bool) (path language : String) (objections : List Parse.Objection) :
    Text :=
  let headline := Text.echo path ++ Text.ofString (": invalid " ++ language ++ " document\n")
  (headline :: objections.map detail).flatMap (colored use .red)

/-- The report on the data of a document, and whether it is valid. Decoding, schema and source are
checked in this order; what is no fault of the document is an error. -/
def validateData (s : Session) (use : Bool) (path : String) (data : Text) :
    Except CommandError (Bool × Text) :=
  match s.decode path data with
  | .error (.malformed e) => .ok (false, colored use .red (malformedReport path e))
  | .error e => .error e
  | .ok d =>
    match Parse.validate d.catalog d.content.tree with
    | .error e => .error (.schema e)
    | .ok false =>
      let objections := s.wording.objections d.catalog.schema d.content.tree
      .ok (false, rejectedReport use path d.catalog.language objections)
    | .ok true =>
      match Parse.fromDecoded d.catalog d.content.tree d.content.source path Supply.start with
      | .error e => .ok (false, colored use .red (malformedReport path e))
      | .ok (root, _) =>
        .ok (true, if s.quiet then [] else colored use .green
          (Text.echo path ++ Text.ofString (": valid " ++ d.catalog.language ++ " document ("
            ++ toString root.width ++ " bytes)\n")))

/-- Reports on one document, and tells whether it is valid. -/
def validateDocument (s : Session) (use : Bool) (path : String) : Command Bool := do
  let data ← readInput path s.config.sizeLimit
  let (valid, shown) ← orFail id (validateData s use path data)
  print shown
  return valid

/-- Reports on documents in order, and counts those that are not valid. -/
def validateAll (s : Session) (use : Bool) : List String → Command Nat
  | [] => return 0
  | path :: rest => do
    let valid ← validateDocument s use path
    let others ← validateAll s use rest
    return others + if valid then 0 else 1

/-- Validates documents. -/
def validate (x : Externals) (g : Globals) (paths : List String) (color : Bool) : Command Unit :=
  Session.run x g "check" fun s => do
    let failed ← validateAll s color paths
    if 0 < failed then failInvalid (.validationFailed failed paths.length)

/-! ### migrate -/

/-- The time that has passed when the first document is reached. -/
def warmUp : Duration := ⟨1000⟩

/-- Migrates documents in order, up to the first that fails. -/
def migrateFiles (s : Session) (check : Bool) (outputDir : Text) (ms : List Migration) :
    List String → Command (List Migrated)
  | [] => return []
  | path :: rest => do
    if s.config.migrate.timeout.ns < warmUp.ns then fail (.deadline path)
    let (_, root) ← s.load path
    let results ← observe s.logger (Migrated.migrateTree check path root ms (← get).supply)
    let results ← orFail id results
    let others ← migrateFiles s check outputDir ms rest
    return Migrated.ofResults path outputDir root results :: others

/-- Migrates documents. What the flags leave open is taken from the settings. -/
def migrate (x : Externals) (g : Globals) (paths : List String) (f : MigrateFlags) : Command Unit :=
  Session.run x g "cli" fun s => do
    let settings := s.config.migrate
    let opts : EmitOptions := {
      write := f.write.getD settings.write
      outputDir := f.outputDir.getD settings.outputDir
      diff := f.diff }
    let ms ← orFail .registry (s.migrations f.migrations)
    let check := f.checkIdempotence.getD settings.checkIdempotence
    let files ← migrateFiles s check opts.outputDir ms paths
    Migrated.emitAll opts files
    if f.summary && !s.quiet then
      printError (Text.ofString ((Migrated.summary files).render ++ "\n"))

/-! ### check -/

/-- A check that was made. -/
structure CheckResult where
  path : String
  migration : String
  failure : Option CheckFailure

/-- The row of a check. -/
def CheckResult.row (r : CheckResult) : List Cell :=
  [.text (Text.echo r.path).toStr, .text r.migration,
    .text (if r.failure.isSome then "FAIL" else "ok")]

/-- Checks migrations on the tree of a document. -/
def checkTree (s : Session) (path : String) (root : Node) :
    List Migration → Command (List CheckResult)
  | [] => return []
  | m :: rest => do
    let failure := match checkMigration m root (← get).supply with
      | .ok _ => none
      | .error e => some e
    if let some e := failure then
      report s.logger [{
        level := Telemetry.Level.error, message := "idempotence check failed",
        fields := [.str "path" path, .str "migration" m.name, ⟨"error", .text e.message⟩] }]
    return ⟨path, m.name, failure⟩ :: (← checkTree s path root rest)

/-- Checks migrations on documents in order. -/
def checkFiles (s : Session) (ms : List Migration) : List String → Command (List CheckResult)
  | [] => return []
  | path :: rest => do
    let (_, root) ← s.load path
    let results ← checkTree s path root ms
    return results ++ (← checkFiles s ms rest)

/-- Checks that migrations are idempotent on documents. -/
def check (x : Externals) (g : Globals) (paths names : List String) : Command Unit :=
  Session.run x g "check" fun s => do
    let ms ← orFail .registry (s.migrations names)
    let results ← checkFiles s ms paths
    let failures := results.filterMap fun r => r.failure.map (CommandError.check r.path ·)
    if !s.quiet || !failures.isEmpty then
      printLine ({ head := ["File", "Migration", "Result"],
                   rows := results.map CheckResult.row : Grid }).render
    printError (failures.flatMap fun e => e.message ++ [Text.newline])
    if !failures.isEmpty then fail (.checkFailed failures.length results.length)

/-! ### catalog -/

/-- Shows the kinds of a catalog, the slots of one of them, or the schema of documents. -/
def catalog (x : Externals) (g : Globals) (kind : Option String) (schema : Bool) : Command Unit :=
  Session.run x g "cli" fun s => do
    let language := if s.language = "" then Catalog.hack.language else s.language
    let c := (s.catalogs.lookup language).getD Catalog.hack
    if schema then printLine c.schemaText
    else match kind with
      | none => printLine c.grid.render
      | some name =>
        match c.kind? name with
        | some k => printLine k.grid.render
        | none =>
          let names := c.sortedKinds.map (·.name)
          fail (.unknownKind name c.language (Edit.suggestName name names))

/-! ### The program -/

/-- The identity of a build. -/
structure Build where
  version : String := Session.version
  commit : String := "unknown"
  date : String := "unknown"

/-- The text of a build. -/
def Build.text (b : Build) : String :=
  b.version ++ " (commit: " ++ b.commit ++ ", built: " ++ b.date ++ ")"

/-- How the program is used. -/
def usage : String :=
  "Usage:\n  codemod [command]\n\nAvailable Commands:\n"
    ++ String.join (Invocation.commands.map fun c => "  " ++ c ++ "\n")

/-- Runs a command. -/
def invoke (x : Externals) (g : Globals) : Invocation → Command Unit
  | .parse path output outline check => parse x g path output outline check
  | .validate paths color => validate x g paths color
  | .migrate paths flags => migrate x g paths flags
  | .check paths migrations => check x g paths migrations
  | .catalog kind schema => catalog x g kind schema
  | .migrations => printLine (Migration.grid MigrationRegistry.builtin.all).render
  | .version => printLine ("codemod " ++ ({} : Build).text)
  | .help => print usage

/-- Runs a command line. -/
def runLine (x : Externals) (args : List Text) : Command Unit := do
  let (g, i) ← orFail .usage (Invocation.read args)
  invoke x g i

/-- Runs the program: the failure, if there is one, and the world it leaves. -/
def run (x : Externals) (args : List Text) (w : World) : Option CommandFailure × World :=
  match runLine x args w with
  | (.ok _, w) => (none, w)
  | (.error e, w) => (some e, w)

end Command

end Lossless
