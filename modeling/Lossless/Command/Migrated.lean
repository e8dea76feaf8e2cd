import Lossless.Command.Grid
import Lossless.Command.Session
import Lossless.Measure.Duration

/-!
# Command — migrated documents

What a migration run made of each document, how it is shown and written, and the summary of a run.
-/

namespace Lossless

/-- What a migration run made of one document. -/
structure Migrated where
  path : String
  /-- The path of the migrated source. -/
  target : Text
  before : Text
  after : Text
  results : List RunResult
  duration : Duration := ⟨0⟩

/-- Whether the source was changed. -/
def Migrated.changed (o : Migrated) : Bool := o.before ≠ o.after

/-- What is done with migrated documents. -/
structure EmitOptions where
  write : Bool
  outputDir : Text
  diff : Bool

namespace Migrated

/-! ### Migrating a tree -/

/-- Checks migrations on a tree, each on the same one. -/
def checkAll (root : Node) : List Migration → Make CheckFailure Unit
  | [] => pure ()
  | m :: rest => do
    checkMigration m root
    checkAll root rest

/-- Runs migrations over the tree of a document, each over the result of the one before. When
`check` is set every one of them is first checked on the tree of the document. -/
def migrateTree (check : Bool) (path : String) (root : Node) (ms : List Migration)
    (supply : Supply) : Observed (Except CommandError (List RunResult)) :=
  let checked := if check then (checkAll root ms supply).map (·.2) else .ok supply
  match checked with
  | .error e => ⟨.error (.check path e), [], supply⟩
  | .ok supply =>
    let o := Migration.runAll path root ms supply
    match o.value with
    | (results, none) => ⟨.ok results, o.events, o.supply⟩
    | (_, some e) => ⟨.error (.run e), o.events, o.supply⟩

/-- What migrating a tree made of its document. -/
def ofResults (path : String) (outputDir : Text) (root : Node) (results : List RunResult) :
    Migrated where
  path := path
  target := Input.outputPath path outputDir
  before := root.fullText
  after := ((results.getLast?.map (·.tree)).getD root).fullText
  results := results

/-! ### Showing and writing -/

/-- The diff of a migrated document, with the names of both files. -/
def diffText (o : Migrated) : Text :=
  Text.ofString "--- " ++ Text.echo o.path ++ Text.ofString "\n+++ " ++ Text.echo o.target
    ++ Text.ofString "\n" ++ Edit.lineDiff o.before o.after

/-- Whether a migrated document is written: it was changed, or there is a directory for it. -/
def isWritten (opts : EmitOptions) (o : Migrated) : Bool :=
  opts.write && (o.changed || !opts.outputDir.isEmpty)

/-- Shows and writes a migrated document. -/
def emit (opts : EmitOptions) (o : Migrated) : Command Unit := do
  if opts.diff && o.changed then Command.print o.diffText
  else if !opts.diff && !opts.write then Command.print o.after
  if o.isWritten opts then Command.writeOutput o.target o.after

/-- Shows and writes migrated documents in order. -/
def emitAll (opts : EmitOptions) : List Migrated → Command Unit
  | [] => pure ()
  | o :: rest => do
    o.emit opts
    emitAll opts rest

/-! ### Summaries -/

/-- The row of one migration of a document. What concerns the whole document is shown with the
first. -/
def summaryRow (o : Migrated) (first : Bool) (r : RunResult) : List Cell :=
  let (added, removed) := Edit.diffStats o.before o.after
  let shown (s : String) : Cell := .text (if first then s else "")
  [shown (Text.echo o.path).toStr, .text r.migration, .text (if r.changed then "yes" else "no"),
    .number r.stats.visited.toInt, .number r.stats.rebuilt.toInt,
    shown ("+" ++ toString added), shown ("-" ++ toString removed),
    shown (o.duration.round 1000).text]

/-- The rows of a document. -/
def summaryRows (o : Migrated) : List (List Cell) :=
  match o.results with
  | [] => []
  | r :: rest => o.summaryRow true r :: rest.map (o.summaryRow false)

/-- The summary of a run. -/
def summary (os : List Migrated) : Grid where
  head := ["File", "Migration", "Changed", "Visited", "Rebuilt", "+", "-", "Duration"]
  rows := os.flatMap summaryRows
  foot :=
    ["Total: " ++ toString os.length ++ " files, " ++ toString (os.countP changed) ++ " changed"]

end Migrated

end Lossless
