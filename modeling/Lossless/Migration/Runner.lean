import Lossless.Migration.Basic
import Lossless.Telemetry.Log
import Lossless.Telemetry.Metric
import Lossless.Telemetry.Span

/-!
# Migration — observed runs

Running a migration gives the same tree as applying it, and reports on the way: log records, spans
in the order in which they end, and measurements.
-/

namespace Lossless

open Telemetry (Attribute Field Level Measurement Record Span)

/-- Something that a run reports. -/
inductive Event where
  | record (r : Record)
  | span (s : Span)
  | measurement (m : Measurement)

namespace Event

/-- The log records among events. -/
def records (es : List Event) : List Record :=
  es.filterMap fun | .record r => some r | _ => none

/-- The spans among events. -/
def spans (es : List Event) : List Span :=
  es.filterMap fun | .span s => some s | _ => none

/-- The measurements among events. -/
def measurements (es : List Event) : List Measurement :=
  es.filterMap fun | .measurement m => some m | _ => none

end Event

/-- What one step of a run did. -/
structure StepResult where
  name : String
  changed : Bool
  stats : Stats

/-- What a run of a migration did. -/
structure RunResult where
  migration : String
  tree : Node
  changed : Bool
  steps : List StepResult

/-- The sum of what the steps of a run did. -/
def RunResult.stats (r : RunResult) : Stats := Stats.sum (r.steps.map (·.stats))

/-- The failure of a run over a file. -/
structure RunFailure where
  file : String
  cause : MigrationFailure
  deriving DecidableEq, Repr

/-- The text of the failure. -/
def RunFailure.message (e : RunFailure) : String := e.file ++ ": " ++ e.cause.message

/-- A value, what was reported while it was found, and the supply that is left. -/
structure Observed (α : Type) where
  value : α
  events : List Event
  supply : Supply

namespace Migration

/-- The class of a failure, as reported with its span. -/
def errorType (e : StepFailure) : String :=
  match e.cause.root with
  | .node (.unexpected _) => "unexpected_node_kind"
  | .noResult => "nil_result"
  | _ => "transform"

/-- Runs one step of a migration over a tree. -/
def runStep (file migration : String) (s : Step) (tree : Node) (supply : Supply) :
    Observed (Except StepFailure (StepResult × Node)) :=
  let o := s.applyWithStats tree supply
  let attrs := [Attribute.str "migration.name" migration, .str "step.name" s.name]
  let span : Span := { name := Span.step, attrs := attrs, parent := Span.migrate }
  match o.result with
  | .error e =>
    { value := .error e
      events := [.span { span with
        attrs := attrs ++ [.str "error.type" (errorType e)],
        errors := [e.message],
        status := .error "step failed" }]
      supply := o.supply }
  | .ok next =>
    let counts := [("visited", o.stats.visited.toInt), ("rebuilt", o.stats.rebuilt.toInt),
      ("replaced", o.stats.replaced.toInt)]
    { value := .ok (⟨s.name, !next.same tree, o.stats⟩, next)
      events :=
        (Telemetry.measureStep migration s.name o.stats.visited o.stats.rebuilt).map .measurement
          ++ [.record {
              level := Level.debug, message := "step applied", file := file,
              fields := [.str "migration" migration, .str "step" s.name]
                ++ counts.map fun (k, n) => .int k n },
            .span { span with attrs := attrs ++ counts.map fun (k, n) => .int ("rewrite." ++ k) n }]
      supply := o.supply }

/-- Runs the steps of a migration in order, from the results and the tree that are there. -/
def runSteps (file migration : String) (done : List StepResult) (tree : Node) :
    List Step → Supply → Observed (Except StepFailure (List StepResult × Node))
  | [], supply => ⟨.ok (done, tree), [], supply⟩
  | s :: rest, supply =>
    let o := runStep file migration s tree supply
    match o.value with
    | .error e => ⟨.error e, o.events, o.supply⟩
    | .ok (r, next) =>
      let p := runSteps file migration (done ++ [r]) next rest o.supply
      ⟨p.value, o.events ++ p.events, p.supply⟩

/-- Runs a migration over the tree of a file. -/
def run (m : Migration) (file : String) (root : Node) (supply : Supply) :
    Observed (Except RunFailure RunResult) :=
  let o := runSteps file m.name [] root m.steps supply
  let span : Span :=
    { name := Span.migrate, attrs := [.str "migration.name" m.name, .str "file.path" file] }
  let record (level : Level) (message : String) (fields : List Field) : Event :=
    .record { level := level, message := message, file := file,
              fields := .str "migration" m.name :: fields }
  match o.value with
  | .error e =>
    { value := .error ⟨file, ⟨m.name, e⟩⟩
      events := o.events ++ (Telemetry.measureRun m.name .error).map .measurement
        ++ [record Level.error "migration failed" [.str "step" e.step, .str "error" e.message],
          .span { span with errors := [e.message], status := .error "migration failed" }]
      supply := o.supply }
  | .ok (steps, tree) =>
    let changed := !tree.same root
    { value := .ok ⟨m.name, tree, changed, steps⟩
      events := o.events
        ++ (Telemetry.measureRun m.name (if changed then .changed else .unchanged)).map .measurement
        ++ [record Level.info "migration applied" [.bool "changed" changed],
          .span { span with attrs := span.attrs ++ [.bool "migration.changed" changed] }]
      supply := o.supply }

/-- Runs migrations in order, each over the tree of the one before. The results before the first
failure are kept. -/
def runAll (file : String) (root : Node) :
    List Migration → Supply → Observed (List RunResult × Option RunFailure)
  | [], supply => ⟨([], none), [], supply⟩
  | m :: rest, supply =>
    let o := m.run file root supply
    match o.value with
    | .error e => ⟨([], some e), o.events, o.supply⟩
    | .ok r =>
      let p := runAll file r.tree rest o.supply
      ⟨(r :: p.value.1, p.value.2), o.events ++ p.events, p.supply⟩

end Migration

end Lossless
