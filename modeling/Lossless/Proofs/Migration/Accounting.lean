import Mathlib.Algebra.Ring.Int.Defs
import Lossless.Migration.Runner

/-!
# Migration — metrics account for runs

The runs of a process are started by calls of the runner, one by one or several over one file.  Every
run that is started measures, for each of its steps that was applied, what the pass of the step
counted, and then once how it ended.

* A step measures when it is applied (`runStep_ok`), so the steps of a run measure what
  their passes count, up to the first step that fails (`runSteps_measurements`).
* A run measures its applications of steps, and then its status (`Start.measurements_eq`).
* A call measures what the runs that it starts do (`Call.measurements_eq`).

**Accounting** (`metrics_account`).  Summed up over a history of calls, the instruments give the
numbers of runs that were started, that failed and that changed something, and the sums of what was
counted by applications of steps.
-/

namespace Lossless

open Telemetry (Instrument Measurement RunStatus measureRun measureStep)

/-! ### Exact sums -/

/-- A sum over those elements of a list that have a property. -/
theorem sum_map_ite {α : Type} (q : α → Bool) (f : α → Int) (xs : List α) :
    (xs.map fun x => if q x then f x else 0).sum = ((xs.filter q).map f).sum := by
  induction xs with
  | nil => rfl
  | cons x xs ih =>
      rw [List.map_cons, List.sum_cons, ih, List.filter_cons]
      split <;> simp

theorem sum_map_const {α : Type} (k : Int) (xs : List α) :
    (xs.map fun _ => k).sum = k * xs.length := by
  rw [List.map_const', List.sum_replicate_int, Int.mul_comm]

namespace Telemetry

/-- The exact sum of the measurements that are asked for. -/
def exactSum (p : Measurement → Bool) (ms : List Measurement) : Int :=
  ((ms.filter p).map (·.amount.toInt)).sum

/-- Whether a measurement is one of an instrument under labels. -/
def Measurement.under (i : Instrument) (labels : List (String × String)) (m : Measurement) : Bool :=
  m.instrument = i && m.labels = labels

/-- Whether a measurement is one of an instrument for a migration, whatever the other labels are. -/
def Measurement.about (i : Instrument) (migration : String) (m : Measurement) : Bool :=
  m.instrument = i && m.labels.contains ("migration", migration)

theorem Measurement.instrument_of_under {i : Instrument} {labels : List (String × String)}
    (m : Measurement) (h : m.under i labels = true) : m.instrument = i :=
  of_decide_eq_true (Bool.and_eq_true_iff.mp h).1

theorem Measurement.instrument_of_about {i : Instrument} {migration : String} (m : Measurement)
    (h : m.about i migration = true) : m.instrument = i :=
  of_decide_eq_true (Bool.and_eq_true_iff.mp h).1

variable {p : Measurement → Bool}

@[simp] theorem exactSum_nil : exactSum p [] = 0 := rfl

theorem exactSum_cons (m : Measurement) (ms : List Measurement) :
    exactSum p (m :: ms) = (if p m then m.amount.toInt else 0) + exactSum p ms := by
  unfold exactSum
  rw [List.filter_cons]
  split <;> simp

theorem exactSum_append (ms ns : List Measurement) :
    exactSum p (ms ++ ns) = exactSum p ms + exactSum p ns := by
  simp [exactSum]

theorem exactSum_flatMap {α : Type} (f : α → List Measurement) (xs : List α) :
    exactSum p (xs.flatMap f) = (xs.map fun x => exactSum p (f x)).sum := by
  induction xs with
  | nil => rfl
  | cons x xs ih => rw [List.flatMap_cons, exactSum_append, ih, List.map_cons, List.sum_cons]

theorem RunStatus.name_inj {s t : RunStatus} : s.name = t.name ↔ s = t := by
  cases s <;> cases t <;> simp [RunStatus.name]

theorem exactSum_measureStep (migration step : String) (visited rebuilt : Int64) :
    exactSum p (measureStep migration step visited rebuilt) =
      (if p ⟨.visited, [("migration", migration), ("step", step)], visited⟩
        then visited.toInt else 0) +
      if p ⟨.rebuilt, [("migration", migration), ("step", step)], rebuilt⟩
        then rebuilt.toInt else 0 := by
  rw [measureStep, exactSum_cons, exactSum_cons, exactSum_nil, Int.add_zero]

theorem exactSum_measureRun (migration : String) (status : RunStatus) :
    exactSum p (measureRun migration status) =
      (if p ⟨.runs, [("migration", migration), ("status", status.name)], 1⟩ then 1 else 0) +
      (if p ⟨.duration, [("migration", migration), ("status", status.name)], 1⟩ then 1 else 0) +
      if status = .error && p ⟨.errors, [("migration", migration)], 1⟩ then 1 else 0 := by
  have hone : (1 : Int64).toInt = 1 := rfl
  rw [measureRun, List.cons_append, exactSum_cons, List.cons_append, exactSum_cons,
    List.nil_append, hone, Int.add_assoc]
  by_cases herror : status = .error <;> simp [herror, exactSum_cons, exactSum_nil, hone]

end Telemetry

open Telemetry (exactSum exactSum_append exactSum_flatMap)

namespace Event

theorem measurements_append (es fs : List Event) :
    measurements (es ++ fs) = measurements es ++ measurements fs := List.filterMap_append

theorem measurements_map (ms : List Measurement) : measurements (ms.map .measurement) = ms := by
  induction ms with
  | nil => rfl
  | cons m ms ih => exact congrArg (m :: ·) ih

end Event

namespace Migration

/-! ### Steps -/

/-- A step of a migration that was applied, and what its pass did. -/
structure Application where
  migration : String
  step : String
  stats : Stats

/-- What an application measures. -/
def Application.measurements (a : Application) : List Measurement :=
  measureStep a.migration a.step a.stats.visited a.stats.rebuilt

/-- The steps that are applied in order, each to the result of the one before, up to the first one
that fails. -/
def applications (migration : String) : List Step → Node → Supply → List Application
  | [], _, _ => []
  | st :: rest, n, s =>
    let o := st.applyWithStats n s
    match o.result with
    | .error _ => []
    | .ok next => ⟨migration, st.name, o.stats⟩ :: applications migration rest next o.supply

variable {st : Step} {n next : Node} {s : Supply}

/-- **A step that fails** measures nothing. -/
theorem runStep_error (file migration : String) {e : StepFailure}
    (h : (st.applyWithStats n s).result = .error e) :
    (runStep file migration st n s).value = .error e ∧
      Event.measurements (runStep file migration st n s).events = [] := by
  simp only [runStep, h]
  exact ⟨trivial, rfl⟩

/-- **A step that is applied** measures what its pass counts. -/
theorem runStep_ok (file migration : String) (h : (st.applyWithStats n s).result = .ok next) :
    (runStep file migration st n s).value =
        .ok (⟨st.name, !next.same n, (st.applyWithStats n s).stats⟩, next) ∧
      (runStep file migration st n s).supply = (st.applyWithStats n s).supply ∧
      Event.measurements (runStep file migration st n s).events =
        Application.measurements ⟨migration, st.name, (st.applyWithStats n s).stats⟩ := by
  simp only [runStep, h]
  exact ⟨trivial, trivial, rfl⟩

/-- **The steps of a run** measure their applications. -/
theorem runSteps_measurements (file migration : String) (done : List StepResult)
    (steps : List Step) (n : Node) (s : Supply) :
    Event.measurements (runSteps file migration done n steps s).events =
      (applications migration steps n s).flatMap Application.measurements := by
  induction steps generalizing done n s with
  | nil => rfl
  | cons st steps ih =>
      cases hresult : (st.applyWithStats n s).result with
      | error e =>
          obtain ⟨hvalue, hmeasured⟩ := runStep_error file migration hresult
          simp only [runSteps, applications, hvalue, hresult]
          exact hmeasured
      | ok next =>
          obtain ⟨hvalue, hsupply, hmeasured⟩ := runStep_ok file migration hresult
          simp only [runSteps, applications, hvalue, hresult]
          rw [Event.measurements_append, hmeasured, hsupply, ih, List.flatMap_cons]

/-! ### Runs -/

section Runs

variable {m : Migration} {file : String} {root : Node}

/-- **A run that fails** measures what its steps do, and the error. -/
theorem run_error {e : StepFailure}
    (h : (runSteps file m.name [] root m.steps s).value = .error e) :
    (m.run file root s).value = .error ⟨file, m.name, e⟩ ∧
      Event.measurements (m.run file root s).events =
        Event.measurements (runSteps file m.name [] root m.steps s).events ++
          measureRun m.name .error := by
  simp only [run, h, Event.measurements_append, Event.measurements_map]
  exact ⟨trivial, List.append_nil _⟩

/-- **A run that succeeds** measures what its steps do, and whether it changed the tree. -/
theorem run_ok {results : List StepResult} {tree : Node}
    (h : (runSteps file m.name [] root m.steps s).value = .ok (results, tree)) :
    (m.run file root s).value = .ok ⟨m.name, tree, !tree.same root, results⟩ ∧
      Event.measurements (m.run file root s).events =
        Event.measurements (runSteps file m.name [] root m.steps s).events ++
          measureRun m.name (if !tree.same root then .changed else .unchanged) := by
  simp only [run, h, Event.measurements_append, Event.measurements_map]
  exact ⟨trivial, List.append_nil _⟩

end Runs

/-- A run that was started. -/
structure Start where
  file : String
  migration : Migration
  root : Node
  supply : Supply

namespace Start

/-- What the run does. -/
def observed (r : Start) : Observed (Except RunFailure RunResult) :=
  r.migration.run r.file r.root r.supply

/-- Whether the run fails. -/
def failed (r : Start) : Bool :=
  match r.observed.value with
  | .error _ => true
  | .ok _ => false

/-- Whether the run succeeds and changes the tree. -/
def changed (r : Start) : Bool :=
  match r.observed.value with
  | .error _ => false
  | .ok result => result.changed

/-- How the run ends. -/
def status (r : Start) : RunStatus :=
  if r.failed then .error else if r.changed then .changed else .unchanged

theorem status_eq_error (r : Start) : decide (r.status = .error) = r.failed := by
  unfold status
  split
  · simp [*]
  · split <;> simp [*]

theorem status_eq_changed (r : Start) : decide (r.status = .changed) = r.changed := by
  unfold status failed changed
  match r.observed.value with
  | .error _ => rfl
  | .ok result => cases h : result.changed <;> simp [h]

/-- The steps that the run applies. -/
def applications (r : Start) : List Application :=
  Migration.applications r.migration.name r.migration.steps r.root r.supply

/-- What the run measures. -/
def measurements (r : Start) : List Measurement := Event.measurements r.observed.events

/-- **A run measures** its applications of steps, and then how it ends. -/
theorem measurements_eq (r : Start) :
    r.measurements =
      r.applications.flatMap Application.measurements ++ measureRun r.migration.name r.status := by
  rw [applications, ← runSteps_measurements r.file r.migration.name []]
  cases hsteps : (runSteps r.file r.migration.name [] r.root r.migration.steps r.supply).value with
  | error e =>
      obtain ⟨hvalue, hmeasured⟩ := run_error hsteps
      simp only [measurements, status, failed, observed, hvalue, if_true]
      exact hmeasured
  | ok done =>
      obtain ⟨hvalue, hmeasured⟩ := run_ok hsteps
      simp only [measurements, status, failed, changed, observed, hvalue, Bool.false_eq_true,
        if_false]
      exact hmeasured

end Start

/-- The runs that are started over a file, each over the tree of the one before, up to the first one
that fails. -/
def starts (file : String) (root : Node) : List Migration → Supply → List Start
  | [], _ => []
  | m :: rest, s =>
    let o := m.run file root s
    ⟨file, m, root, s⟩ :: match o.value with
      | .error _ => []
      | .ok result => starts file result.tree rest o.supply

/-- **Several runs measure** what each of them does. -/
theorem runAll_measurements (file : String) (root : Node) (ms : List Migration) (s : Supply) :
    Event.measurements (runAll file root ms s).events =
      (starts file root ms s).flatMap Start.measurements := by
  induction ms generalizing root s with
  | nil => rfl
  | cons m ms ih =>
      rw [starts, List.flatMap_cons, runAll]
      cases hvalue : (m.run file root s).value with
      | error e =>
          simp only [List.flatMap_nil, List.append_nil]
          rfl
      | ok result =>
          dsimp only
          rw [Event.measurements_append, ih]
          rfl

/-- A call of the runner. -/
inductive Call where
  | run (file : String) (root : Node) (m : Migration)
  | runAll (file : String) (root : Node) (ms : List Migration)

namespace Call

/-- What is reported when a call is made. -/
def events : Call → Supply → List Event
  | .run file root m, s => (m.run file root s).events
  | .runAll file root ms, s => (Migration.runAll file root ms s).events

/-- The runs that a call starts. -/
def starts : Call → Supply → List Start
  | .run file root m, s => [⟨file, m, root, s⟩]
  | .runAll file root ms, s => Migration.starts file root ms s

/-- **A call measures** what the runs that it starts do. -/
theorem measurements_eq (call : Call) (s : Supply) :
    Event.measurements (call.events s) = (call.starts s).flatMap Start.measurements := by
  cases call with
  | run file root m => exact (List.append_nil _).symm
  | runAll file root ms => exact runAll_measurements file root ms s

end Call

/-! ### Accounting -/

/-- What a history of calls measures. Each call starts with the numbers that are left then. -/
def measured (history : List (Call × Supply)) : List Measurement :=
  history.flatMap fun (call, s) => Event.measurements (call.events s)

/-- The runs that were started in a history of calls. -/
def started (history : List (Call × Supply)) : List Start :=
  history.flatMap fun (call, s) => call.starts s

/-- The steps that were applied in a history of calls. -/
def applied (history : List (Call × Supply)) : List Application :=
  (started history).flatMap Start.applications

theorem measured_eq (history : List (Call × Supply)) :
    measured history = (started history).flatMap Start.measurements := by
  simp only [measured, started, Call.measurements_eq, List.flatMap_assoc]

/-- A sum over runs is one over their applications of steps and one over how they end. -/
theorem exactSum_runs (p : Measurement → Bool) (runs : List Start) :
    exactSum p (runs.flatMap Start.measurements) =
      ((runs.flatMap Start.applications).map fun a => exactSum p a.measurements).sum +
        (runs.map fun r => exactSum p (measureRun r.migration.name r.status)).sum := by
  induction runs with
  | nil => rfl
  | cons r runs ih =>
      rw [List.flatMap_cons, exactSum_append, ih, Start.measurements_eq, exactSum_append,
        exactSum_flatMap, List.flatMap_cons, List.map_append, List.sum_append_int, List.map_cons,
        List.sum_cons]
      omega

/-- What a history measures, when it is measured at the end of runs. -/
theorem exactSum_of_runs {p : Measurement → Bool} {q : Start → Bool}
    (hsteps : ∀ a : Application, exactSum p a.measurements = 0)
    (hruns : ∀ r : Start, exactSum p (measureRun r.migration.name r.status) = if q r then 1 else 0)
    (history : List (Call × Supply)) :
    exactSum p (measured history) = ((started history).filter q).length := by
  rw [measured_eq, exactSum_runs]
  simp only [hsteps, hruns, sum_map_ite]
  rw [sum_map_const, sum_map_const, Int.zero_mul, Int.zero_add, Int.one_mul]

/-- What a history measures, when it is measured by applications of steps. -/
theorem exactSum_of_applications {p : Measurement → Bool} {q : Application → Bool}
    {f : Application → Int}
    (hsteps : ∀ a : Application, exactSum p a.measurements = if q a then f a else 0)
    (hruns : ∀ r : Start, exactSum p (measureRun r.migration.name r.status) = 0)
    (history : List (Call × Supply)) :
    exactSum p (measured history) = (((applied history).filter q).map f).sum := by
  rw [measured_eq, exactSum_runs]
  simp only [hsteps, hruns, sum_map_ite]
  rw [sum_map_const, Int.zero_mul, Int.add_zero, applied]

section Instruments

open Telemetry

variable (name step : String) (status : RunStatus) (a : Application) (r : Start)

theorem runs_measureRun :
    exactSum (Measurement.about .runs name) (measureRun r.migration.name r.status) =
      if r.migration.name = name then 1 else 0 := by
  rw [exactSum_measureRun]
  simp [Measurement.about, eq_comm (a := name)]

theorem status_measureRun :
    exactSum (Measurement.under .runs [("migration", name), ("status", status.name)])
        (measureRun r.migration.name r.status) =
      if r.status = status && r.migration.name = name then 1 else 0 := by
  rw [exactSum_measureRun]
  simp [Measurement.under, RunStatus.name_inj, and_comm]

theorem errors_measureRun :
    exactSum (Measurement.under .errors [("migration", name)])
        (measureRun r.migration.name r.status) =
      if r.status = .error && r.migration.name = name then 1 else 0 := by
  rw [exactSum_measureRun]
  simp [Measurement.under]

/-- Applications measure nothing but numbers of nodes. -/
theorem measurements_eq_zero {p : Measurement → Bool} {i : Instrument}
    (hp : ∀ m, p m = true → m.instrument = i) (hi : i = .runs ∨ i = .errors) (a : Application) :
    exactSum p a.measurements = 0 := by
  have hnodes : ∀ m ∈ a.measurements, ¬p m = true := by
    intro m hm h
    obtain rfl := hp m h
    simp only [Application.measurements, measureStep, List.mem_cons, List.not_mem_nil,
      or_false] at hm
    rcases hm with rfl | rfl <;> rcases hi with hi | hi <;> cases hi
  rw [exactSum, List.filter_eq_nil_iff.mpr hnodes]
  rfl

/-- The end of a run measures no numbers of nodes. -/
theorem measureRun_eq_zero {i : Instrument} (hi : i = .visited ∨ i = .rebuilt)
    (labels : List (String × String)) (r : Start) :
    exactSum (Measurement.under i labels) (measureRun r.migration.name r.status) = 0 := by
  rw [exactSum_measureRun]
  rcases hi with rfl | rfl <;> simp [Measurement.under]

theorem visited_measurements :
    exactSum (Measurement.under .visited [("migration", name), ("step", step)]) a.measurements =
      if a.migration = name && a.step = step then a.stats.visited.toInt else 0 := by
  rw [Application.measurements, exactSum_measureStep]
  simp [Measurement.under]

theorem rebuilt_measurements :
    exactSum (Measurement.under .rebuilt [("migration", name), ("step", step)]) a.measurements =
      if a.migration = name && a.step = step then a.stats.rebuilt.toInt else 0 := by
  rw [Application.measurements, exactSum_measureStep]
  simp [Measurement.under]

end Instruments

/-- For every history of calls and every name of a migration: over all statuses, the counter of runs
gives the number of runs of this migration that were started; under the status of errors it gives the
number of those that failed, as the counter of errors does, and under the status of changes the number
of those that succeeded and changed the tree.  For every step, the counters of nodes give the sums of
what was counted by the passes of this step that succeeded, in whatever runs. -/
theorem metrics_account (history : List (Call × Supply)) (name : String) :
    let runs := (started history).filter (·.migration.name = name)
    exactSum (Measurement.about .runs name) (measured history) = runs.length ∧
    exactSum (Measurement.under .runs [("migration", name), ("status", "error")])
      (measured history) = (runs.filter (·.failed)).length ∧
    exactSum (Measurement.under .errors [("migration", name)])
      (measured history) = (runs.filter (·.failed)).length ∧
    exactSum (Measurement.under .runs [("migration", name), ("status", "changed")])
      (measured history) = (runs.filter (·.changed)).length ∧
    ∀ step, let passes := (applied history).filter fun a => a.migration = name && a.step = step
      exactSum (Measurement.under .visited [("migration", name), ("step", step)])
        (measured history) = (passes.map (·.stats.visited.toInt)).sum ∧
      exactSum (Measurement.under .rebuilt [("migration", name), ("step", step)])
        (measured history) = (passes.map (·.stats.rebuilt.toInt)).sum := by
  -- that a run failed or changed something is told by its status
  simp only [List.filter_filter, ← Start.status_eq_error, ← Start.status_eq_changed]
  refine ⟨?_, ?_, ?_, ?_, fun step => ⟨?_, ?_⟩⟩
  · exact exactSum_of_runs (measurements_eq_zero Measurement.instrument_of_about (.inl rfl))
      (fun r => by simpa using runs_measureRun name r) history
  · exact exactSum_of_runs (measurements_eq_zero Measurement.instrument_of_under (.inl rfl))
      (status_measureRun name .error) history
  · exact exactSum_of_runs (measurements_eq_zero Measurement.instrument_of_under (.inr rfl))
      (errors_measureRun name) history
  · exact exactSum_of_runs (measurements_eq_zero Measurement.instrument_of_under (.inl rfl))
      (status_measureRun name .changed) history
  · exact exactSum_of_applications (visited_measurements name step)
      (measureRun_eq_zero (.inl rfl) _) history
  · exact exactSum_of_applications (rebuilt_measurements name step)
      (measureRun_eq_zero (.inr rfl) _) history

end Migration

end Lossless
