import Lossless.Proofs.Migration.Idempotence
import Lossless.Proofs.Migration.Purity

/-!
# Migration — runs report what is applied

A run of a migration gives the tree that applying it does, node by node (`run_eq_apply`), and a run
of several migrations gives what applying them in order does (`runAll_eq_applyAll`).  This holds for
all steps when both start with the same supply.

Two computations in one process do not start with the same supply.  With pure steps the numbers make
no difference: a run over `n` reports what applying does to a twin of `n` (`run_reports`,
`runAll_reports`).  The steps of a run are listed in order, each with what its pass over the tree of
the steps before it counts (`StepsReported`).  The results of several runs follow each other in the
same way, and stop at the first migration that cannot be applied (`RunsReported`).

**Agreement** (`runs_agree_with_applying`) puts both together.
-/

namespace Lossless

/-! ### Sums of counts -/

theorem Stats.foldl_add (ss : List Stats) (a : Stats) :
    ss.foldl add a = ⟨a.visited + (ss.map (·.visited)).sum, a.rebuilt + (ss.map (·.rebuilt)).sum,
      a.replaced + (ss.map (·.replaced)).sum⟩ := by
  induction ss generalizing a with
  | nil => simp
  | cons b ss ih =>
      rw [List.foldl_cons, ih]
      simp only [add, List.map_cons, List.sum_cons, Int64.add_assoc]

theorem Stats.sum_eq (ss : List Stats) :
    sum ss = ⟨(ss.map (·.visited)).sum, (ss.map (·.rebuilt)).sum, (ss.map (·.replaced)).sum⟩ := by
  rw [sum, foldl_add]
  simp

namespace Migration

variable {S : Set Node} {R : Pairing} {m n : Node} {s t : Supply} {file : String}

/-! ### Runs from the same supply -/

/-- **Running a migration is applying it.** -/
theorem run_eq_apply (mig : Migration) (file : String) (root : Node) (s : Supply) :
    mig.apply root s =
      match (mig.run file root s).value with
      | .ok r => .ok (r.tree, (mig.run file root s).supply)
      | .error e => .error e.cause := by
  have hsteps := runSteps_apply file mig.name [] root mig.steps s
  unfold run apply
  match runSteps file mig.name [] root mig.steps s, hsteps with
  | ⟨.ok (_, r), _, s'⟩, h => rw [show applySteps mig.steps root s = .ok (r, s') from h]; rfl
  | ⟨.error e, _, _⟩, h => rw [show applySteps mig.steps root s = .error e from h]; rfl

/-- **Running migrations is applying them in order.** -/
theorem runAll_eq_applyAll (ms : List Migration) (file : String) (root : Node) (s : Supply) :
    applyAll ms root s =
      match (runAll file root ms s).value with
      | (rs, none) => .ok (finalTree root rs, (runAll file root ms s).supply)
      | (_, some e) => .error e.cause := by
  induction ms generalizing root s with
  | nil => rfl
  | cons mig ms ih =>
      rw [applyAll_cons, Make.bind_apply, run_eq_apply mig file root s]
      unfold runAll
      rcases mig.run file root s with ⟨_ | r, _, s'⟩
      · rfl
      · dsimp only
        rw [ih r.tree s']
        rcases runAll file r.tree ms s' with ⟨⟨rs, _ | _⟩, _, _⟩
        · simp only [finalTree_cons]
        · rfl

/-! ### Failures -/

/-- Steps fail at the first one that does. -/
theorem applySteps_eq_error {steps : List Step} {e : StepFailure}
    (h : applySteps steps n t = .error e) :
    ∃ before st after tree t' cause, steps = before ++ st :: after ∧
      applySteps before n t = .ok (tree, t') ∧
      (st.applyWithStats tree t').result = .error ⟨st.name, cause⟩ ∧ e = ⟨st.name, cause⟩ := by
  induction steps generalizing n t with
  | nil => cases h
  | cons st steps ih =>
      -- either the first step fails, or it makes the tree on which a later one does
      rcases Make.bind_eq_error.mp h with hst | ⟨next, t₁, hst, hrest⟩
      · cases hresult : (Pass.withStats n st.transform t).result with
        | ok r =>
            have hok : (st.applyWithStats n t).result = .ok r := by
              simp only [Step.applyWithStats, hresult]
              rfl
            rw [step_apply_ok hok] at hst
            cases hst
        | error cause =>
            have hcause : (st.applyWithStats n t).result = .error ⟨st.name, cause⟩ := by
              simp only [Step.applyWithStats, hresult]
              rfl
            rw [step_apply_error hcause] at hst
            cases hst
            exact ⟨[], st, steps, n, t, cause, rfl, rfl, hcause, rfl⟩
      · obtain ⟨before, st', after, tree, t', cause, rfl, hbefore, hresult, rfl⟩ := ih hrest
        exact ⟨st :: before, st', after, tree, t', cause, rfl,
          Make.bind_eq_ok.mpr ⟨next, t₁, hst, hbefore⟩, hresult, rfl⟩

/-- A migration cannot be applied to `n`: the error is that of the first step that fails, after the
ones before it were applied. -/
structure Refused (file : String) (mig : Migration) (n : Node) (t : Supply) (e : RunFailure) :
    Prop where
  applied : mig.apply n t = .error e.cause
  stops : ∃ before st after tree t' cause, mig.steps = before ++ st :: after ∧
    applySteps before n t = .ok (tree, t') ∧
    (st.applyWithStats tree t').result = .error ⟨st.name, cause⟩ ∧
    e.message =
      file ++ ": migration " ++ mig.name ++ ": step " ++ st.name ++ ": " ++ cause.message

theorem refused_of_applySteps {mig : Migration} {e : StepFailure}
    (h : applySteps mig.steps n t = .error e) : Refused file mig n t ⟨file, mig.name, e⟩ where
  applied := by
    unfold apply
    rw [h]
    rfl
  stops := by
    obtain ⟨before, st, after, tree, t', cause, hsteps, hbefore, hresult, rfl⟩ :=
      applySteps_eq_error h
    refine ⟨before, st, after, tree, t', cause, hsteps, hbefore, hresult, ?_⟩
    have hmigration : ": migration " = ": " ++ "migration " := rfl
    have hstep : ": step " = ": " ++ "step " := rfl
    rw [hmigration, hstep]
    simp only [RunFailure.message, MigrationFailure.message, StepFailure.message,
      String.append_assoc]

/-! ### Reports -/

/-- Results of steps that are applied in order: each has the name of its step and what the pass of
the step over the tree of those before it counts. -/
inductive StepsReported : List Step → Node → Supply → List StepResult → Prop where
  | nil {n : Node} {t : Supply} : StepsReported [] n t []
  | cons {st : Step} {steps : List Step} {n next : Node} {t : Supply} {rs : List StepResult}
      (hresult : (st.applyWithStats n t).result = .ok next)
      (hrest : StepsReported steps next (st.applyWithStats n t).supply rs) :
      StepsReported (st :: steps) n t
        (⟨st.name, !next.same n, (st.applyWithStats n t).stats⟩ :: rs)

/-- What a run over `m` reports of a migration that makes `tree` of `n`. -/
structure Reported (mig : Migration) (m n : Node) (t : Supply) (r : RunResult) (tree : Node)
    (t' : Supply) : Prop where
  migration : r.migration = mig.name
  applied : mig.apply n t = .ok (tree, t')
  equal : r.tree.equal tree = true
  same : r.tree.same m = tree.same n
  changed : r.changed = true ↔ ¬r.tree.same m = true
  steps : StepsReported mig.steps n t r.steps
  stats : r.stats = ⟨(r.steps.map (·.stats.visited)).sum, (r.steps.map (·.stats.rebuilt)).sum,
    (r.steps.map (·.stats.replaced)).sum⟩

/-- What runs over `m` report of migrations that are applied to `n`, each to the tree of the one
before: a result for each of them, up to the first one that cannot be applied. -/
inductive RunsReported (file : String) :
    List Migration → Node → Node → Supply → List RunResult → Option RunFailure → Prop where
  | nil {m n : Node} {t : Supply} : RunsReported file [] m n t [] none
  | refused {mig : Migration} {ms : List Migration} {m n : Node} {t : Supply} {e : RunFailure}
      (h : Refused file mig n t e) : RunsReported file (mig :: ms) m n t [] (some e)
  | cons {mig : Migration} {ms : List Migration} {m n tree : Node} {t t' : Supply} {r : RunResult}
      {rs : List RunResult} {e : Option RunFailure} (h : Reported mig m n t r tree t')
      (hrest : RunsReported file ms r.tree tree t' rs e) :
      RunsReported file (mig :: ms) m n t (r :: rs) e

/-- The steps of a run, and applying them to a twin. -/
theorem runSteps_reports {steps : List Step} (h : ∀ st ∈ steps, st.Pure S)
    (htwins : Twins S s t R) (hmn : R m n) (file migration : String) (done : List StepResult) :
    match (runSteps file migration done m steps s).value with
    | .ok (results, r) => ∃ rs tree t' R', results = done ++ rs ∧ StepsReported steps n t rs ∧
        applySteps steps n t = .ok (tree, t') ∧ R ≤ R' ∧
        Twins S (runSteps file migration done m steps s).supply t' R' ∧ R' r tree
    | .error e => applySteps steps n t = .error e := by
  induction steps generalizing m n s t R done with
  | nil => exact ⟨[], n, t, R, (List.append_nil done).symm, .nil, rfl, le_rfl, htwins, hmn⟩
  | cons st steps ih =>
      have happly : applySteps (st :: steps) n t = (st.apply n >>= applySteps steps) t := rfl
      obtain ⟨hstats, hresult⟩ := Step.applyWithStats_mirrors (h st (.head _)) htwins hmn
      rw [happly, Make.bind_apply]
      simp only [runSteps, runStep]
      -- twins run alike, so of the four cases two cannot be
      cases hm : (st.applyWithStats m s).result <;> cases hn : (st.applyWithStats n t).result <;>
        rw [hm, hn] at hresult
      case error.error => rw [step_apply_error hn, hresult]
      case error.ok | ok.error => exact hresult.elim
      case ok.ok r r' =>
          obtain ⟨R₁, hle₁, htwins₁, hr⟩ := hresult
          rw [step_apply_ok hn]
          have hrest := ih (fun st' h' => h st' (.tail _ h')) htwins₁ hr
            (done ++ [⟨st.name, !r.same m, (st.applyWithStats m s).stats⟩])
          have hsame := htwins₁.same_eq hr (hle₁ _ _ hmn)
          dsimp only
          revert hrest
          generalize runSteps file migration _ r steps (st.applyWithStats m s).supply = o
          rcases o with ⟨_ | ⟨_, _⟩, _, _⟩
          · exact id
          · rintro ⟨rs, tree, t', R', rfl, hreported, hsteps, hle, htwins', hr'⟩
            refine ⟨_ :: rs, tree, t', R', List.append_assoc _ _ _, ?_, hsteps, hle₁.trans hle,
              htwins', hr'⟩
            rw [hstats, hsame]
            exact .cons hn hreported

/-- **A run** over a node, and applying its migration to a twin. -/
theorem run_reports {mig : Migration} (h : mig.Pure S) (htwins : Twins S s t R) (hmn : R m n)
    (file : String) :
    match (mig.run file m s).value with
    | .ok r => ∃ tree t' R', Reported mig m n t r tree t' ∧ R ≤ R' ∧
        Twins S (mig.run file m s).supply t' R' ∧ R' r.tree tree
    | .error e => Refused file mig n t e := by
  have hsteps := runSteps_reports h htwins hmn file mig.name []
  unfold run
  revert hsteps
  match runSteps file mig.name [] m mig.steps s with
  | ⟨.error _, _, _⟩ => exact refused_of_applySteps
  | ⟨.ok (results, r), _, s'⟩ =>
      rintro ⟨rs, tree, t', R', rfl, hreported, hsteps, hle, htwins', hr⟩
      refine ⟨tree, t', R', ?_, hle, htwins', hr⟩
      exact
        { migration := rfl
          applied := by unfold apply; rw [hsteps]; rfl
          equal := htwins'.equal hr
          same := htwins'.same_eq hr (hle _ _ hmn)
          changed := by simp
          steps := hreported
          stats := by rw [RunResult.stats, Stats.sum_eq]; simp only [List.map_map]; rfl }

/-- **Runs** over a node, and applying their migrations to a twin. -/
theorem runAll_reports {ms : List Migration} (h : ∀ mig ∈ ms, mig.Pure S)
    (htwins : Twins S s t R) (hmn : R m n) (file : String) :
    RunsReported file ms m n t (runAll file m ms s).value.1 (runAll file m ms s).value.2 := by
  induction ms generalizing m n s t R with
  | nil => exact .nil
  | cons mig ms ih =>
      have hrun := run_reports (h mig (.head _)) htwins hmn file
      unfold runAll
      revert hrun
      rcases mig.run file m s with ⟨_ | r, _, s'⟩
      · exact .refused
      · rintro ⟨tree, t', R', hreported, hle, htwins', hr⟩
        exact .cons hreported (ih (fun mig' h' => h mig' (.tail _ h')) htwins' hr)

/-! ### Agreement -/

/-- For every tree among the objects that are there at two supplies, and every migration, or list of
migrations, with pure steps: what a run from the one supply reports is what applying does from the
other.  A run succeeds exactly when applying does, with an equal tree that is the root itself in the
same cases; it lists all steps in order, with what each of them counts.  A run of several migrations
is the fold of applying them, up to the first one that cannot be applied.  From one supply, with any
steps, the trees are the same nodes. -/
theorem runs_agree_with_applying {S : Set Node} {s t : Supply} {root : Node} (hs : Objects S s)
    (ht : Objects S t) (hroot : root ∈ S) (file : String) :
    (∀ mig : Migration, mig.Pure S →
      match (mig.run file root s).value with
      | .ok r => ∃ tree t', Reported mig root root t r tree t'
      | .error e => Refused file mig root t e) ∧
    (∀ ms : List Migration, (∀ mig ∈ ms, mig.Pure S) →
      RunsReported file ms root root t (runAll file root ms s).value.1
        (runAll file root ms s).value.2 ∧
      match (runAll file root ms s).value with
      | (rs, none) => ∃ tree t', applyAll ms root t = .ok (tree, t') ∧
          (finalTree root rs).equal tree = true ∧
          (finalTree root rs).same root = tree.same root
      | (_, some e) => applyAll ms root t = .error e.cause) ∧
    (∀ mig : Migration, mig.apply root s =
      match (mig.run file root s).value with
      | .ok r => .ok (r.tree, (mig.run file root s).supply)
      | .error e => .error e.cause) ∧
    ∀ ms : List Migration, applyAll ms root s =
      match (runAll file root ms s).value with
      | (rs, none) => .ok (finalTree root rs, (runAll file root ms s).supply)
      | (_, some e) => .error e.cause := by
  -- at the start every object is its own twin
  have htwins := Twins.start subset_rfl hs ht
  have hpair : root = root ∧ root ∈ S := ⟨rfl, hroot⟩
  refine ⟨fun mig h => ?_, fun ms h => ⟨runAll_reports h htwins hpair file, ?_⟩,
    fun mig => run_eq_apply mig file root s, fun ms => runAll_eq_applyAll ms file root s⟩
  · have hrun := run_reports h htwins hpair file
    revert hrun
    match (mig.run file root s).value with
    | .ok r => exact fun ⟨tree, t', _, hreported, _⟩ => ⟨tree, t', hreported⟩
    | .error e => exact id
  · have hmirror := applyAll_mirrors h hpair le_rfl htwins
    rw [runAll_eq_applyAll ms file root s] at hmirror
    revert hmirror
    match (runAll file root ms s).value, applyAll ms root t with
    | (rs, none), .ok (tree, t') =>
        rintro ⟨R', hle, htwins', htree⟩
        exact ⟨tree, t', rfl, htwins'.equal htree, htwins'.same_eq htree (hle _ _ hpair)⟩
    | (_, some e), .error e' => exact fun h => congrArg _ h.symm
    | (_, none), .error _ | (_, some _), .ok _ => exact False.elim

theorem runs_agree_with_applying_plainTree :
    (Objects plainObjects 8 ∧ Objects plainObjects 30 ∧ plainTree ∈ plainObjects ∧
        ∀ mig ∈ builtins, mig.Pure plainObjects) ∧
      RunsReported "a.hack" builtins plainTree plainTree 30
        (runAll "a.hack" plainTree builtins 8).value.1
        (runAll "a.hack" plainTree builtins 8).value.2 ∧
      (runAll "a.hack" plainTree builtins 8).value.2 = none ∧
      (runAll "a.hack" plainTree builtins 8).value.1.map (·.stats) =
        [⟨12, 1, 1⟩, ⟨24, 1, 1⟩] :=
  have hlater : Objects plainObjects 30 := plainObjects_objects.mono (by decide)
  ⟨⟨plainObjects_objects, hlater, Set.mem_insert _ _, builtins_pure _⟩,
    ((runs_agree_with_applying plainObjects_objects hlater (Set.mem_insert _ _) "a.hack").2.1
      builtins (builtins_pure _)).1, by decide +kernel, by decide +kernel⟩

end Migration

end Lossless
