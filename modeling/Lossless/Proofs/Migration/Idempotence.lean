import Lossless.Migration.Idempotence
import Lossless.Migration.Runner
import Lossless.Proofs.Migration.Settling

/-!
# Migration — built-in migrations are idempotent

Running a migration gives what applying it does (`run_apply`), so a run of built-in migrations that
succeeds leaves a tree on which all their steps are quiet (`runAll_quiet`).  A run of quiet steps is
*idle*: every tree that it reports is the tree it was given, and nothing was built or replaced
(`runAll_idle`).

**Idempotence** (`builtins_idempotent`).  A run over the result of a run, with migrations drawn from
those that ran, is idle; and the check of a built-in migration passes on exactly the trees to which
the migration can be applied.
-/

namespace Lossless

/-- A step that did nothing. -/
def StepResult.Idle (r : StepResult) : Prop :=
  r.changed = false ∧ r.stats.rebuilt = 0 ∧ r.stats.replaced = 0

/-- A run that returned the tree it was given, and did nothing. -/
structure RunResult.Idle (n : Node) (r : RunResult) : Prop where
  tree : r.tree = n
  changed : r.changed = false
  steps : ∀ st ∈ r.steps, st.Idle

namespace Migration

variable {S : Set Node} {s : Supply} {n r : Node} {file : String}

/-! ### Running and applying -/

/-- Running steps gives the tree that applying them does, with the same supply. -/
theorem runSteps_apply (file migration : String) (done : List StepResult) (n : Node)
    (steps : List Step) (s : Supply) :
    match (runSteps file migration done n steps s).value with
    | .ok (_, r) =>
      applySteps steps n s = .ok (r, (runSteps file migration done n steps s).supply)
    | .error e => applySteps steps n s = .error e := by
  induction steps generalizing done n s with
  | nil => rfl
  | cons st steps ih =>
      have happly : applySteps (st :: steps) n s = (st.apply n >>= applySteps steps) s := rfl
      rw [happly, Make.bind_apply]
      simp only [runSteps, runStep]
      cases hresult : (st.applyWithStats n s).result with
      | error e =>
          rw [step_apply_error hresult]
      | ok m =>
          rw [step_apply_ok hresult]
          exact ih _ m _

/-- **Running a migration gives what applying it does.** -/
theorem run_apply {m : Migration} {result : RunResult}
    (h : (m.run file n s).value = .ok result) :
    m.apply n s = .ok (result.tree, (m.run file n s).supply) := by
  have hsteps := runSteps_apply file m.name [] n m.steps s
  unfold run at h ⊢
  cases hvalue : (runSteps file m.name [] n m.steps s).value with
  | error e =>
      simp only [hvalue] at h
      cases h
  | ok p =>
      rw [hvalue] at hsteps
      simp only [hvalue] at h ⊢
      cases h
      simp only [apply, show applySteps m.steps n s = _ from hsteps]
      rfl

/-! ### Runs that succeed -/

/-- The steps of a migration are built-in ones, and find nothing to do in a tree. -/
def QuietOn (m : Migration) (n : Node) : Prop :=
  ∃ bs : List Builtin, m.steps = bs.map Builtin.step ∧ ∀ b ∈ bs, b.Quiet n

theorem steps_of_builtin {m : Migration} (h : m ∈ builtins) :
    ∃ bs : List Builtin, m.steps = bs.map Builtin.step := by
  rcases List.mem_cons.mp h with rfl | h
  · exact ⟨[.optionalField], rfl⟩
  · obtain rfl := List.mem_singleton.mp h
    exact ⟨[.defaultColon, .caseColon], rfl⟩

/-- A built-in migration that is applied is quiet afterwards, and those stay quiet that were. -/
theorem apply_quiet {m : Migration} (hm : m ∈ builtins) (h : Ready S s n) {s' : Supply}
    (happly : m.apply n s = .ok (r, s')) :
    ∃ S', S ⊆ S' ∧ Ready S' s' r ∧ m.QuietOn r ∧ ∀ m' : Migration, m'.QuietOn n → m'.QuietOn r := by
  obtain ⟨bs, hbs⟩ := steps_of_builtin hm
  unfold apply at happly
  rw [hbs] at happly
  rcases applySteps_settles bs h with ⟨e, he, -⟩ | ⟨r', s'', S', hr, hsub, hready, -, hquiet, hkeep⟩
  · rw [he] at happly
    cases happly
  · rw [hr] at happly
    cases happly
    refine ⟨S', hsub, hready, ⟨bs, hbs, hquiet⟩, ?_⟩
    rintro m' ⟨bs', hbs', hquiet'⟩
    exact ⟨bs', hbs', fun b hb => hkeep b (hquiet' b hb)⟩

/-- The tree that a run leaves: that of the last result. -/
def finalTree (n : Node) (results : List RunResult) : Node :=
  (results.getLast?.map (·.tree)).getD n

theorem finalTree_cons (n : Node) (result : RunResult) (results : List RunResult) :
    finalTree n (result :: results) = finalTree result.tree results := by
  unfold finalTree
  rw [List.getLast?_cons]
  cases results.getLast? <;> rfl

/-- **A run of built-in migrations that succeeds** leaves all of them quiet. -/
theorem runAll_quiet {ms : List Migration} (hms : ∀ m ∈ ms, m ∈ builtins) (h : Ready S s n)
    (hrun : (runAll file n ms s).value.2 = none) :
    (∀ m ∈ ms, m.QuietOn (finalTree n (runAll file n ms s).value.1)) ∧
      ∀ m : Migration, m.QuietOn n → m.QuietOn (finalTree n (runAll file n ms s).value.1) := by
  -- what is quiet on a tree stays quiet on the results of later runs
  induction ms generalizing n s S with
  | nil => exact ⟨nofun, fun _ hm => hm⟩
  | cons m ms ih =>
      simp only [runAll] at hrun ⊢
      cases hvalue : (m.run file n s).value with
      | error e =>
          rw [hvalue] at hrun
          cases hrun
      | ok result =>
          rw [hvalue] at hrun
          obtain ⟨S', -, hready, hquiet, hkeep⟩ :=
            apply_quiet (hms m (.head _)) h (run_apply hvalue)
          obtain ⟨hall, hrest⟩ := ih (fun m' h => hms m' (.tail _ h)) hready hrun
          dsimp only
          rw [finalTree_cons]
          exact ⟨List.forall_mem_cons.mpr ⟨hrest m hquiet, hall⟩,
            fun m' hm' => hrest m' (hkeep m' hm')⟩

/-! ### Idle runs -/

theorem runSteps_idle (bs : List Builtin) (h : ∀ b ∈ bs, b.Quiet n) (file migration : String)
    (s : Supply) (done : List StepResult) :
    ∃ results, (runSteps file migration done n (bs.map Builtin.step) s).value =
        .ok (done ++ results, n) ∧
      (runSteps file migration done n (bs.map Builtin.step) s).supply = s ∧
      ∀ r ∈ results, r.Idle := by
  induction bs generalizing done with
  | nil => exact ⟨[], by simp [runSteps], rfl, nofun⟩
  | cons b bs ih =>
      obtain ⟨visited, hquiet⟩ := Builtin.applyWithStats_quiet (h b (.head _)) s
      have hstep : (runStep file migration b.step n s).value =
            .ok (⟨b.step.name, !n.same n, ⟨visited, 0, 0⟩⟩, n) ∧
          (runStep file migration b.step n s).supply = s := by
        simp [runStep, hquiet]
      obtain ⟨results, hvalue, hsupply, hidle⟩ := ih (fun b' h' => h b' (.tail _ h'))
        (done ++ [⟨b.step.name, !n.same n, ⟨visited, 0, 0⟩⟩])
      refine ⟨⟨b.step.name, !n.same n, ⟨visited, 0, 0⟩⟩ :: results, ?_, ?_, ?_⟩
      · simp only [List.map_cons, runSteps, hstep, hvalue, List.append_assoc, List.singleton_append]
      · simp only [List.map_cons, runSteps, hstep, hsupply]
      · exact List.forall_mem_cons.mpr ⟨⟨by simp [Node.same], rfl, rfl⟩, hidle⟩

theorem run_idle {m : Migration} (h : m.QuietOn n) (file : String) (s : Supply) :
    ∃ result, (m.run file n s).value = .ok result ∧ (m.run file n s).supply = s ∧
      result.Idle n := by
  obtain ⟨bs, hbs, hquiet⟩ := h
  obtain ⟨results, hvalue, hsupply, hidle⟩ := runSteps_idle bs hquiet file m.name s []
  unfold run
  simp only [hbs, hvalue, hsupply, List.nil_append]
  exact ⟨_, rfl, trivial, rfl, by simp [Node.same], hidle⟩

/-- **A run of quiet migrations is idle.** -/
theorem runAll_idle {ms : List Migration} (h : ∀ m ∈ ms, m.QuietOn n) (file : String) (s : Supply) :
    ∃ results, (runAll file n ms s).value = (results, none) ∧ results.length = ms.length ∧
      ∀ r ∈ results, r.Idle n := by
  induction ms with
  | nil => exact ⟨[], rfl, rfl, nofun⟩
  | cons m ms ih =>
      obtain ⟨result, hvalue, hsupply, hidle⟩ := run_idle (h m (.head _)) file s
      obtain ⟨results, hvalues, hlen, hidles⟩ := ih fun m' h' => h m' (.tail _ h')
      refine ⟨result :: results, ?_, congrArg (· + 1) hlen, List.forall_mem_cons.mpr ⟨hidle, hidles⟩⟩
      simp only [runAll, hvalue, hsupply, hidle.tree, hvalues]

/-! ### Checks -/

/-- Two results that are the same pass. -/
theorem checkResults_self (migration step : String) (n : Node) (s : Supply) :
    checkResults migration step n n s = .ok ((), s) := by
  have hcompare : compareResults migration step n n = .ok () := by
    simp [compareResults, Node.same]
  simp only [checkResults, hcompare]
  rfl

/-- The check of a built-in step passes on the trees that the step admits, and on no others. -/
theorem checkStep_iff (migration : String) (b : Builtin) (h : Ready S s n) :
    (∃ e, checkStep migration b.step n s = .error e ∧ ¬b.Admits n) ∨
      ∃ s' S', checkStep migration b.step n s = .ok ((), s') ∧ S ⊆ S' ∧ Objects S' s' ∧
        b.Admits n := by
  unfold checkStep
  rw [Make.bind_apply]
  obtain ⟨S', hsub, hS', ⟨e, he, hrefuse⟩ | ⟨once, honce, -, hsettled⟩⟩ := b.pass_settles h
  · rw [checking_error (step_apply_error he)]
    exact .inl ⟨_, rfl, hrefuse⟩
  · rw [checking_ok (step_apply_ok honce)]
    obtain ⟨visited, hquiet⟩ := Builtin.applyWithStats_quiet (hsettled.quiet_self h)
      (b.step.applyWithStats n s).supply
    have htwice := step_apply_ok (congrArg StepOutcome.result hquiet)
    rw [hquiet] at htwice
    refine .inr ⟨_, S', ?_, hsub, hS', hsettled.admits⟩
    dsimp only
    rw [Make.bind_apply, checking_ok htwice]
    exact checkResults_self _ _ _ _

/-- The checks of built-in steps, each on the same tree, pass when the tree admits all of them. -/
theorem checkSteps_iff (migration : String) (bs : List Builtin) (h : Ready S s n) :
    (∃ e, checkSteps migration n (bs.map Builtin.step) s = .error e ∧ ¬∀ b ∈ bs, b.Admits n) ∨
      ∃ s' S', checkSteps migration n (bs.map Builtin.step) s = .ok ((), s') ∧ S ⊆ S' ∧
        Objects S' s' ∧ ∀ b ∈ bs, b.Admits n := by
  induction bs generalizing s S with
  | nil => exact .inr ⟨s, S, rfl, subset_rfl, h.objects, nofun⟩
  | cons b bs ih =>
      rw [List.map_cons, checkSteps, Make.bind_apply]
      obtain ⟨e, he, hnot⟩ | ⟨s₁, S₁, hok, hsub₁, hS₁, hadmits⟩ := checkStep_iff migration b h
      · rw [he]
        exact .inl ⟨e, rfl, fun hall => hnot (hall b (.head _))⟩
      · rw [hok]
        dsimp only
        obtain ⟨e, he, hnot⟩ | ⟨s₂, S₂, hok₂, hsub₂, hS₂, hadmits₂⟩ := ih (h.later hsub₁ hS₁)
        · exact .inl ⟨e, he, fun hall => hnot fun b' hb' => hall b' (.tail _ hb')⟩
        · exact .inr ⟨s₂, S₂, hok₂, hsub₁.trans hsub₂, hS₂,
            List.forall_mem_cons.mpr ⟨hadmits, hadmits₂⟩⟩

/-- Quiet migrations return the tree they are applied to. -/
theorem apply_of_quiet {m : Migration} (h : m.QuietOn n) (s : Supply) : m.apply n s = .ok (n, s) := by
  obtain ⟨result, hvalue, hsupply, hidle⟩ := run_idle h "" s
  have happly := run_apply hvalue
  rwa [hsupply, hidle.tree] at happly

/-- **The check of a built-in migration** passes exactly when the migration can be applied. -/
theorem checkMigration_iff {m : Migration} (hm : m ∈ builtins) (h : Ready S s n) :
    (∃ s', checkMigration m n s = .ok ((), s')) ↔ ∃ p, m.apply n s = .ok p := by
  obtain ⟨bs, hbs⟩ := steps_of_builtin hm
  unfold checkMigration
  rw [hbs, Make.bind_apply]
  obtain ⟨e, he, hnot⟩ | ⟨s₁, S₁, hok, hsub₁, hS₁, hadmits⟩ := checkSteps_iff m.name bs h
  · -- a step that is refused fails in both
    rw [he]
    refine ⟨nofun, ?_⟩
    rintro ⟨p, hp⟩
    obtain ⟨e', he', -⟩ | ⟨_, _, _, -, -, -, hall, -⟩ := applySteps_settles bs h
    · rw [apply, hbs, he'] at hp
      cases hp
    · exact absurd hall hnot
  · rw [hok]
    have happly : ∀ {S : Set Node} {s : Supply}, Ready S s n → ∃ r s', m.apply n s = .ok (r, s') := by
      intro S s h
      obtain ⟨_, -, hnot⟩ | ⟨r, s', _, hr, -⟩ := applySteps_settles bs h
      · exact absurd hadmits hnot
      · exact ⟨r, s', by rw [apply, hbs, hr]; rfl⟩
    have hready := h.later hsub₁ hS₁
    obtain ⟨once, s₂, honce⟩ := happly hready
    -- on its own result the migration is quiet, so the second run changes nothing
    obtain ⟨S₂, -, -, hquiet, -⟩ := apply_quiet hm hready honce
    refine ⟨fun _ => ?_, fun _ => ⟨s₂, ?_⟩⟩
    · obtain ⟨r, s', hr⟩ := happly h
      exact ⟨(r, s'), hr⟩
    · dsimp only
      rw [Make.bind_apply, checking_ok honce]
      dsimp only
      rw [Make.bind_apply, checking_ok (apply_of_quiet hquiet s₂)]
      exact checkResults_self _ _ _ _

/-! ### Idempotence -/

/-- The name of a field, with a blank in front. -/
def nameToken : Node :=
  .token ⟨1, "single_quoted_string_literal", [⟨"whitespace", [32]⟩], [39, 97, 39], [], 4⟩

/-- A field of a nullable type, without a question mark. -/
def plainField : Node :=
  .composite 4 Catalog.fieldKind
    [.missing, .composite 2 Catalog.literalKind [nameToken] 4, .missing,
      .composite 3 Catalog.nullableKind [.missing, .missing] 0] 4

/-- A label that ends with a semicolon. -/
def plainLabel : Node :=
  .composite 6 Catalog.defaultKind [.missing, .token ⟨5, "semicolon", [], [59], [], 1⟩] 1

/-- Both of them. -/
def plainTree : Node := .list 7 [plainField, plainLabel] 5

/-- The objects that are there with it. -/
def plainObjects : Set Node :=
  insert plainTree (insert plainLabel (insert (.token ⟨5, "semicolon", [], [59], [], 1⟩)
    (insert plainField (insert (.composite 3 Catalog.nullableKind [.missing, .missing] 0)
      (insert (.composite 2 Catalog.literalKind [nameToken] 4) (insert nameToken {.missing}))))))

theorem plainTree_sound : plainTree.Sound (· ∈ Catalog.hack.kinds) := by
  have hname : nameToken.Sound (· ∈ Catalog.hack.kinds) := .token rfl
  have hstop : (Node.token ⟨5, "semicolon", [], [59], [], 1⟩).Sound (· ∈ Catalog.hack.kinds) :=
    .token rfl
  have hliteral : (Node.composite 2 Catalog.literalKind [nameToken] 4).Sound
      (· ∈ Catalog.hack.kinds) := .composite (Catalog.mem_hack (by decide)) rfl (by simpa using hname)
  have hnullable : (Node.composite 3 Catalog.nullableKind [.missing, .missing] 0).Sound
      (· ∈ Catalog.hack.kinds) :=
    .composite (Catalog.mem_hack (by decide)) rfl (by simpa using .missing)
  have hfield : plainField.Sound (· ∈ Catalog.hack.kinds) :=
    .composite (Catalog.mem_hack (by decide)) rfl (by simp [hliteral, hnullable, Node.Sound.missing])
  have hlabel : plainLabel.Sound (· ∈ Catalog.hack.kinds) :=
    .composite (Catalog.mem_hack (by decide)) rfl (by simp [hstop, Node.Sound.missing])
  exact .list (by simp [hfield, hlabel])

theorem plainObjects_objects : Objects plainObjects 8 := by
  have htree : plainTree.Sound fun _ => True := plainTree_sound.mono fun _ _ => trivial
  have hfield := htree.children plainField (.head _)
  have hlabel := htree.children plainLabel (.tail _ (.head _))
  have hliteral := hfield.children _ (.tail _ (.head _))
  have h₁ := Objects.start.insert (n := nameToken) rfl nofun (hliteral.children _ (.head _))
  have h₂ := h₁.insert (n := .composite 2 Catalog.literalKind [nameToken] 4) rfl
    (by simp [Node.children]) hliteral
  have h₃ := h₂.insert (n := .composite 3 Catalog.nullableKind [.missing, .missing] 0) rfl
    (by simp [Node.children]) (hfield.children _ (.tail _ (.tail _ (.tail _ (.head _)))))
  have h₄ := h₃.insert (n := plainField) rfl (by simp [Node.children, plainField]) hfield
  have h₅ := h₄.insert (n := .token ⟨5, "semicolon", [], [59], [], 1⟩) rfl nofun (.token rfl)
  have h₆ := h₅.insert (n := plainLabel) rfl (by simp [Node.children, plainLabel]) hlabel
  exact h₆.insert (n := plainTree) rfl (by simp [Node.children, plainTree]) htree

/-- For every tree of Hack kinds among the objects that are there, and every sequence of built-in
migrations that runs over it and succeeds: a run over the final tree, with any sequence of migrations
drawn from those, succeeds too. All its trees are the final tree itself, nothing is reported as
changed, and no step built or replaced a node. The check of a built-in migration passes on exactly
the trees to which it can be applied. -/
theorem builtins_idempotent {S : Set Node} {supply : Supply} {tree : Node}
    (hS : Objects S supply) (htree : tree ∈ S) (hkinds : tree.Sound (· ∈ Catalog.hack.kinds)) :
    (∀ (file : String) (ms : List Migration), (∀ m ∈ ms, m ∈ builtins) →
      (runAll file tree ms supply).value.2 = none →
        ∀ (file' : String) (ms' : List Migration) (supply' : Supply), (∀ m ∈ ms', m ∈ ms) →
          ∃ results,
            (runAll file' (finalTree tree (runAll file tree ms supply).value.1) ms' supply').value =
              (results, none) ∧
            results.length = ms'.length ∧
            ∀ r ∈ results, r.Idle (finalTree tree (runAll file tree ms supply).value.1)) ∧
    ∀ m ∈ builtins,
      (∃ supply', checkMigration m tree supply = .ok ((), supply')) ↔
        ∃ p, m.apply tree supply = .ok p := by
  have hready := Ready.of_sound hS htree hkinds
  refine ⟨fun file ms hms hrun file' ms' supply' hms' => ?_, fun m hm => checkMigration_iff hm hready⟩
  obtain ⟨hquiet, -⟩ := runAll_quiet hms hready hrun
  exact runAll_idle (fun m hm => hquiet m (hms' m hm)) file' supply'

theorem builtins_idempotent_plainTree :
    (Objects plainObjects 8 ∧ plainTree ∈ plainObjects ∧
        plainTree.Sound (· ∈ Catalog.hack.kinds)) ∧
      ((runAll "a.hack" plainTree builtins 8).value.2 = none ∧
        (runAll "a.hack" plainTree builtins 8).value.1.map (·.changed) = [true, true]) ∧
      ∃ results, (runAll "a.hack" (finalTree plainTree
          (runAll "a.hack" plainTree builtins 8).value.1) builtins 40).value = (results, none) ∧
        results.length = 2 ∧
        ∀ r ∈ results, r.Idle (finalTree plainTree (runAll "a.hack" plainTree builtins 8).value.1) :=
  have hrun : (runAll "a.hack" plainTree builtins 8).value.2 = none := by decide +kernel
  ⟨⟨plainObjects_objects, Set.mem_insert _ _, plainTree_sound⟩, ⟨hrun, by decide +kernel⟩,
    (builtins_idempotent plainObjects_objects (Set.mem_insert _ _) plainTree_sound).1 "a.hack"
      builtins (fun _ h => h) hrun "a.hack" builtins 40 fun _ h => h⟩

end Migration

end Lossless
