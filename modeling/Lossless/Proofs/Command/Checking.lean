import Lossless.Command.Migrated
import Lossless.Proofs.Migration.Running

/-!
# Command — what a check says about a run

Before a run every migration can be checked, and the check of each runs on the tree of the document.
A check that passes shows that the migration is idempotent on that tree: whenever it is applied to the
tree, applying it to the result returns the result itself (`checkMigration_sound`).  The check made
its own nodes, so with pure steps this carries over to the nodes of any other run.

The run itself gives each migration the tree of the one before (`runAll_threads`).  So what a check
shows is known of the first migration, and of the later ones as long as nothing has changed
(`checked_runs_idempotent_on_document`).  It is not known of a migration whose tree another migration
has changed (`checked_runs_not_always_idempotent`).
-/

namespace Lossless

open Make (Mirrors)

variable {S A : Set Node} {R : Pairing} {m n r : Node} {s t u s' : Supply}

/-! ### Objects of a run -/

/-- What mirrors itself leaves the objects in place, and its result is one of them. -/
theorem Make.Mirrors.objects {ε : Type} {x : Make ε Node}
    (h : Mirrors S (fun a b => a = b ∧ a ∈ A) (fun R' => R') x x) (hA : Objects A s) (hS : S ⊆ A)
    (hok : x s = .ok (r, s')) : ∃ A', A ⊆ A' ∧ Objects A' s' ∧ r ∈ A' := by
  have hrun := h le_rfl (Twins.start hS hA hA)
  rw [hok] at hrun
  obtain ⟨R', hle, htwins, hr⟩ := hrun
  exact ⟨{a | ∃ b, R' a b}, fun a ha => ⟨a, hle _ _ ⟨rfl, ha⟩⟩, htwins.left, r, hr⟩

namespace Migration

/-! ### One check -/

/-- The migration can be applied to `n` whenever the objects of `S` are there, and applying it to the
result, at any later time, returns the result itself. -/
def IdempotentOn (S : Set Node) (mig : Migration) (n : Node) : Prop :=
  ∀ t, Objects S t → ∃ once t', mig.apply n t = .ok (once, t') ∧
    ∀ A u, Objects A u → S ⊆ A → once ∈ A → ∃ u', mig.apply once u = .ok (once, u')

/-- A migration is idempotent on a tree if it was so once. -/
theorem idempotentOn_of_once {mig : Migration} (h : mig.Pure S) (hS : Objects S s) (hn : n ∈ S)
    {once twice : Node} {s₁ s₂ : Supply} (honce : mig.apply n s = .ok (once, s₁))
    (htwice : mig.apply once s₁ = .ok (twice, s₂)) (hsame : once.same twice = true) :
    mig.IdempotentOn S n := by
  intro t ht
  -- a run on the tree itself mirrors the one that was checked
  have hfirst := apply_mirrors (R := fun a b => a = b ∧ a ∈ S) h ⟨rfl, hn⟩ le_rfl
    (Twins.start subset_rfl hS ht)
  rw [honce] at hfirst
  match hrun : mig.apply n t, hfirst with
  | .ok (once', t'), ⟨R₁, _, htwins₁, hR₁⟩ =>
  refine ⟨once', t', rfl, fun A u hA hSA hmem => ?_⟩
  -- and so does the second run, on the result of the first
  have hsecond := apply_mirrors (R := fun a b => R₁ a b ∧ b ∈ A) h ⟨hR₁, hmem⟩ le_rfl
    (htwins₁.later hA hSA)
  rw [htwice] at hsecond
  match hrun' : mig.apply once' u, hsecond with
  | .ok (twice', u'), ⟨R₂, hle, htwins₂, hR₂⟩ =>
      have honce₂ : R₂ once once' := hle _ _ ⟨hR₁, hmem⟩
      rw [htwins₂.same_eq honce₂ hR₂] at hsame
      obtain rfl := htwins₂.right.eq_of_same ⟨_, honce₂⟩ ⟨_, hR₂⟩ hsame
      exact ⟨u', rfl⟩

theorem checkResults_eq_ok {migration step : String} {once twice : Node} {p : Unit × Supply}
    (h : checkResults migration step once twice s = .ok p) : once.same twice = true ∧ p.2 = s := by
  unfold checkResults compareResults at h
  split at h
  · cases h
  · split at h
    · cases h
    · next hsame =>
        cases h
        exact ⟨by simpa using hsame, rfl⟩

theorem checking_eq_ok {ε α : Type} {wrap : ε → CheckFailure} {x : Make ε α} {p : α × Supply} :
    checking wrap x s = .ok p ↔ x s = .ok p := by
  constructor
  · intro h
    cases hx : x s with
    | ok q => rw [checking_ok hx] at h; cases h; rfl
    | error e => rw [checking_error hx] at h; cases h
  · exact checking_ok

/-- A check of a step adds objects. -/
theorem checkStep_objects {migration : String} {st : Step} (h : st.Pure S) (hA : Objects A s)
    (hS : S ⊆ A) (hn : n ∈ A) {p : Unit × Supply} (hok : checkStep migration st n s = .ok p) :
    ∃ A', A ⊆ A' ∧ Objects A' p.2 := by
  obtain ⟨once, s₁, honce, hrest⟩ := Make.bind_eq_ok.mp hok
  obtain ⟨twice, s₂, htwice, hrest⟩ := Make.bind_eq_ok.mp hrest
  obtain ⟨-, hp⟩ := checkResults_eq_ok hrest
  obtain ⟨A₁, hsub₁, hA₁, hmem₁⟩ := (Step.apply_mirrors h ⟨rfl, hn⟩).objects hA hS
    (checking_eq_ok.mp honce)
  obtain ⟨A₂, hsub₂, hA₂, -⟩ := (Step.apply_mirrors h ⟨rfl, hmem₁⟩).objects hA₁ (hS.trans hsub₁)
    (checking_eq_ok.mp htwice)
  exact ⟨A₂, hsub₁.trans hsub₂, hp ▸ hA₂⟩

theorem checkSteps_objects {migration : String} {steps : List Step} (h : ∀ st ∈ steps, st.Pure S)
    (hA : Objects A s) (hS : S ⊆ A) (hn : n ∈ A) {p : Unit × Supply}
    (hok : checkSteps migration n steps s = .ok p) : ∃ A', A ⊆ A' ∧ Objects A' p.2 := by
  induction steps generalizing A s with
  | nil => cases hok; exact ⟨A, subset_rfl, hA⟩
  | cons st steps ih =>
      obtain ⟨_, s₁, hst, hrest⟩ := Make.bind_eq_ok.mp hok
      obtain ⟨A₁, hsub₁, hA₁⟩ := checkStep_objects (h st (.head _)) hA hS hn hst
      obtain ⟨A₂, hsub₂, hA₂⟩ := ih (fun st' h' => h st' (.tail _ h')) hA₁ (hS.trans hsub₁)
        (hsub₁ hn) hrest
      exact ⟨A₂, hsub₁.trans hsub₂, hA₂⟩

/-- **A check that passes** shows that the migration is idempotent on the tree. -/
theorem checkMigration_sound {mig : Migration} (h : mig.Pure S) (hS : Objects S t)
    (hA : Objects A s) (hsub : S ⊆ A) (hn : n ∈ S) {p : Unit × Supply}
    (hok : checkMigration mig n s = .ok p) :
    mig.IdempotentOn S n ∧ ∃ A', A ⊆ A' ∧ Objects A' p.2 := by
  obtain ⟨_, s₀, hsteps, hrest⟩ := Make.bind_eq_ok.mp hok
  obtain ⟨once, s₁, honce, hrest⟩ := Make.bind_eq_ok.mp hrest
  obtain ⟨twice, s₂, htwice, hrest⟩ := Make.bind_eq_ok.mp hrest
  obtain ⟨hsame, hp⟩ := checkResults_eq_ok hrest
  have honce := checking_eq_ok.mp honce
  have htwice := checking_eq_ok.mp htwice
  obtain ⟨A₀, hsub₀, hA₀⟩ := checkSteps_objects h hA hsub (hsub hn) hsteps
  obtain ⟨A₁, hsub₁, hA₁, hmem₁⟩ :=
    (apply_mirrors h ⟨rfl, hsub₀ (hsub hn)⟩).objects hA₀ (hsub.trans hsub₀) honce
  obtain ⟨A₂, hsub₂, hA₂, -⟩ :=
    (apply_mirrors h ⟨rfl, hmem₁⟩).objects hA₁ ((hsub.trans hsub₀).trans hsub₁) htwice
  -- objects that came to be while the steps were checked do no harm
  have hS₀ := hA₀.subset (hsub.trans hsub₀) hS.missing hS.child
  exact ⟨idempotentOn_of_once h hS₀ hn honce htwice hsame, A₂, (hsub₀.trans hsub₁).trans hsub₂,
    hp ▸ hA₂⟩

/-! ### A run -/

/-- **A run that succeeds** gives each migration the tree of the one before, and leaves all trees
among the objects that are there. -/
theorem runAll_threads {file : String} {ms : List Migration} {rs : List RunResult}
    (h : ∀ mig ∈ ms, mig.Pure S) (hA : Objects A s) (hsub : S ⊆ A) (hn : n ∈ A)
    (hok : (runAll file n ms s).value = (rs, none)) :
    rs.length = ms.length ∧ ∃ A', A ⊆ A' ∧ Objects A' (runAll file n ms s).supply ∧
      finalTree n rs ∈ A' ∧
      ∀ (i : Nat) (mig : Migration) (r : RunResult), ms[i]? = some mig → rs[i]? = some r →
        r.tree ∈ A' ∧ finalTree n (rs.take i) ∈ A' ∧
        ∃ B t t', S ⊆ B ∧ Objects B t ∧ mig.apply (finalTree n (rs.take i)) t = .ok (r.tree, t') := by
  -- the objects grow from run to run, and the tree that is handed on is always one of them
  induction ms generalizing n s A rs with
  | nil =>
      cases hok
      exact ⟨rfl, A, subset_rfl, hA, hn, nofun⟩
  | cons mig ms ih =>
      unfold runAll at hok ⊢
      rcases hrun : mig.run file n s with ⟨_ | r, _, s₁⟩
      · rw [hrun] at hok
        cases hok
      · rw [hrun] at hok
        have happly : mig.apply n s = .ok (r.tree, s₁) := by rw [run_eq_apply mig file, hrun]
        obtain ⟨A₁, hsub₁, hA₁, hmem₁⟩ :=
          (apply_mirrors (h mig (.head _)) ⟨rfl, hn⟩).objects hA hsub happly
        dsimp only at hok ⊢
        rcases hvalue : (runAll file r.tree ms s₁).value with ⟨rs', _ | _⟩
        · rw [hvalue] at hok
          cases hok
          obtain ⟨hlen, A', hsub', hA', hfinal, hall⟩ :=
            ih (fun mig' h' => h mig' (.tail _ h')) hA₁ (hsub.trans hsub₁) hmem₁ hvalue
          refine ⟨congrArg (· + 1) hlen, A', hsub₁.trans hsub', hA', ?_, ?_⟩
          · rw [finalTree_cons]
            exact hfinal
          · intro i mig' r' hmig hr
            cases i with
            | zero =>
                cases hmig
                cases hr
                exact ⟨hsub' hmem₁, hsub' (hsub₁ hn), A, s, s₁, hsub, hA, happly⟩
            | succ i =>
                rw [List.take_succ_cons, finalTree_cons]
                exact hall i mig' r' hmig hr
        · rw [hvalue] at hok
          cases hok

end Migration

namespace Migrated

theorem checkAll_sound {ms : List Migration} (h : ∀ mig ∈ ms, mig.Pure S) (hS : Objects S t)
    (hA : Objects A s) (hsub : S ⊆ A) (hn : n ∈ S) {p : Unit × Supply}
    (hok : checkAll n ms s = .ok p) :
    (∀ mig ∈ ms, mig.IdempotentOn S n) ∧ ∃ A', A ⊆ A' ∧ Objects A' p.2 := by
  induction ms generalizing A s with
  | nil => cases hok; exact ⟨nofun, A, subset_rfl, hA⟩
  | cons mig ms ih =>
      obtain ⟨_, s₁, hmig, hrest⟩ := Make.bind_eq_ok.mp hok
      obtain ⟨hidem, A₁, hsub₁, hA₁⟩ :=
        Migration.checkMigration_sound (h mig (.head _)) hS hA hsub hn hmig
      obtain ⟨hidems, A₂, hsub₂, hA₂⟩ := ih (fun mig' h' => h mig' (.tail _ h')) hA₁
        (hsub.trans hsub₁) hrest
      exact ⟨List.forall_mem_cons.mpr ⟨hidem, hidems⟩, A₂, hsub₁.trans hsub₂, hA₂⟩

/-- A checked run of migrations that succeeds: all checks pass, and then the run succeeds. -/
theorem migrateTree_checked_eq_ok {path : String} {ms : List Migration} {rs : List RunResult}
    (h : (migrateTree true path n ms s).value = .ok rs) :
    ∃ s₁, checkAll n ms s = .ok ((), s₁) ∧
      (Migration.runAll path n ms s₁).value = (rs, none) ∧
      (migrateTree true path n ms s).supply = (Migration.runAll path n ms s₁).supply := by
  unfold migrateTree at h ⊢
  rw [if_pos rfl] at h ⊢
  match hcheck : checkAll n ms s with
  | .error _ =>
      rw [hcheck] at h
      cases h
  | .ok ((), s₁) =>
      rw [hcheck] at h
      refine ⟨s₁, rfl, ?_⟩
      dsimp only [Except.map] at h ⊢
      match hvalue : (Migration.runAll path n ms s₁).value with
      | (_, some _) =>
          rw [hvalue] at h
          cases h
      | (rs', none) =>
          rw [hvalue] at h
          cases h
          exact ⟨rfl, rfl⟩

/-! ### Two migrations of which one makes work for the other -/

/-- Makes variables of names. -/
def nameVariables : Migration where
  name := "name-variables"
  description := ""
  steps := [⟨"relabel", changeTokens "name" (·.withKind "variable")⟩]
  steps_ne_nil := by simp

/-- Marks variables, once more each time. -/
def markVariables : Migration where
  name := "mark-variables"
  description := ""
  steps := [⟨"mark", changeTokens "variable" fun t => t.withText (t.text ++ [33])⟩]
  steps_ne_nil := by simp

/-- A tree that is one name. -/
def nameTree : Node := .token ⟨1, "name", [], [97], [], 1⟩

/-- The objects that are there with it. -/
def nameObjects : Set Node := insert nameTree {.missing}

theorem nameObjects_objects : Objects nameObjects 2 :=
  Objects.start.insert (n := nameTree) rfl nofun (.token rfl)

theorem markings_pure : ∀ mig ∈ [nameVariables, markVariables], mig.Pure nameObjects := by
  intro mig hmig st hst
  rcases List.mem_cons.mp hmig with rfl | hmig
  · obtain rfl := List.mem_singleton.mp hst
    exact changeTokens_pure _ fun h => Token.withKind_mirrors h _
  · obtain rfl := List.mem_singleton.mp hmig
    obtain rfl := List.mem_singleton.mp hst
    exact changeTokens_pure _ fun h => Token.withText_append_mirrors h _

/-- The variable that is made of the name. -/
def variableTree : Node := .token ⟨4, "variable", [], [97], [], 1⟩

/-- The variable with a mark. -/
def markedTree : Node := .token ⟨5, "variable", [], [97, 33], [], 2⟩

/-- What the checked run makes of the name. -/
def nameResults : List RunResult :=
  [⟨"name-variables", variableTree, true, [⟨"relabel", true, ⟨1, 0, 1⟩⟩]⟩,
    ⟨"mark-variables", markedTree, true, [⟨"mark", true, ⟨1, 0, 1⟩⟩]⟩]

theorem migrateTree_nameTree :
    (migrateTree true "a" nameTree [nameVariables, markVariables] 2).value = .ok nameResults :=
  rfl

/-! ### What a check says -/

/-- For every tree among the objects that are there, and every list of migrations with pure steps: if
a checked run over the tree succeeds, every migration is idempotent on the tree. Each migration made
its result of the tree of the one before; where that tree is still the one that was checked, applying
the migration to its result, at any later time, returns the result itself. -/
theorem checked_runs_idempotent_on_document {S : Set Node} {s : Supply} {root : Node}
    (hS : Objects S s) (hroot : root ∈ S) {path : String} {ms : List Migration}
    (h : ∀ mig ∈ ms, mig.Pure S) {rs : List RunResult}
    (hok : (migrateTree true path root ms s).value = .ok rs) :
    (∀ mig ∈ ms, mig.IdempotentOn S root) ∧ rs.length = ms.length ∧
      ∃ A, S ⊆ A ∧ Objects A (migrateTree true path root ms s).supply ∧
        ∀ (i : Nat) (mig : Migration) (r : RunResult), ms[i]? = some mig → rs[i]? = some r →
          r.tree ∈ A ∧
          (∃ t t', mig.apply (Migration.finalTree root (rs.take i)) t = .ok (r.tree, t')) ∧
          ((Migration.finalTree root (rs.take i)).same root = true →
            ∀ A' u, Objects A' u → A ⊆ A' → ∃ u', mig.apply r.tree u = .ok (r.tree, u')) := by
  obtain ⟨s₁, hcheck, hrun, hsupply⟩ := migrateTree_checked_eq_ok hok
  obtain ⟨hidem, A₁, hsub₁, hA₁⟩ := checkAll_sound h hS hS subset_rfl hroot hcheck
  obtain ⟨hlen, A, hsub, hA, -, hall⟩ := Migration.runAll_threads h hA₁ hsub₁ (hsub₁ hroot) hrun
  refine ⟨hidem, hlen, A, hsub₁.trans hsub, hsupply ▸ hA, fun i mig r hmig hr => ?_⟩
  obtain ⟨hmem, hbefore, B, t, t', hSB, hB, happly⟩ := hall i mig r hmig hr
  refine ⟨hmem, ⟨t, t', happly⟩, fun hsame A' u hA' hAA' => ?_⟩
  -- a tree with the identity of the root is the root, on which the migration was checked
  rw [hA.eq_of_same hbefore (hsub (hsub₁ hroot)) hsame] at happly
  obtain ⟨once, t'', honce, hagain⟩ :=
    hidem mig (List.mem_of_getElem? hmig) t (hB.subset hSB hS.missing hS.child)
  rw [happly] at honce
  cases honce
  exact hagain A' u hA' ((hsub₁.trans hsub).trans hAA') (hAA' hmem)

theorem checked_runs_idempotent_on_document_nameTree :
    (Objects nameObjects 2 ∧ nameTree ∈ nameObjects ∧
        (∀ mig ∈ [nameVariables, markVariables], mig.Pure nameObjects) ∧
        (migrateTree true "a" nameTree [nameVariables, markVariables] 2).value = .ok nameResults) ∧
      markVariables.IdempotentOn nameObjects nameTree ∧
      ∃ A, nameObjects ⊆ A ∧
        Objects A (migrateTree true "a" nameTree [nameVariables, markVariables] 2).supply ∧
        ∀ A' u, Objects A' u → A ⊆ A' → ∃ u', nameVariables.apply variableTree u =
          .ok (variableTree, u') := by
  have hmem : nameTree ∈ nameObjects := Set.mem_insert _ _
  obtain ⟨hidem, -, A, hsub, hA, hall⟩ := checked_runs_idempotent_on_document nameObjects_objects
    hmem markings_pure migrateTree_nameTree
  exact ⟨⟨nameObjects_objects, hmem, markings_pure, migrateTree_nameTree⟩,
    hidem _ (.tail _ (.head _)), A, hsub, hA, (hall 0 _ _ rfl rfl).2.2 rfl⟩

/-- A check does not cover what is run: the mark is made on the variable that the migration before it
made, of which there was none in the tree that was checked. -/
theorem checked_runs_not_always_idempotent :
    ¬∀ (S : Set Node) (s : Supply) (root : Node) (path : String) (ms : List Migration)
      (rs : List RunResult), Objects S s → root ∈ S → (∀ mig ∈ ms, mig.Pure S) →
      (migrateTree true path root ms s).value = .ok rs →
      ∀ (i : Nat) (mig : Migration) (r : RunResult), ms[i]? = some mig → rs[i]? = some r →
        ∀ (A : Set Node) (u : Supply), Objects A u → S ⊆ A → r.tree ∈ A →
          ∃ u', mig.apply r.tree u = .ok (r.tree, u') := by
  intro hclaim
  have hlater : Objects nameObjects 5 := nameObjects_objects.mono (by decide)
  have hmarked : Objects (insert markedTree nameObjects) 6 :=
    hlater.insert (n := markedTree) rfl nofun (.token rfl)
  obtain ⟨u', hagain⟩ := hclaim nameObjects 2 nameTree "a" _ _ nameObjects_objects
    (Set.mem_insert _ _) markings_pure migrateTree_nameTree 1 markVariables _ rfl rfl _ 6 hmarked
    (Set.subset_insert _ _) (Set.mem_insert _ _)
  have hrun : markVariables.apply markedTree 6 =
      .ok (.token ⟨6, "variable", [], [97, 33, 33], [], 3⟩, 7) := rfl
  cases hrun.symm.trans hagain

end Migrated

end Lossless
