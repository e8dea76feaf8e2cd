import Mathlib.Logic.Basic

/-!
# What computations ensure

Commands and passes are computations on a state that may fail.  `Ensures I m Q E` says that `m`
keeps the invariant `I` of the state, gives results in `Q` and fails with errors in `E`.  It goes
through sequences, loops and handlers, so a property of a run is a property of its parts.
-/

namespace Lossless

variable {α β ε σ : Type}

/-! ### Running computations -/

theorem bind_run (m : ExceptT ε (StateM σ) α) (f : α → ExceptT ε (StateM σ) β) (s : σ) :
    (m >>= f) s = match m s with
      | (.ok a, s') => f a s'
      | (.error e, s') => (.error e, s') := by
  show ExceptT.bindCont f (m s).1 (m s).2 = _
  rcases m s with ⟨a | e, s'⟩ <;> rfl

theorem tryCatch_run (m : ExceptT ε (StateM σ) α) (f : ε → ExceptT ε (StateM σ) α) (s : σ) :
    tryCatch m f s = match m s with
      | (.ok a, s') => (.ok a, s')
      | (.error e, s') => f e s' := by
  show ExceptT.tryCatch m f s = _
  unfold ExceptT.tryCatch
  rcases hm : m s with ⟨a | e, s'⟩
  all_goals simp only [ExceptT.mk, StateT.bind, bind, hm]
  all_goals rfl

/-- A sequence gives a result when its first part gives one and the second part goes on from it. -/
theorem run_bind_eq_ok {α β ε σ : Type} {m : ExceptT ε (StateM σ) α} {f : α → ExceptT ε (StateM σ) β}
    {s s' : σ} {b : β} :
    (m >>= f) s = (.ok b, s') ↔ ∃ a t, m s = (.ok a, t) ∧ f a t = (.ok b, s') := by
  rw [bind_run]
  rcases m s with ⟨e | a, t⟩
  · refine iff_of_false nofun ?_
    rintro ⟨a, t', ⟨⟩, -⟩
  · constructor
    · intro h
      exact ⟨a, t, rfl, h⟩
    · rintro ⟨a, t, ⟨⟩, h⟩
      exact h

/-! ### Ensuring -/

/-- The outcome of a computation: a result in `Q`, or an error in `E`. -/
def Meets (Q : α → Prop) (E : ε → Prop) : Except ε α → Prop
  | .ok a => Q a
  | .error e => E e

/-- From a state in `I` a computation leads to one in `I`, with a result in `Q` or an error in
`E`. -/
def Ensures (I : σ → Prop) (m : ExceptT ε (StateM σ) α) (Q : α → Prop) (E : ε → Prop) : Prop :=
  ∀ s, I s → I (m s).2 ∧ Meets Q E (m s).1

namespace Ensures

variable {I : σ → Prop} {Q : α → Prop} {R : β → Prop} {E E' : ε → Prop}
  {m : ExceptT ε (StateM σ) α}

theorem pure {a : α} (h : Q a) : Ensures I (Pure.pure a) Q E := fun _ hs => ⟨hs, h⟩

theorem throw {e : ε} (h : E e) :
    Ensures I (MonadExcept.throw e : ExceptT ε (StateM σ) α) Q E := fun _ hs => ⟨hs, h⟩

theorem get : Ensures I (MonadState.get : ExceptT ε (StateM σ) σ) I E := fun _ hs => ⟨hs, hs⟩

theorem set {s : σ} (h : I s) :
    Ensures I (MonadStateOf.set s : ExceptT ε (StateM σ) PUnit) (fun _ => True) E :=
  fun _ _ => ⟨h, trivial⟩

/-- The second part of a sequence may rely on what the first one ensures. -/
theorem bind {f : α → ExceptT ε (StateM σ) β} (hm : Ensures I m Q E)
    (hf : ∀ a, Q a → Ensures I (f a) R E) : Ensures I (m >>= f) R E := by
  intro s hs
  obtain ⟨hI, hr⟩ := hm s hs
  rw [bind_run]
  rcases hms : m s with ⟨e | a, s'⟩
  · rw [hms] at hI hr
    exact ⟨hI, hr⟩
  · rw [hms] at hI hr
    exact hf a hr s' hI

/-- A handler sees what the computation fails with. -/
theorem handle {f : ε → ExceptT ε (StateM σ) α} (hm : Ensures I m Q E')
    (hf : ∀ e, E' e → Ensures I (f e) Q E) : Ensures I (tryCatch m f) Q E := by
  intro s hs
  obtain ⟨hI, hr⟩ := hm s hs
  rw [tryCatch_run]
  rcases hms : m s with ⟨e | a, s'⟩
  · rw [hms] at hI hr
    exact hf e hr s' hI
  · rw [hms] at hI hr
    exact ⟨hI, hr⟩

end Ensures

end Lossless
