import Lossless.Proofs.Node.Objects
import Lossless.Proofs.Pass.Eager

/-!
# Pass — runs on objects

A pass runs among objects: those that are there when it starts, and those that it and its transform
make.  What the memory of the transform holds is described along with them (`Present`).

Transforms cannot make up objects: a call leaves all objects in place and returns one of them
(`Transform.Honest`).  They *respect structure* when two calls, one after the other, for equal nodes
with equal ancestors have equal results (`Transform.Respects`).

Two computations that run one after the other are compared in two steps.  The first one leads to
some outcome and to more objects (`Leads`); then the second one *replays* the outcome when it has the
corresponding one wherever these objects are there (`Replays`).
-/

namespace Lossless

variable {σ α β γ : Type}

/-- The objects of `S` are there, and the memory is as `J` says. -/
structure Present (J : Set Node → σ → Prop) (S : Set Node) (supply : Supply) (memory : σ) : Prop where
  objects : Objects S supply
  memory : J S memory

/-! ### Transforms -/

namespace Transform

variable (fn : Transform σ) (J : Set Node → σ → Prop)

/-- The transform is called among the objects of `S` for one of them with ancestors among them; it
gives the answer `r` and leaves the objects of `S'`. -/
def Calls (S S' : Set Node) (n : Node) (a : Ancestors)
    (r : Except Failure (Option Node)) : Prop :=
  (n ∈ S ∧ ∀ p ∈ a.chain, p ∈ S) ∧ S ⊆ S' ∧ (∀ m, r = .ok (some m) → m ∈ S') ∧
    ∃ supply memory supply' memory', Present J S supply memory ∧ Present J S' supply' memory' ∧
      fn n a (supply, memory) = (r, supply', memory')

/-- From the objects of `S₀` on, every call leaves the objects in place and returns one of those
that are there afterwards. What holds of the memory is not undone by more objects. -/
structure Honest (S₀ : Set Node) : Prop where
  mono : ∀ {S S' : Set Node} {memory : σ}, S ⊆ S' → J S memory → J S' memory
  call : ∀ {S : Set Node} {supply : Supply} {memory : σ} {n : Node} {a : Ancestors}, S₀ ⊆ S →
    Present J S supply memory → n ∈ S → (∀ p ∈ a.chain, p ∈ S) →
    ∃ S', S ⊆ S' ∧
      Present J S' (fn n a (supply, memory)).2.1 (fn n a (supply, memory)).2.2 ∧
      ∀ m, (fn n a (supply, memory)).1 = .ok (some m) → m ∈ S'

/-- Two answers with equal nodes, without a node, or with errors of one text. -/
def SameAnswer : Except Failure (Option Node) → Except Failure (Option Node) → Prop
  | .ok (some m), .ok (some n) => m.equal n = true
  | .ok none, .ok none => True
  | .error e, .error e' => e.message = e'.message
  | _, _ => False

/-- From the objects of `S₀` on, two calls for structurally equal nodes with structurally equal
ancestors have the same answer. -/
def Respects (S₀ : Set Node) : Prop :=
  ∀ {S₁ S₁' S₂ S₂' : Set Node} {n₁ n₂ : Node} {a₁ a₂ : Ancestors}
    {r₁ r₂ : Except Failure (Option Node)}, S₀ ⊆ S₁ → fn.Calls J S₁ S₁' n₁ a₁ r₁ → S₁' ⊆ S₂ →
    fn.Calls J S₂ S₂' n₂ a₂ r₂ → n₁.equal n₂ = true → Node.equalAll a₁.chain a₂.chain = true →
    SameAnswer r₁ r₂

variable {fn J} {S₀ S : Set Node}

/-- A call of an honest transform. -/
theorem Honest.calls (h : Honest fn J S₀) (hS : S₀ ⊆ S) {supply : Supply} {memory : σ}
    (hp : Present J S supply memory) {n : Node} {a : Ancestors} (hn : n ∈ S)
    (ha : ∀ p ∈ a.chain, p ∈ S) :
    ∃ S', fn.Calls J S S' n a (fn n a (supply, memory)).1 ∧
      Present J S' (fn n a (supply, memory)).2.1 (fn n a (supply, memory)).2.2 := by
  obtain ⟨S', hsub, hp', hm⟩ := h.call hS hp hn ha
  exact ⟨S', ⟨⟨hn, ha⟩, hsub, hm, _, _, _, _, hp, hp', rfl⟩, hp'⟩

end Transform

namespace Pass

variable (J : Set Node → σ → Prop)

/-! ### The first run -/

/-- Among the objects of `S` a computation leads to more objects, with an outcome that fits them. -/
def Leads (S : Set Node) (p : Pass σ α) (Post : Set Node → Except Failure α → Prop) : Prop :=
  ∀ st : PassState σ, Present J S st.supply st.memory →
    ∃ S', S ⊆ S' ∧ Present J S' (p st).2.supply (p st).2.memory ∧ Post S' (p st).1

variable {J} {S S' : Set Node}

theorem Leads.bind {Mid : Set Node → Except Failure α → Prop}
    {Post : Set Node → Except Failure β → Prop} {p : Pass σ α} {f : α → Pass σ β}
    (hp : Leads J S p Mid)
    (hok : ∀ S' a, S ⊆ S' → Mid S' (.ok a) → Leads J S' (f a) Post)
    (herr : ∀ S' e, S ⊆ S' → Mid S' (.error e) → Post S' (.error e)) :
    Leads J S (p >>= f) Post := by
  intro st hst
  obtain ⟨S₁, hsub, hst₁, hmid⟩ := hp st hst
  rw [bind_run]
  rcases hpst : p st with ⟨e | a, st₁⟩
  · rw [hpst] at hst₁ hmid
    exact ⟨S₁, hsub, hst₁, herr S₁ e hsub hmid⟩
  · rw [hpst] at hst₁ hmid
    obtain ⟨S₂, hsub₂, hst₂, hpost⟩ := hok S₁ a hsub hmid st₁ hst₁
    exact ⟨S₂, hsub.trans hsub₂, hst₂, hpost⟩

theorem Leads.pure {Post : Set Node → Except Failure α → Prop} {a : α} (h : Post S (.ok a)) :
    Leads J S (Pure.pure a) Post := fun _ hst => ⟨S, subset_rfl, hst, h⟩

/-! ### The second run -/

/-- The outcome of a run corresponds to another one: results are related in the state that the run
leaves, and errors have one text. -/
def Corresponds (Q : α → β → PassState σ → Prop) :
    Except Failure α → Except Failure β × PassState σ → Prop
  | .ok a, (.ok b, st) => Q a b st
  | .error e, (.error e', _) => e.message = e'.message
  | _, _ => False

theorem Corresponds.imp {Q Q' : α → β → PassState σ → Prop} {o : Except Failure α}
    {r : Except Failure β × PassState σ} (h : Corresponds Q o r)
    (hQ : ∀ a b st, Q a b st → Q' a b st) : Corresponds Q' o r := by
  rcases r with ⟨e' | b, st⟩ <;> cases o with
  | error e => exact h
  | ok a => first | exact h | exact hQ a b st h

variable (J)

/-- A state that a run leaves: the objects of `S` are there, and with more of them results are
related by `R`. -/
def Left (S : Set Node) (R : Set Node → α → β → Prop) (a : α) (b : β) (st : PassState σ) : Prop :=
  ∃ S', S ⊆ S' ∧ Present J S' st.supply st.memory ∧ R S' a b

/-- Wherever the objects of `S` are there, a computation has the outcome that corresponds to `o`,
with results that are related by `R`. -/
def Replays (S : Set Node) (o : Except Failure α) (q : Pass σ β)
    (R : Set Node → α → β → Prop) : Prop :=
  ∀ (S₂ : Set Node) (st : PassState σ), S ⊆ S₂ → Present J S₂ st.supply st.memory →
    Corresponds (Left J S₂ R) o (q st)

variable {J}

namespace Replays

variable {R : Set Node → α → β → Prop} {q : Pass σ β}

theorem mono {o : Except Failure α} (h : Replays J S o q R) (hS : S ⊆ S') : Replays J S' o q R :=
  fun S₂ st hsub hst => h S₂ st (hS.trans hsub) hst

theorem pure {a : α} {b : β} (h : ∀ S', S ⊆ S' → R S' a b) :
    Replays J S (.ok a) (Pure.pure b : Pass σ β) R :=
  fun S₂ _ hsub hst => ⟨S₂, subset_rfl, hst, h S₂ hsub⟩

/-- A run that fails does not go on. -/
theorem error_bind {e : Failure} {α' γ : Type} {R' : Set Node → α' → γ → Prop}
    (h : Replays J S (.error e : Except Failure α) q R) (g : β → Pass σ γ) :
    Replays J S (.error e : Except Failure α') (q >>= g) R' := by
  intro S₂ st hsub hst
  have hq := h S₂ st hsub hst
  rw [bind_run]
  rcases hqst : q st with ⟨e' | b, st'⟩
  · rw [hqst] at hq
    exact hq
  · rw [hqst] at hq
    exact hq.elim

/-- A run that gives a result goes on with it. -/
theorem ok_bind {a : α} {α' γ : Type} {o : Except Failure α'} {R' : Set Node → α' → γ → Prop}
    {g : β → Pass σ γ} (h : Replays J S (.ok a) q R)
    (hg : ∀ (S₂ : Set Node) b (st : PassState σ), S ⊆ S₂ → R S₂ a b →
      Present J S₂ st.supply st.memory → Corresponds (Left J S₂ R') o (g b st)) :
    Replays J S o (q >>= g) R' := by
  intro S₂ st hsub hst
  have hq := h S₂ st hsub hst
  rw [bind_run]
  rcases hqst : q st with ⟨e' | b, st'⟩
  · rw [hqst] at hq
    exact hq.elim
  · rw [hqst] at hq
    obtain ⟨S₃, hsub₃, hst', hR⟩ := hq
    refine (hg S₃ b st' (hsub.trans hsub₃) hR hst').imp ?_
    rintro a' c st'' ⟨S₄, hsub₄, hrest⟩
    exact ⟨S₄, hsub₃.trans hsub₄, hrest⟩

end Replays

end Pass

end Lossless
