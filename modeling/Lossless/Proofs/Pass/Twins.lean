import Lossless.Proofs.Node.Twins
import Lossless.Proofs.Pass.Eager

/-!
# Pass — the same pass in two runs

Two transforms mirror each other when their calls for twins below twins do
(`PureTransform.Mirrors`).  Then so do the passes with them, by induction on the tree, and both have
counted the same (`withStats_mirrors`).  In this a pass is seen as a computation that builds nodes
and whose results, and errors, come with what was counted (`Pass.counting`).
-/

namespace Lossless

open Make (Mirrored Mirrors)

variable {S : Set Node} {R : Pairing}

/-! ### Transforms -/

/-- Ancestors that are twins. -/
structure Ancestors.Twins (R : Pairing) (a b : Ancestors) : Prop where
  parent : Option.Rel R a.parent b.parent
  above : List.Forall₂ R a.above.nodes b.above.nodes

namespace Ancestors.Twins

variable {a b : Ancestors}

theorem none : Twins R {} {} := ⟨.none, .nil⟩

theorem chain (h : a.Twins R b) : List.Forall₂ R a.chain b.chain := by
  obtain ⟨p, above⟩ := a
  obtain ⟨q, above'⟩ := b
  cases h.parent with
  | none => exact .nil
  | some hpq => exact .cons hpq h.above

theorem push (h : a.Twins R b) {m n : Node} (hmn : R m n) : (a.push m).Twins R (b.push n) :=
  ⟨.some hmn, h.chain⟩

theorem mono {R' : Pairing} (h : a.Twins R b) (hle : R ≤ R') : a.Twins R' b where
  parent := by
    obtain ⟨p, above⟩ := a
    obtain ⟨q, above'⟩ := b
    cases h.parent with
    | none => exact .none
    | some hpq => exact .some (hle _ _ hpq)
  above := h.above.imp hle

end Ancestors.Twins

/-- Answers that are twins, or no answers. -/
abbrev AnswerTwins (R : Pairing) (r r' : Option Node) : Prop := Option.Rel R r r'

/-- From the twins of `R` on, the calls for twins below twins mirror each other. -/
def PureTransform.Mirrors (S : Set Node) (R : Pairing) (f g : PureTransform) : Prop :=
  ∀ ⦃R' : Pairing⦄ ⦃m n : Node⦄ ⦃a b : Ancestors⦄, R ≤ R' → R' m n → a.Twins R' b →
    Make.Mirrors S R' AnswerTwins (f m a) (g n b)

theorem PureTransform.Mirrors.mono {R' : Pairing} {f g : PureTransform} (h : f.Mirrors S R g)
    (hle : R ≤ R') : f.Mirrors S R' g :=
  fun _ _ _ _ _ hle' => h (hle.trans hle')

/-- A transform is *pure* when its calls mirror themselves: it sees which nodes are the same, and not
what their numbers are. The objects of `S` are those it may know beforehand. -/
def PureTransform.Pure (S : Set Node) (f : PureTransform) : Prop := f.Mirrors S ⊥ f

namespace Pass

/-! ### Passes as computations that build nodes -/

section Counting

variable {α β γ δ : Type}

/-- What a pass does from `stats` on. -/
def counting (p : Pass Unit α) (stats : Stats) : Make (Failure × Stats) (α × Stats) := fun supply =>
  match p ⟨supply, stats, ()⟩ with
  | (.ok a, st) => .ok ((a, st.stats), st.supply)
  | (.error e, st) => .error (e, st.stats)

theorem counting_bind (p : Pass Unit α) (f : α → Pass Unit β) (stats : Stats) :
    counting (p >>= f) stats = counting p stats >>= fun r => counting (f r.1) r.2 := by
  funext supply
  rw [Make.bind_apply]
  simp only [counting, bind_run]
  rcases p ⟨supply, stats, ()⟩ with ⟨_ | _, _⟩ <;> rfl

/-- Passes that mirror each other, with results in `Q`, and that count the same. -/
def Mirrors (S : Set Node) (R : Pairing) (Q : Pairing → α → β → Prop) (p : Pass Unit α)
    (q : Pass Unit β) : Prop :=
  ∀ stats, Make.Mirrors S R (fun R' r r' => Q R' r.1 r'.1 ∧ r.2 = r'.2) (counting p stats)
    (counting q stats)

variable {Q : Pairing → α → β → Prop} {P : Pairing → γ → δ → Prop} {p : Pass Unit α}
  {q : Pass Unit β}

theorem Mirrors.pure {a : α} {b : β} (h : ∀ {R'}, R ≤ R' → Q R' a b) :
    Mirrors S R Q (Pure.pure a) (Pure.pure b) :=
  fun _ R' _ _ hle htwins => ⟨R', le_rfl, htwins, h hle, rfl⟩

theorem Mirrors.bind {f : α → Pass Unit γ} {g : β → Pass Unit δ} (h : Mirrors S R Q p q)
    (hf : ∀ {R' a b}, R ≤ R' → Q R' a b → Mirrors S R' P (f a) (g b)) :
    Mirrors S R P (p >>= f) (q >>= g) := by
  intro stats
  rw [counting_bind, counting_bind]
  refine (h stats).bind fun {R' r r'} hle hQ => ?_
  obtain ⟨hQ, hstats⟩ := hQ
  rw [← hstats]
  exact hf hle hQ r.2

theorem Mirrors.of_twins (h : ∀ {R' s t}, R ≤ R' → Twins S s t R' → Mirrors S R' Q p q) :
    Mirrors S R Q p q :=
  fun stats => .of_twins fun hle htwins => h hle htwins stats

end Counting

/-! ### One node -/

variable {f g : PureTransform} {m n : Node} {a b : Ancestors}

/-- **One call** and what the pass makes of its answer. -/
theorem apply_mirrors (h : f.Mirrors S R g) (hmn : R m n) (hab : a.Twins R b) :
    Mirrors S R (fun R' => R') (apply f.lift a m) (apply g.lift b n) := by
  intro stats R' s t hle htwins
  have hmn' := hle _ _ hmn
  have hkind := (htwins.looks hmn').kind_eq
  have hcall := h hle hmn' (hab.mono hle) le_rfl htwins
  simp only [counting, apply_run, PureTransform.lift]
  match f m a s, g n b t, hcall with
  | .error e, .error _, rfl =>
      simp only [answer, hkind]
      rfl
  | .ok (none, s'), .ok (none, t'), ⟨R₁, _, _, .none⟩ =>
      simp only [answer, hkind]
      rfl
  | .ok (some r, s'), .ok (some r', t'), ⟨R₁, hle₁, htwins₁, .some hr⟩ =>
      refine ⟨R₁, hle₁, htwins₁, hr, ?_⟩
      simp only [Stats.afterCall, htwins₁.same_eq hr (hle₁ _ _ hmn')]

/-- With children that changed a node is rebuilt, and counted when that succeeds. -/
theorem counting_regrow_some (m : Node) (cs : List Node) (stats : Stats) (s : Supply) :
    counting (regrow (σ := Unit) m (some cs)) stats s = match m.rebuild (cs.map some) s with
      | .ok (m', s') => .ok ((m', { stats with rebuilt := stats.rebuilt + 1 }), s')
      | .error e => .error (.rebuilding m.kind (.node e), stats) := by
  simp only [counting, regrow, bind_run, tryCatch_run, making, orFail, count]
  cases m.rebuild (cs.map some) s <;> rfl

theorem regrow_mirrors (hmn : R m n) {changed changed' : Option (List Node)}
    (h : Option.Rel (List.Forall₂ R) changed changed') :
    Mirrors S R (fun R' => R') (regrow (σ := Unit) m changed) (regrow n changed') := by
  cases h with
  | none => exact .pure fun hle => hle _ _ hmn
  | @some cs ds hcs =>
      intro stats R' s t hle htwins
      have hkind := (htwins.looks (hle _ _ hmn)).kind_eq
      have hmake := Node.rebuild_mirrors hmn hcs hle htwins
      rw [counting_regrow_some, counting_regrow_some, hkind]
      match m.rebuild (cs.map some) s, n.rebuild (ds.map some) t, hmake with
      | .error _, .error _, rfl => rfl
      | .ok _, .ok _, ⟨R₁, hle₁, htwins₁, hR⟩ => exact ⟨R₁, hle₁, htwins₁, hR, rfl⟩

theorem changes_twins {s t : Supply} (htwins : Twins S s t R) {cs ds rs rs' : List Node}
    (hcs : List.Forall₂ R cs ds) (hrs : List.Forall₂ R rs rs') :
    Option.Rel (List.Forall₂ R) (changes cs rs) (changes ds rs') := by
  induction hcs generalizing rs rs' with
  | nil => exact .none
  | @cons c d cs ds hcd hcs ih =>
      cases hrs with
      | nil => exact .none
      | @cons r r' rs rs' hr hrs =>
          simp only [changes, htwins.same_eq hr hcd]
          split
          · match changes cs rs, changes ds rs', ih hrs with
            | none, none, .none => exact .none
            | some _, some _, .some h => exact .some (.cons hcd h)
          · exact .some (.cons hr hrs)

theorem inner_mirrors (h : f.Mirrors S R g) (hmn : R m n) (hab : a.Twins R b) {cs ds : List Node}
    (hcs : List.Forall₂ R cs ds) {p q : Pass Unit (List Node)}
    (hpq : Mirrors S R (fun R' => List.Forall₂ R') p q) :
    Mirrors S R (fun R' => R')
      (do apply f.lift a (← regrow m (changes cs (← p))))
      (do apply g.lift b (← regrow n (changes ds (← q)))) := by
  refine hpq.bind fun {R₁ rs rs'} hle₁ hrs => ?_
  refine Mirrors.of_twins fun {R₂ _ _} hle₂ htwins => ?_
  have hchanges := changes_twins htwins (hcs.imp (hle₁.trans hle₂)) (hrs.imp hle₂)
  refine (regrow_mirrors ((hle₁.trans hle₂) _ _ hmn) hchanges).bind fun {R₃ _ _} hle₃ hr => ?_
  have hle := (hle₁.trans hle₂).trans hle₃
  exact apply_mirrors (h.mono hle) hr (hab.mono hle)

/-! ### Whole trees -/

mutual
/-- **A pass** with transforms that mirror each other, over twins. -/
theorem eager_mirrors : ∀ (m : Node) {R : Pairing} {n : Node} {a b : Ancestors}, f.Mirrors S R g →
    R m n → a.Twins R b → Mirrors S R (fun R' => R') (eager f.lift a m) (eager g.lift b n)
  | .missing, R, n, a, b, h, hmn, hab => .of_twins fun hle htwins => by
      have hcall := apply_mirrors (h.mono hle) (hle _ _ hmn) (hab.mono hle)
      cases htwins.looks (hle _ _ hmn)
      exact hcall
  | .token t, R, n, a, b, h, hmn, hab => .of_twins fun hle htwins => by
      have hcall := apply_mirrors (h.mono hle) (hle _ _ hmn) (hab.mono hle)
      cases htwins.looks (hle _ _ hmn)
      exact hcall
  | .list id items w, R, n, a, b, h, hmn, hab => .of_twins fun {R' _ _} hle htwins => by
      have hmn' := hle _ _ hmn
      have hchildren := htwins.children hmn'
      have hall := eagerAll_mirrors items (h.mono hle) hchildren ((hab.mono hle).push hmn')
      have hinner := inner_mirrors (h.mono hle) hmn' (hab.mono hle) hchildren hall
      cases htwins.looks hmn'
      exact hinner
  | .composite id k cs w, R, n, a, b, h, hmn, hab => .of_twins fun {R' _ _} hle htwins => by
      have hmn' := hle _ _ hmn
      have hchildren := htwins.children hmn'
      have hall := eagerAll_mirrors cs (h.mono hle) hchildren ((hab.mono hle).push hmn')
      have hinner := inner_mirrors (h.mono hle) hmn' (hab.mono hle) hchildren hall
      cases htwins.looks hmn'
      exact hinner

theorem eagerAll_mirrors : ∀ (cs : List Node) {R : Pairing} {ds : List Node} {a b : Ancestors},
    f.Mirrors S R g → List.Forall₂ R cs ds → a.Twins R b →
      Mirrors S R (fun R' => List.Forall₂ R') (eagerAll f.lift a cs) (eagerAll g.lift b ds)
  | [], _, _, _, _, _, .nil, _ => .pure fun _ => .nil
  | c :: cs, R, _, a, b, h, .cons hcd hcs, hab => by
      refine (eager_mirrors c h hcd hab).bind fun {R₁ r r'} hle₁ hr => ?_
      refine (eagerAll_mirrors cs (h.mono hle₁) (hcs.imp hle₁) (hab.mono hle₁)).bind
        fun {R₂ rs rs'} hle₂ hrs => ?_
      exact .pure fun hle₃ => .cons ((hle₂.trans hle₃) _ _ hr) (hrs.imp hle₃)
end

/-- What a pass over a whole tree gives and counts, as a computation that builds nodes. -/
theorem counting_eager (root : Node) (f : PureTransform) (supply : Supply) :
    counting (eager f.lift {} root) {} supply =
      let o := withStats root f supply
      match o.result with
      | .ok r => .ok ((r, o.stats), o.supply)
      | .error e => .error (e, o.stats) := by
  have hbelow := below_eq root (f.lift (σ := Unit)) {} supply ()
  simp only [withStats, whole, hbelow, run, counting]
  rcases eager f.lift {} root ⟨supply, {}, ()⟩ with ⟨_ | _, _⟩ <;> rfl

/-- **Passes over twins** have twins as results, or the same error, and have counted the same. -/
theorem withStats_mirrors (h : f.Mirrors S R g) (hmn : R m n) {s t : Supply}
    (htwins : Twins S s t R) :
    (withStats m f s).stats = (withStats n g t).stats ∧
      match (withStats m f s).result, (withStats n g t).result with
      | .ok r, .ok r' =>
        ∃ R', R ≤ R' ∧ Twins S (withStats m f s).supply (withStats n g t).supply R' ∧ R' r r'
      | .error e, .error e' => e = e'
      | _, _ => False := by
  have hmirror := eager_mirrors m h hmn .none {} le_rfl htwins
  rw [counting_eager, counting_eager] at hmirror
  match withStats m f s, withStats n g t, hmirror with
  | ⟨.error _, _, _, _⟩, ⟨.error _, _, _, _⟩, h => exact ⟨congrArg Prod.snd h, congrArg Prod.fst h⟩
  | ⟨.ok _, _, _, _⟩, ⟨.ok _, _, _, _⟩, ⟨R', hle, htwins', hr, hstats⟩ =>
      exact ⟨hstats, R', hle, htwins', hr⟩

/-- Putting one object in the place of another one. -/
theorem substitution_mirrors {old old' new new' : Node} (hold : R old old') (hnew : R new new') :
    (substitution old new).Mirrors S R (substitution old' new') := by
  intro R₁ m n a b hle₁ hmn _ R₂ s t hle₂ htwins
  have hle := hle₁.trans hle₂
  refine ⟨R₂, le_rfl, htwins, ?_⟩
  rw [htwins.same_eq (hle₂ _ _ hmn) (hle _ _ hold)]
  split
  · exact .some (hle _ _ hnew)
  · exact .some (hle₂ _ _ hmn)

theorem substitution_pure {old new : Node} (hold : old ∈ S) (hnew : new ∈ S) :
    (substitution old new).Pure S := by
  intro R m n a b _ hmn hab
  refine .of_twins fun hle htwins => ?_
  exact substitution_mirrors (htwins.known old hold) (htwins.known new hnew) le_rfl (hle _ _ hmn)
    (hab.mono hle)

/-- One object put in the place of another one in a tree. -/
theorem replace_mirrors {old old' new new' : Node} (hmn : R m n) (hold : R old old')
    (hnew : R new new') :
    Make.Mirrors S R (fun R' => R') (replace m (some old) (some new))
      (replace n (some old') (some new')) := by
  intro R' s t hle htwins
  -- twins of the old and the new node make twins of the substitution
  have hsubst := substitution_mirrors (S := S) (hle _ _ hold) (hle _ _ hnew)
  obtain ⟨-, h⟩ := withStats_mirrors hsubst (hle _ _ hmn) htwins
  simp only [replace]
  cases hm : (withStats m (substitution old new) s).result with
  | ok r =>
      cases hn : (withStats n (substitution old' new') t).result with
      | ok r' =>
          rw [hm, hn] at h
          exact h
      | error e' =>
          rw [hm, hn] at h
          exact h.elim
  | error e =>
      cases hn : (withStats n (substitution old' new') t).result with
      | ok r' =>
          rw [hm, hn] at h
          exact h.elim
      | error e' =>
          rw [hm, hn] at h
          obtain rfl : e = e' := h
          rfl

end Pass

end Lossless
