import Lossless.Proofs.Lists
import Lossless.Proofs.Node.Built
import Lossless.Proofs.Node.Objects
import Mathlib.Order.BooleanAlgebra.Basic

/-!
# Node — the same objects in two runs

A computation that runs twice builds the same nodes twice, with other numbers.  A relation pairs the
objects of the two runs that stand for each other, its *twins* (`Twins`): they agree in all but
their numbers, their children are twins, and no object has two twins.  The objects that were there
before both runs are their own twins.

A computation *mirrors* another one when, from states with twins, both have results that correspond,
in states with more twins, or both fail with the same error (`Make.Mirrors`).  This goes through
sequences (`Make.Mirrors.bind`), and the operations on nodes mirror themselves: a pair of twins is
added for the nodes that both sides build (`Twins.add`).
-/

namespace Lossless

/-! ### Twins -/

/-- A relation between the objects of two runs. -/
abbrev Pairing := Node → Node → Prop

/-- The same node up to its number, with children that are paired. -/
inductive Node.Matches (R : Pairing) : Node → Node → Prop where
  | missing : Matches R .missing .missing
  | token (t : Token) (id : Nat) : Matches R (.token t) (.token { t with id })
  | list {items items' : List Node} (id id' w : Nat) (h : List.Forall₂ R items items') :
      Matches R (.list id items w) (.list id' items' w)
  | composite {cs cs' : List Node} (id id' : Nat) (k : Kind) (w : Nat) (h : List.Forall₂ R cs cs') :
      Matches R (.composite id k cs w) (.composite id' k cs' w)

namespace Node.Matches

variable {R R' : Pairing} {m n : Node}

theorem mono (hle : R ≤ R') (h : m.Matches R n) : m.Matches R' n := by
  cases h with
  | missing => exact .missing
  | token t id => exact .token t id
  | list id id' w h => exact .list id id' w (h.imp hle)
  | composite id id' k w h => exact .composite id id' k w (h.imp hle)

theorem children (h : m.Matches R n) : List.Forall₂ R m.children n.children := by
  cases h with
  | missing | token _ _ => exact .nil
  | list _ _ _ hc | composite _ _ _ _ hc => exact hc

theorem nodeClass_eq (h : m.Matches R n) : m.nodeClass = n.nodeClass := by cases h <;> rfl

theorem kind_eq (h : m.Matches R n) : m.kind = n.kind := by cases h <;> rfl

theorem width_eq (h : m.Matches R n) : m.width = n.width := by cases h <;> rfl

theorem isMissing_eq (h : m.Matches R n) : m.isMissing = n.isMissing := by cases h <;> rfl

end Node.Matches

/-- The objects of two runs that stand for each other, in states with the supplies `s` and `t`. The
objects of `S` were there before the runs. -/
structure Twins (S : Set Node) (s t : Supply) (R : Pairing) : Prop where
  known : ∀ n ∈ S, R n n
  looks : ∀ {m n : Node}, R m n → m.Matches R n
  unique : ∀ {m n m' n' : Node}, R m n → R m' n' → (m = m' ↔ n = n')
  left : Objects {m | ∃ n, R m n} s
  right : Objects {n | ∃ m, R m n} t

/-- One more pair. -/
def Pairing.add (R : Pairing) (m n : Node) : Pairing := fun a b => R a b ∨ a = m ∧ b = n

theorem Pairing.le_add (R : Pairing) (m n : Node) : R ≤ R.add m n := fun _ _ => .inl

/-- One run's part of adding a pair: one more object. -/
theorem Objects.add_pair {R : Pairing} {m n : Node} {s : Supply} (h : Objects {a | ∃ b, R a b} s)
    (hm : m.id = s) (hsound : m.Sound fun _ => True) {cs : List Node}
    (hc : List.Forall₂ R m.children cs) : Objects {a | ∃ b, R.add m n a b} (s + 1) := by
  have heq : {a | ∃ b, R.add m n a b} = Insert.insert m {a | ∃ b, R a b} := by
    ext a
    constructor
    · rintro ⟨b, hab | ⟨rfl, rfl⟩⟩
      · exact .inr ⟨b, hab⟩
      · exact .inl rfl
    · rintro (rfl | ⟨b, hab⟩)
      · exact ⟨n, .inr ⟨rfl, rfl⟩⟩
      · exact ⟨b, .inl hab⟩
  rw [heq]
  refine h.insert hm (fun c hmem => ?_) hsound
  obtain ⟨d, -, hcd⟩ := exists_of_forall₂ hc c hmem
  exact ⟨d, hcd⟩

namespace Twins

variable {S : Set Node} {s t : Supply} {R : Pairing} {m n m' n' : Node}

/-- In the beginning every object is its own twin. -/
theorem start {A : Set Node} (hS : S ⊆ A) (hs : Objects A s) (ht : Objects A t) :
    Twins S s t fun m n => m = n ∧ m ∈ A where
  known n hn := ⟨rfl, hS hn⟩
  looks := by
    intro n n' h
    obtain ⟨rfl, hn⟩ := h
    -- every object is its own twin, so its children are
    have hself : ∀ cs : List Node, (∀ c ∈ cs, c ∈ A) →
        List.Forall₂ (fun m n => m = n ∧ m ∈ A) cs cs :=
      fun cs hcs => List.forall₂_same.mpr fun c hc => ⟨rfl, hcs c hc⟩
    have hc := hs.child n hn
    cases n with
    | missing => exact .missing
    | token t => exact .token t t.id
    | list id items w => exact .list id id w (hself items hc)
    | composite id k cs w => exact .composite id id k w (hself cs hc)
  unique := by
    rintro m - m' - ⟨rfl, -⟩ ⟨rfl, -⟩
    exact Iff.rfl
  left := by simpa using hs
  right := by
    have heq : {n | ∃ m, m = n ∧ m ∈ A} = A := by ext; simp
    rwa [heq]

theorem missing (h : Twins S s t R) : R .missing .missing := by
  obtain ⟨n, hn⟩ := h.left.missing
  cases h.looks hn
  exact hn

theorem children (h : Twins S s t R) (hmn : R m n) : List.Forall₂ R m.children n.children :=
  (h.looks hmn).children

/-- Two objects are the same when their twins are. -/
theorem same_eq (h : Twins S s t R) (hmn : R m n) (hmn' : R m' n') :
    m.same m' = n.same n' := by
  rw [Bool.eq_iff_iff]
  constructor
  · intro hs
    obtain rfl := h.left.eq_of_same ⟨n, hmn⟩ ⟨n', hmn'⟩ hs
    obtain rfl := (h.unique hmn hmn').mp rfl
    simp [Node.same]
  · intro hs
    obtain rfl := h.right.eq_of_same ⟨m, hmn⟩ ⟨m', hmn'⟩ hs
    obtain rfl := (h.unique hmn hmn').mpr rfl
    simp [Node.same]

/-- **Two new nodes that match** are one more pair of twins. -/
theorem add (h : Twins S s t R) (hm : m.id = s) (hn : n.id = t) (hmn : m.Matches R n)
    (hsm : m.Sound fun _ => True) (hsn : n.Sound fun _ => True) :
    Twins S (s + 1) (t + 1) (R.add m n) where
  known a ha := .inl (h.known a ha)
  looks := by
    rintro a b (hab | ⟨rfl, rfl⟩)
    · exact (h.looks hab).mono (R.le_add m n)
    · exact hmn.mono (R.le_add _ _)
  unique := by
    -- the numbers of the new nodes are not in use
    have fresh : ∀ {a b : Node}, R a b → a ≠ m ∧ b ≠ n := by
      intro a b hab
      have ha := h.left.below a ⟨b, hab⟩
      have hb := h.right.below b ⟨a, hab⟩
      refine ⟨?_, ?_⟩ <;> rintro rfl <;> omega
    rintro a b a' b' (hab | ⟨rfl, rfl⟩) (hab' | ⟨rfl, rfl⟩)
    · exact h.unique hab hab'
    · exact iff_of_false (fresh hab).1 (fresh hab).2
    · exact iff_of_false (fresh hab').1.symm (fresh hab').2.symm
    · exact iff_of_true rfl rfl
  left := h.left.add_pair hm hsm hmn.children
  right := by
    have heq : {b | ∃ a, R.add m n a b} = {b | ∃ a, Pairing.add (flip R) n m b a} := by
      simp only [Pairing.add, flip, and_comm]
    rw [heq]
    exact h.right.add_pair (R := flip R) hn hsn hmn.children.flip

theorem sound_left (h : Twins S s t R) {cs ds : List Node} (hcs : List.Forall₂ R cs ds) :
    ∀ c ∈ cs, c.Sound fun _ => True := by
  intro c hc
  obtain ⟨d, -, hcd⟩ := exists_of_forall₂ hcs c hc
  exact h.left.sound c ⟨d, hcd⟩

theorem sound_right (h : Twins S s t R) {cs ds : List Node} (hcs : List.Forall₂ R cs ds) :
    ∀ d ∈ ds, d.Sound fun _ => True := by
  intro d hd
  obtain ⟨c, -, hcd⟩ := exists_of_forall₂_right hcs d hd
  exact h.right.sound d ⟨c, hcd⟩

/-- Objects of the second run that stay, while the others go: they keep their twins. -/
theorem later {A : Set Node} {u : Supply} (h : Twins S s t R) (hA : Objects A u) (hS : S ⊆ A) :
    Twins S s u fun a b => R a b ∧ b ∈ A := by
  -- the children of objects are objects, so the twins of the children are among them
  have hchildren : ∀ {a b : Node}, R a b → b ∈ A →
      List.Forall₂ (fun a b => R a b ∧ b ∈ A) a.children b.children := by
    intro a b hab hb
    have hall := (List.forall₂_and_left _ _).mpr ⟨hA.child b hb, (h.children hab).flip⟩
    exact hall.flip.imp fun _ _ hcd => ⟨hcd.2, hcd.1⟩
  have hlooks : ∀ {a b : Node}, R a b ∧ b ∈ A → a.Matches (fun a b => R a b ∧ b ∈ A) b := by
    intro a b hab
    have hc := hchildren hab.1 hab.2
    cases h.looks hab.1 with
    | missing => exact .missing
    | token t id => exact .token t id
    | list id id' w _ => exact .list id id' w hc
    | composite id id' k w _ => exact .composite id id' k w hc
  refine ⟨fun n hn => ⟨h.known n hn, hS hn⟩, hlooks, fun hab hab' => h.unique hab.1 hab'.1, ?_, ?_⟩
  · refine h.left.subset (fun a ⟨b, hab, _⟩ => ⟨b, hab⟩) ⟨.missing, h.missing, hA.missing⟩ ?_
    rintro a ⟨b, hab, hb⟩ c hc
    obtain ⟨d, -, hcd⟩ := exists_of_forall₂ (hchildren hab hb) c hc
    exact ⟨d, hcd⟩
  · refine hA.subset (fun b ⟨_, _, hb⟩ => hb) ⟨.missing, h.missing, hA.missing⟩ ?_
    rintro b ⟨a, hab, hb⟩ d hd
    obtain ⟨c, -, hcd, hd'⟩ := exists_of_forall₂_right (hchildren hab hb) d hd
    exact ⟨c, hcd, hd'⟩

theorem totalWidth_eq (h : Twins S s t R) {cs ds : List Node} (hcs : List.Forall₂ R cs ds) :
    Node.totalWidth cs = Node.totalWidth ds := by
  induction hcs with
  | nil => rfl
  | cons hcd _ ih => rw [Node.totalWidth_cons, Node.totalWidth_cons, ih, (h.looks hcd).width_eq]

theorem alikeAll {cs ds : List Node} (h : List.Forall₂ R cs ds)
    (halike : ∀ c ∈ cs, ∀ d, R c d → Node.Alike c d) : Node.AlikeAll cs ds := by
  induction h with
  | nil => exact .nil
  | cons hcd _ ih =>
      exact .cons (halike _ (.head _) _ hcd) (ih fun c hc => halike c (.tail _ hc))

theorem alike (h : Twins S s t R) (hmn : R m n) : Node.Alike m n := by
  induction m using Node.induct generalizing n with
  | missing =>
      cases h.looks hmn
      exact .missing
  | token _ =>
      cases h.looks hmn
      exact .token rfl rfl rfl rfl
  | list _ _ _ ih =>
      cases h.looks hmn with
      | list _ _ _ hc => exact .list (alikeAll hc fun c hm d hcd => ih c hm hcd)
  | composite _ _ _ _ ih =>
      cases h.looks hmn with
      | composite _ _ _ _ hc => exact .composite rfl (alikeAll hc fun c hm d hcd => ih c hm hcd)

/-- Twins are structurally equal. -/
theorem equal (h : Twins S s t R) (hmn : R m n) : m.equal n = true :=
  (h.alike hmn).equal (h.left.sound m ⟨n, hmn⟩) (h.right.sound n ⟨m, hmn⟩)

end Twins

/-! ### Computations side by side -/

namespace Make

variable {ε α β γ δ : Type}

/-- Outcomes that correspond: results that are related by `Q` in states with more twins than those of
`R`, or the same error. -/
def Mirrored (S : Set Node) (R : Pairing) (Q : Pairing → α → β → Prop) :
    Except ε (α × Supply) → Except ε (β × Supply) → Prop
  | .ok (a, s), .ok (b, t) => ∃ R', R ≤ R' ∧ Twins S s t R' ∧ Q R' a b
  | .error e, .error e' => e = e'
  | _, _ => False

/-- From states with the twins of `R`, and more, two computations have corresponding outcomes. -/
def Mirrors (S : Set Node) (R : Pairing) (Q : Pairing → α → β → Prop) (m : Make ε α)
    (m' : Make ε β) : Prop :=
  ∀ ⦃R' : Pairing⦄ ⦃s t : Supply⦄, R ≤ R' → Twins S s t R' → Mirrored S R' Q (m s) (m' t)

variable {S : Set Node} {R R' : Pairing} {Q Q' : Pairing → α → β → Prop} {P : Pairing → γ → δ → Prop}
  {m : Make ε α} {m' : Make ε β}

theorem Mirrored.imp {r : Except ε (α × Supply)} {r' : Except ε (β × Supply)}
    (h : Mirrored S R Q r r') (hR : R' ≤ R) (hQ : ∀ {R₁ a b}, R ≤ R₁ → Q R₁ a b → Q' R₁ a b) :
    Mirrored S R' Q' r r' := by
  match r, r', h with
  | .ok _, .ok _, ⟨R₁, hle, htwins, h⟩ => exact ⟨R₁, hR.trans hle, htwins, hQ hle h⟩
  | .error _, .error _, h => exact h

namespace Mirrors

theorem pure {a : α} {b : β} (h : ∀ {R'}, R ≤ R' → Q R' a b) :
    Mirrors S R Q (Pure.pure a : Make ε α) (Pure.pure b) :=
  fun R' _ _ hle htwins => ⟨R', le_rfl, htwins, h hle⟩

theorem throw (e : ε) : Mirrors S R Q (MonadExcept.throw e : Make ε α) (MonadExcept.throw e) :=
  fun _ _ _ _ _ => rfl

/-- **Sequences** mirror each other when their parts do. -/
theorem bind {f : α → Make ε γ} {f' : β → Make ε δ} (hm : Mirrors S R Q m m')
    (hf : ∀ {R' a b}, R ≤ R' → Q R' a b → Mirrors S R' P (f a) (f' b)) :
    Mirrors S R P (m >>= f) (m' >>= f') := by
  intro R' s t hle htwins
  have h := hm hle htwins
  rw [bind_apply, bind_apply]
  match m s, m' t, h with
  | .error _, .error _, h => exact h
  | .ok (a, s₁), .ok (b, t₁), ⟨R₁, hle₁, htwins₁, hQ⟩ =>
      exact (hf (hle.trans hle₁) hQ le_rfl htwins₁).imp hle₁ fun _ h => h

/-- Errors seen as other errors. -/
theorem mapError {ε' : Type} (f : ε → ε') (h : Mirrors S R Q m m') :
    Mirrors S R Q (fun s => (m s).mapError f : Make ε' α) (fun s => (m' s).mapError f) := by
  intro R' s t hle htwins
  have hrun := h hle htwins
  dsimp only
  match m s, m' t, hrun with
  | .ok _, .ok _, h => exact h
  | .error _, .error _, rfl => rfl

/-- What twins show may be used: it holds in every state that has them. -/
theorem of_twins (h : ∀ {R' s t}, R ≤ R' → Twins S s t R' → Mirrors S R' Q m m') :
    Mirrors S R Q m m' :=
  fun _ _ _ hle htwins => h hle htwins le_rfl htwins

end Mirrors

end Make

/-! ### Operations -/

open Make (Mirrors)

variable {ε : Type} {S : Set Node} {R : Pairing}

/-- Twins among tokens. -/
def TokenTwins (R : Pairing) (t u : Token) : Prop := R (.token t) (.token u)

/-- Twins among composites. -/
def CompositeTwins (R : Pairing) (c d : Composite) : Prop := R c.toNode d.toNode

theorem Token.make_mirrors (kind : String) (leading : List Trivia) (text : Text)
    (trailing : List Trivia) :
    Mirrors S R TokenTwins (Token.make kind leading text trailing : Make ε Token)
      (Token.make kind leading text trailing) := by
  intro R' s t _ htwins
  have hsound : ∀ id : Nat, (Node.token ⟨id, kind, leading, text, trailing,
      triviaWidth leading + text.length + triviaWidth trailing⟩).Sound fun _ => True := fun id =>
    .token (by simp only [Token.fullText, Token.leadingText, Token.trailingText, triviaWidth_eq,
      List.length_append])
  exact ⟨_, R'.le_add _ _, htwins.add rfl rfl (.token _ t) (hsound s) (hsound t), .inr ⟨rfl, rfl⟩⟩

theorem Token.twins_of_looks {s t : Supply} (htwins : Twins S s t R) {u v : Token}
    (h : TokenTwins R u v) : u.kind = v.kind ∧ u.leading = v.leading ∧ u.text = v.text ∧
      u.trailing = v.trailing := by
  cases htwins.looks h with
  | token => exact ⟨rfl, rfl, rfl, rfl⟩

/-- Changing one part of twins: they stay when the part is the same. -/
theorem Token.change_mirrors {p : Prop} [Decidable p] {t u : Token} (h : TokenTwins R t u)
    (kind : String) (leading : List Trivia) (text : Text) (trailing : List Trivia) :
    Mirrors S R TokenTwins
      (if p then pure t else Token.make kind leading text trailing : Make ε Token)
      (if p then pure u else Token.make kind leading text trailing) := by
  split
  · exact Mirrors.pure (Q := TokenTwins) fun hle => hle _ _ h
  · exact Token.make_mirrors kind leading text trailing

namespace Composite

variable {s t : Supply} {c d : Composite} {n n' : Node}

theorem twins_of_looks (htwins : Twins S s t R) (h : CompositeTwins R c d) :
    c.kind = d.kind ∧ c.width = d.width ∧ List.Forall₂ R c.children d.children := by
  cases c
  cases d
  cases htwins.looks h with
  | composite _ _ _ _ hc => exact ⟨rfl, rfl, hc⟩

theorem twins_getD (htwins : Twins S s t R) {cs ds : List Node} (h : List.Forall₂ R cs ds)
    (i : Nat) : R (cs.getD i .missing) (ds.getD i .missing) := by
  induction h generalizing i with
  | nil => exact htwins.missing
  | cons hcd _ ih =>
      cases i with
      | zero => exact hcd
      | succ i => exact ih i

theorem forall₂_set {cs ds : List Node} (h : List.Forall₂ R cs ds) (i : Nat) (hn : R n n') :
    List.Forall₂ R (cs.set i n) (ds.set i n') := by
  induction h generalizing i with
  | nil => exact .nil
  | cons hcd hrest ih =>
      cases i with
      | zero => exact .cons hn hrest
      | succ i => exact .cons hcd (ih i)

theorem withSlot_sound {c c' : Composite} {slot : String} {s s' : Supply}
    (hc : c.toNode.Sound fun _ => True) (hn : n.Sound fun _ => True)
    (h : c.withSlot slot (some n) s = .ok (c', s')) : c'.toNode.Sound fun _ => True := by
  have hrun : (Operation.withSlot c slot (some n)).run s = .ok (c'.toNode, s') :=
    Make.bind_eq_ok.mpr ⟨c', s', h, rfl⟩
  refine Operation.run_sound (fun _ _ => trivial) ?_ ?_ hrun
  · rintro _ ⟨⟩
    exact hc
  · rintro _ hm
    cases List.mem_singleton.mp hm
    exact hn

/-- Twins with twins put into the same slot. -/
theorem withSlot_mirrors (hc : CompositeTwins R c d) (hn : R n n') (slot : String) :
    Mirrors S R CompositeTwins (c.withSlot slot (some n)) (d.withSlot slot (some n')) := by
  intro R' s t hle htwins
  obtain ⟨hkind, hwidth, hchildren⟩ := twins_of_looks htwins (hle _ _ hc)
  cases hslot : c.kind.slot? slot with
  | none =>
      have hslot' := hkind ▸ hslot
      simp only [withSlot, hslot', hkind]
      rfl
  | some p =>
      obtain ⟨i, sl⟩ := p
      have hslot' : d.kind.slot? slot = some (i, sl) := hkind ▸ hslot
      have hcurrent := twins_getD htwins hchildren i
      have hsame := htwins.same_eq hcurrent (hle _ _ hn)
      -- the same child on one side is the same child on the other
      by_cases hs : (c.children.getD i .missing).same n = true
      · have hleft := (withSlot_eq_ok_iff (s := s)).mpr
          ⟨i, sl, n, hslot, rfl, .inl ⟨hs, rfl⟩⟩
        have hright := (withSlot_eq_ok_iff (s := t)).mpr
          ⟨i, sl, n', hslot', rfl, .inl ⟨hsame ▸ hs, rfl⟩⟩
        rw [hleft, hright]
        exact ⟨R', le_rfl, htwins, hle _ _ hc⟩
      · have hleft := (withSlot_eq_ok_iff (s := s)).mpr
          ⟨i, sl, n, hslot, rfl, .inr ⟨hs, rfl⟩⟩
        have hright := (withSlot_eq_ok_iff (s := t)).mpr
          ⟨i, sl, n', hslot', rfl, .inr ⟨hsame ▸ hs, rfl⟩⟩
        have hmatch : Node.Matches R'
            (.composite s c.kind (c.children.set i n)
              (c.width - (c.children.getD i .missing).width + n.width))
            (.composite t d.kind (d.children.set i n')
              (d.width - (d.children.getD i .missing).width + n'.width)) := by
          rw [hkind, hwidth, (htwins.looks hcurrent).width_eq, (htwins.looks (hle _ _ hn)).width_eq]
          exact .composite _ _ _ _ (forall₂_set hchildren i (hle _ _ hn))
        have hleftSound := withSlot_sound (htwins.left.sound _ ⟨_, hle _ _ hc⟩)
          (htwins.left.sound _ ⟨_, hle _ _ hn⟩) hleft
        have hrightSound := withSlot_sound (htwins.right.sound _ ⟨_, hle _ _ hc⟩)
          (htwins.right.sound _ ⟨_, hle _ _ hn⟩) hright
        rw [hleft, hright]
        exact ⟨_, R'.le_add _ _, htwins.add rfl rfl hmatch hleftSound hrightSound, .inr ⟨rfl, rfl⟩⟩

end Composite

/-- Twins built anew from twins. -/
theorem Node.rebuild_mirrors {n n' : Node} {cs cs' : List Node} (hn : R n n')
    (hcs : List.Forall₂ R cs cs') :
    Mirrors S R (fun R' => R') (n.rebuild (cs.map some)) (n'.rebuild (cs'.map some)) := by
  intro R' s t hle htwins
  have hcs := hcs.imp hle
  have hwidth := htwins.totalWidth_eq hcs
  have hleft := htwins.sound_left hcs
  have hright := htwins.sound_right hcs
  cases htwins.looks (hle _ _ hn) with
  | missing | token _ _ => rfl
  | list id id' w _ =>
      rw [rebuild_eq_ok_iff.mpr ⟨cs, rfl, rfl, .inl ⟨_, _, _, rfl, rfl⟩⟩,
        rebuild_eq_ok_iff.mpr ⟨cs', rfl, rfl, .inl ⟨_, _, _, rfl, rfl⟩⟩]
      exact ⟨_, R'.le_add _ _, htwins.add rfl rfl (hwidth ▸ .list _ _ _ hcs) (.list hleft)
        (.list hright), .inr ⟨rfl, rfl⟩⟩
  | composite id id' k w _ =>
      -- a wrong number of children is refused on both sides, with one error
      by_cases hlen : cs.length = k.arity
      · have hlen' : cs'.length = k.arity := hcs.length_eq ▸ hlen
        rw [rebuild_eq_ok_iff.mpr ⟨cs, rfl, rfl, .inr ⟨_, _, _, _, rfl, hlen, rfl⟩⟩,
          rebuild_eq_ok_iff.mpr ⟨cs', rfl, rfl, .inr ⟨_, _, _, _, rfl, hlen', rfl⟩⟩]
        exact ⟨_, R'.le_add _ _, htwins.add rfl rfl (hwidth ▸ .composite _ _ _ _ hcs)
          (.composite trivial hlen hleft) (.composite trivial hlen' hright), .inr ⟨rfl, rfl⟩⟩
      · have hlen' : ¬cs'.length = k.arity := hcs.length_eq ▸ hlen
        have herror : ∀ {id : Nat} {ds : List Node} {w : Nat} {es : List Node} {u : Supply},
            ¬es.length = k.arity → (Node.composite id k ds w).rebuild (es.map some) u =
              .error (.arity k.name k.arity es.length) := by
          intro id ds w es u h
          simp only [rebuild, Composite.make, List.length_map, if_neg h]
          rfl
        rw [herror hlen, herror hlen', hcs.length_eq]
        rfl

end Lossless
