import Lossless.Proofs.Catalog.Slots
import Lossless.Schema.Reference
import Mathlib.Data.List.TakeWhile

/-!
# Schema — what a schema says

Acceptance spends fuel, and a rule with exactly one alternative is not monotone in it: more fuel could
let a second alternative in.  So a schema is given its meaning by a proposition and an amount of fuel
from which on acceptance is that proposition (`Decides`, `Obeys`).  There is one lemma for every form
of schema and rule, which adds the step that the form costs to what its parts need; a meaning is
assembled along the schema from these lemmas, and they are the only ones that unfold acceptance.

* Exactly one alternative accepts when some alternative does and they exclude each other
  (`Obeys.oneOf`).
* A definition is found under its name when the names differ (`definition?_of_mem`), and a document
  with plain names is its own linked form (`linked_eq_self`).
* A decimal literal of an integer stands for an integer, and is negative exactly when the integer is
  (`Numeral.isIntegral_literal`, `Numeral.isNegative_literal`).
-/

namespace Lossless

namespace SchemaDocument

/-! ### One step -/

section Steps

variable (d : SchemaDocument) (fuel : Nat) (v : Json) (members : List (String × Json))

@[simp] theorem accepts_ref (name : String) : d.accepts (fuel + 1) (.ref name) v =
    match d.definition? name with
    | some s => d.accepts fuel s v
    | none => false := rfl

@[simp] theorem accepts_rules (rules : List Constraint) :
    d.accepts (fuel + 1) (.rules rules) v = rules.all fun r => d.obeys fuel r v := rfl

@[simp] theorem obeys_type (t : JsonType) : d.obeys (fuel + 1) (.type t) v = t.holds v := rfl

@[simp] theorem obeys_const (c : String) : d.obeys (fuel + 1) (.const c) v =
    match v with
    | .str s => s == c
    | _ => false := rfl

@[simp] theorem obeys_enum (cs : List String) : d.obeys (fuel + 1) (.enum cs) v =
    match v with
    | .str s => cs.contains s
    | _ => false := rfl

@[simp] theorem obeys_minLength (n : Nat) (s : String) :
    d.obeys (fuel + 1) (.minLength n) (.str s) = decide (n ≤ s.length) := rfl

@[simp] theorem obeys_minimum (n : Nat) (x : Numeral) :
    d.obeys (fuel + 1) (.minimum n) (.number x) = !x.isBelow n := rfl

@[simp] theorem obeys_required (keys : List String) :
    d.obeys (fuel + 1) (.required keys) (.obj members) =
      keys.all fun k => (Json.member? members k).isSome := rfl

@[simp] theorem obeys_properties (props : List (String × Schema)) :
    d.obeys (fuel + 1) (.properties props) (.obj members) = props.all fun p =>
      match Json.member? members p.1 with
      | some w => d.accepts fuel p.2 w
      | none => true := rfl

@[simp] theorem obeys_items (s : Schema) (vs : List Json) :
    d.obeys (fuel + 1) (.items s) (.arr vs) = vs.all fun w => d.accepts fuel s w := rfl

@[simp] theorem obeys_oneOf (alts : List Schema) : d.obeys (fuel + 1) (.oneOf alts) v =
    ((alts.filter fun s => d.accepts fuel s v).length == 1) := rfl

@[simp] theorem obeys_anyOf (alts : List Schema) :
    d.obeys (fuel + 1) (.anyOf alts) v = alts.any fun s => d.accepts fuel s v := rfl

end Steps

/-! ### What a schema says -/

/-- With `n` units of fuel or more, a schema accepts a value exactly when `P` holds. -/
def Decides (d : SchemaDocument) (n : Nat) (s : Schema) (v : Json) (P : Prop) : Prop :=
  ∀ fuel, n ≤ fuel → (d.accepts fuel s v = true ↔ P)

/-- With `n` units of fuel or more, a value obeys a rule exactly when `P` holds. -/
def Obeys (d : SchemaDocument) (n : Nat) (r : Constraint) (v : Json) (P : Prop) : Prop :=
  ∀ fuel, n ≤ fuel → (d.obeys fuel r v = true ↔ P)

variable {d : SchemaDocument} {n m : Nat} {s : Schema} {r : Constraint} {v : Json} {P Q : Prop}

/-! ### Schemas -/

namespace Decides

theorem mono (h : d.Decides n s v P) (hnm : n ≤ m) : d.Decides m s v P :=
  fun fuel hfuel => h fuel (Nat.le_trans hnm hfuel)

theorem congr (h : d.Decides n s v P) (hPQ : P ↔ Q) : d.Decides n s v Q :=
  fun fuel hfuel => (h fuel hfuel).trans hPQ

theorem ref {name : String} (hs : d.definition? name = some s) (h : d.Decides n s v P) :
    d.Decides (n + 1) (.ref name) v P := by
  intro fuel hfuel
  obtain ⟨fuel, rfl⟩ := Nat.exists_eq_add_of_le' (Nat.le_of_add_left_le hfuel)
  rw [accepts_ref, hs]
  exact h fuel (Nat.le_of_succ_le_succ hfuel)

theorem rules_nil : d.Decides (n + 1) (.rules []) v True := by
  intro fuel hfuel
  obtain ⟨fuel, rfl⟩ := Nat.exists_eq_add_of_le' (Nat.le_of_add_left_le hfuel)
  simp

theorem rules_cons {rules : List Constraint} (hr : d.Obeys n r v P)
    (hrules : d.Decides (n + 1) (.rules rules) v Q) :
    d.Decides (n + 1) (.rules (r :: rules)) v (P ∧ Q) := by
  intro fuel hfuel
  have hrest := hrules fuel hfuel
  obtain ⟨fuel, rfl⟩ := Nat.exists_eq_add_of_le' (Nat.le_of_add_left_le hfuel)
  rw [accepts_rules] at hrest ⊢
  rw [List.all_cons, Bool.and_eq_true, hrest, hr fuel (Nat.le_of_succ_le_succ hfuel)]

theorem rule (hr : d.Obeys n r v P) : d.Decides (n + 1) (.rules [r]) v P :=
  (rules_cons hr rules_nil).congr (and_iff_left trivial)

end Decides

/-! ### Rules -/

namespace Obeys

variable {members : List (String × Json)}

theorem mono (h : d.Obeys n r v P) (hnm : n ≤ m) : d.Obeys m r v P :=
  fun fuel hfuel => h fuel (Nat.le_trans hnm hfuel)

theorem congr (h : d.Obeys n r v P) (hPQ : P ↔ Q) : d.Obeys n r v Q :=
  fun fuel hfuel => (h fuel hfuel).trans hPQ

/-- What a rule says is known from one step of it. -/
theorem of_step (h : ∀ fuel, n ≤ fuel → (d.obeys (fuel + 1) r v = true ↔ P)) :
    d.Obeys (n + 1) r v P := by
  intro fuel hfuel
  obtain ⟨fuel, rfl⟩ := Nat.exists_eq_add_of_le' (Nat.le_of_add_left_le hfuel)
  exact h fuel (Nat.le_of_succ_le_succ hfuel)

theorem type (t : JsonType) : d.Obeys (n + 1) (.type t) v (t.holds v = true) :=
  of_step fun _ _ => by rw [obeys_type]

theorem const (c : String) : d.Obeys (n + 1) (.const c) v (v = .str c) :=
  of_step fun _ _ => by cases v <;> simp

theorem enum (cs : List String) : d.Obeys (n + 1) (.enum cs) v (∃ s, v = .str s ∧ s ∈ cs) :=
  of_step fun _ _ => by cases v <;> simp

theorem minLength (k : Nat) (s : String) :
    d.Obeys (n + 1) (.minLength k) (.str s) (k ≤ s.length) :=
  of_step fun _ _ => by simp

theorem minimum (k : Nat) (x : Numeral) :
    d.Obeys (n + 1) (.minimum k) (.number x) (x.isBelow k = false) :=
  of_step fun _ _ => by simp

theorem required (keys : List String) :
    d.Obeys (n + 1) (.required keys) (.obj members)
      (∀ key ∈ keys, ∃ w, Json.member? members key = some w) :=
  of_step fun _ _ => by simp [Option.isSome_iff_exists]

theorem properties_nil : d.Obeys (n + 1) (.properties []) (.obj members) True :=
  of_step fun _ _ => by simp

theorem properties_cons {key : String} {props : List (String × Schema)} {P : Json → Prop}
    (hs : ∀ w, Json.member? members key = some w → d.Decides n s w (P w))
    (hprops : d.Obeys (n + 1) (.properties props) (.obj members) Q) :
    d.Obeys (n + 1) (.properties ((key, s) :: props)) (.obj members)
      ((∀ w, Json.member? members key = some w → P w) ∧ Q) :=
  of_step fun fuel hfuel => by
    have hrest := hprops (fuel + 1) (Nat.succ_le_succ hfuel)
    rw [obeys_properties] at hrest ⊢
    rw [List.all_cons, Bool.and_eq_true, hrest]
    refine and_congr_left fun _ => ?_
    dsimp only
    split
    · next w hw =>
        refine ⟨fun h w' hw' => ?_, fun h => (hs w hw fuel hfuel).mpr (h w hw)⟩
        cases hw.symm.trans hw'
        exact (hs w hw fuel hfuel).mp h
    · next hw => exact iff_of_true rfl fun w hw' => nomatch hw.symm.trans hw'

/-- A property that is broken decides the rule. -/
theorem properties_of_not {key : String} {props : List (String × Schema)} {w : Json}
    (hw : Json.member? members key = some w) (hs : d.Decides n s w False) :
    d.Obeys (n + 1) (.properties ((key, s) :: props)) (.obj members) False :=
  of_step fun fuel hfuel => by
    have hfalse : d.accepts fuel s w = false := Bool.eq_false_iff.mpr (hs fuel hfuel).mp
    simp [hw, hfalse]

/-- Properties that all say the same of what stands under their keys. -/
theorem properties {props : List (String × Schema)} {P : Json → Prop}
    (h : ∀ p ∈ props, ∀ w, Json.member? members p.1 = some w → d.Decides n p.2 w (P w)) :
    d.Obeys (n + 1) (.properties props) (.obj members)
      (∀ p ∈ props, ∀ w, Json.member? members p.1 = some w → P w) := by
  induction props with
  | nil => exact properties_nil.congr (iff_of_true trivial nofun)
  | cons p props ih =>
      exact (properties_cons (h p (.head _)) (ih fun q hq => h q (.tail _ hq))).congr
        (List.forall_mem_cons (p := fun q : String × Schema =>
            ∀ w, Json.member? members q.1 = some w → P w)).symm

theorem items {vs : List Json} {P : Json → Prop} (h : ∀ w ∈ vs, d.Decides n s w (P w)) :
    d.Obeys (n + 1) (.items s) (.arr vs) (∀ w ∈ vs, P w) :=
  of_step fun fuel hfuel => by
    rw [obeys_items, List.all_eq_true]
    exact forall₂_congr fun w hw => h w hw fuel hfuel

theorem anyOf {α : Type} {f : α → Schema} {alts : List α} {P : α → Prop}
    (h : ∀ a ∈ alts, d.Decides n (f a) v (P a)) :
    d.Obeys (n + 1) (.anyOf (alts.map f)) v (∃ a ∈ alts, P a) :=
  of_step fun fuel hfuel => by
    simp only [obeys_anyOf, List.any_map, List.any_eq_true, Function.comp_apply]
    exact exists_congr fun a => and_congr_right fun ha => h a ha fuel hfuel

end Obeys

/-- One element of a list passes a test when some does, if no two elements can both pass it. -/
theorem length_filter_eq_one {α : Type} {p : α → Bool} {xs : List α}
    (h : xs.Pairwise fun x y => ¬(p x = true ∧ p y = true)) :
    (xs.filter p).length = 1 ↔ ∃ x ∈ xs, p x = true := by
  induction xs with
  | nil => simp
  | cons x xs ih =>
      obtain ⟨hx, hxs⟩ := List.pairwise_cons.mp h
      cases hp : p x with
      | false => simp [hp, ih hxs]
      | true =>
          have hrest : xs.filter p = [] :=
            List.filter_eq_nil_iff.mpr fun y hy hpy => hx y hy ⟨hp, hpy⟩
          simp [hp, hrest]

/-- **Exactly one alternative** accepts a value when some does, if the alternatives exclude each
other. -/
theorem Obeys.oneOf {α : Type} {f : α → Schema} {alts : List α} {P : α → Prop}
    (h : ∀ a ∈ alts, d.Decides n (f a) v (P a))
    (hexcl : alts.Pairwise fun a b => ¬(P a ∧ P b)) :
    d.Obeys (n + 1) (.oneOf (alts.map f)) v (∃ a ∈ alts, P a) :=
  of_step fun fuel hfuel => by
    have hmeans : ∀ a ∈ alts, (d.accepts fuel (f a) v = true ↔ P a) := fun a ha => h a ha fuel hfuel
    have htest : alts.Pairwise fun a b =>
        ¬(d.accepts fuel (f a) v = true ∧ d.accepts fuel (f b) v = true) :=
      hexcl.imp_of_mem fun ha hb hne hboth =>
        hne ⟨(hmeans _ ha).mp hboth.1, (hmeans _ hb).mp hboth.2⟩
    simp only [obeys_oneOf, List.filter_map, List.length_map, beq_iff_eq, Function.comp_def]
    rw [length_filter_eq_one htest]
    exact exists_congr fun a => and_congr_right fun ha => hmeans a ha

/-! ### Objects and arrays -/

/-- A rule that is broken decides the schema. -/
theorem Decides.rules_of_not {rules : List Constraint} (hr : d.Obeys n r v False) :
    d.Decides (n + 1) (.rules (r :: rules)) v False := by
  intro fuel hfuel
  obtain ⟨fuel, rfl⟩ := Nat.exists_eq_add_of_le' (Nat.le_of_add_left_le hfuel)
  rw [accepts_rules, List.all_cons, Bool.and_eq_true, hr fuel (Nat.le_of_succ_le_succ hfuel)]
  exact iff_of_false And.left id

/-- Behind a type, the other rules matter for values of the type only. -/
theorem Decides.typed {t : JsonType} {rules : List Constraint} (hP : P → t.holds v = true)
    (h : t.holds v = true → d.Decides (n + 2) (.rules rules) v P) :
    d.Decides (n + 2) (.rules (.type t :: rules)) v P := by
  by_cases ht : t.holds v = true
  · exact (rules_cons (.type t) (h ht)).congr (and_iff_right ht)
  · exact (rules_of_not ((Obeys.type t).congr (iff_of_false ht id))).congr
      (iff_of_false id fun hp => ht (hP hp))

theorem holds_object : JsonType.object.holds v = true ↔ ∃ members, v = .obj members := by
  cases v with
  | obj members => exact iff_of_true rfl ⟨members, rfl⟩
  | _ => exact iff_of_false nofun nofun

theorem holds_array : JsonType.array.holds v = true ↔ ∃ vs, v = .arr vs := by
  cases v with
  | arr vs => exact iff_of_true rfl ⟨vs, rfl⟩
  | _ => exact iff_of_false nofun nofun

theorem holds_string : JsonType.string.holds v = true ↔ ∃ s, v = .str s := by
  cases v with
  | str s => exact iff_of_true rfl ⟨s, rfl⟩
  | _ => exact iff_of_false nofun nofun

theorem holds_integer :
    JsonType.integer.holds v = true ↔ ∃ x, v = .number x ∧ x.isIntegral = true := by
  cases v with
  | number x => exact ⟨fun h => ⟨x, rfl, h⟩, by rintro ⟨_, ⟨⟩, h⟩; exact h⟩
  | _ => exact iff_of_false nofun nofun

/-- A schema of objects says of the members what its other rules say. -/
theorem Decides.object {rules : List Constraint} {P : List (String × Json) → Prop}
    (h : ∀ members, v = .obj members → d.Decides (n + 2) (.rules rules) v (P members)) :
    d.Decides (n + 2) (.rules (.type .object :: rules)) v
      (∃ members, v = .obj members ∧ P members) := by
  refine typed (fun ⟨members, hv, _⟩ => holds_object.mpr ⟨members, hv⟩) fun hv => ?_
  obtain ⟨members, rfl⟩ := holds_object.mp hv
  exact (h members rfl).congr ⟨fun hP => ⟨members, rfl, hP⟩, by rintro ⟨_, ⟨⟩, hP⟩; exact hP⟩

/-- A schema of arrays says the same of every item. -/
theorem Decides.array {P : Json → Prop}
    (h : ∀ vs, v = .arr vs → ∀ w ∈ vs, d.Decides n s w (P w)) :
    d.Decides (n + 2) (.rules [.type .array, .items s]) v (∃ vs, v = .arr vs ∧ ∀ w ∈ vs, P w) := by
  refine typed (fun ⟨vs, hv, _⟩ => holds_array.mpr ⟨vs, hv⟩) fun hv => ?_
  obtain ⟨vs, rfl⟩ := holds_array.mp hv
  exact (rule (.items (h vs rfl))).congr ⟨fun hP => ⟨vs, rfl, hP⟩, by rintro ⟨_, ⟨⟩, hP⟩; exact hP⟩

/-! ### Definitions -/

/-- A definition is found under its name when no two definitions share one. -/
theorem definition?_of_mem (h : (d.definitions.map (·.1)).Nodup) {name : String}
    (hs : (name, s) ∈ d.definitions) : d.definition? name = some s := by
  rw [definition?, find?_of_nodup h hs]
  rfl

/-- What is made of the elements of a list one by one is the list, when each element is kept. -/
theorem mapM_eq_self {α ε : Type} {f : α → Except ε α} {xs : List α} (h : ∀ x ∈ xs, f x = .ok x) :
    xs.mapM f = .ok xs := by
  induction xs with
  | nil => rfl
  | cons x xs ih =>
      obtain ⟨hx, hxs⟩ := List.forall_mem_cons.mp h
      rw [List.mapM_cons, hx, ih hxs]
      rfl

/-- What is computed from a result has that result. -/
theorem exists_of_bind {α β ε : Type} {x : Except ε α} {f : α → Except ε β} {b : β}
    (h : x >>= f = .ok b) : ∃ a, x = .ok a ∧ f a = .ok b := by
  cases x with
  | error e => cases h
  | ok a => exact ⟨a, rfl, h⟩

/-- What is made of the elements of a list one by one is made of each of them. -/
theorem forall_of_mapM {α β ε : Type} {f : α → Except ε β} {as : List α} {bs : List β}
    (h : as.mapM f = .ok bs) : ∀ a ∈ as, ∃ b, f a = .ok b := by
  induction as generalizing bs with
  | nil => exact nofun
  | cons a as ih =>
      rw [List.mapM_cons] at h
      obtain ⟨b, hb, hrest⟩ := exists_of_bind h
      obtain ⟨bs', hbs, -⟩ := exists_of_bind hrest
      exact List.forall_mem_cons.mpr ⟨⟨b, hb⟩, ih hbs⟩

/-- A document with plain names, none of whose rules requires a key twice, is used as it is. -/
theorem linked_eq_self (hplain : ∀ p ∈ d.definitions, isPlainName p.1 = true)
    (honce : ∀ p ∈ d.definitions, requiresOnce p.2 = true) : d.linked = .ok d := by
  rw [linked, mapM_eq_self fun p hp => ?_]
  · rfl
  · simp only [hplain p hp, if_true, bind, Except.bind, honce p hp, Bool.and_self]
    rfl

/-- A list without repetition stays as it is when repetitions are left out. -/
theorem eraseDups_of_nodup {keys : List String} (h : keys.Nodup) : keys.eraseDups = keys := by
  induction keys with
  | nil => rfl
  | cons key keys ih =>
      obtain ⟨hkey, hkeys⟩ := List.nodup_cons.mp h
      have hfilter : keys.filter (fun k => !k == key) = keys :=
        List.filter_eq_self.mpr fun k hk => by
          have hne : k ≠ key := ne_of_mem_of_not_mem hk hkey
          simpa using hne
      rw [List.eraseDups_cons, hfilter, ih hkeys]

theorem length_eraseDups_le {α : Type} [BEq α] :
    ∀ as : List α, as.eraseDups.length ≤ as.length
  | [] => Nat.le_refl _
  | a :: as => by
      have hfilter := List.length_filter_le (fun b => !b == a) as
      rw [List.eraseDups_cons, List.length_cons, List.length_cons]
      exact Nat.succ_le_succ (Nat.le_trans (length_eraseDups_le _) hfilter)
termination_by as => as.length
decreasing_by exact Nat.lt_succ_of_le hfilter

/-- Leaving out repetitions shortens a list that has some. -/
theorem nodup_of_length_eraseDups {α : Type} [BEq α] [LawfulBEq α] {as : List α}
    (h : as.eraseDups.length = as.length) : as.Nodup := by
  induction as with
  | nil => exact List.nodup_nil
  | cons a as ih =>
      rw [List.eraseDups_cons, List.length_cons, List.length_cons] at h
      -- nothing is left out from the rest, neither as equal to the first element nor as repeated
      have hshort := length_eraseDups_le (as.filter fun b => !b == a)
      have hfilter : as.filter (fun b => !b == a) = as :=
        List.filter_sublist.eq_of_length_le (by omega)
      rw [hfilter] at h
      refine List.nodup_cons.mpr ⟨fun ha => ?_, ih (Nat.succ.inj h)⟩
      have hkept := List.filter_eq_self.mp hfilter a ha
      simp at hkept

end SchemaDocument

/-! ### Integer literals -/

namespace Decimal

variable {cs : List Char} {i : Int}

theorem digits_of_nat? {n : Nat} (h : nat? cs = some n) : ∀ c ∈ cs, c.isDigit = true := by
  unfold nat? at h
  split at h
  · cases h
  · next hdigits =>
      simp only [Bool.or_eq_true, Bool.not_eq_true', not_or, Bool.not_eq_false] at hdigits
      exact List.all_eq_true.mp hdigits.2

/-- A decimal integer is a sign and digits. -/
theorem nat?_of_int? (h : int? cs = some i) :
    ∃ n : Nat, nat? (sign cs).2 = some n ∧ i = if (sign cs).1 then -(n : Int) else n := by
  unfold int? at h
  cases hn : nat? (sign cs).2 with
  | none => simp [hn] at h
  | some n => exact ⟨n, rfl, by simpa [hn] using h.symm⟩

/-- A decimal integer is a numeral without point and exponent. -/
theorem scientific?_of_int? (h : int? cs = some i) :
    ∃ n : Nat, scientific? cs = some ⟨(sign cs).1, n, 0⟩ ∧
      i = if (sign cs).1 then -(n : Int) else n := by
  obtain ⟨n, hn, rfl⟩ := nat?_of_int? h
  have hdigits := digits_of_nat? hn
  refine ⟨n, ?_, rfl⟩
  simp only [scientific?, List.takeWhile_eq_self_iff.mpr hdigits,
    List.dropWhile_eq_nil_iff.mpr hdigits, List.append_nil, hn, exponent?]
  rfl

theorem ne_exponent_of_isDigit {c : Char} (hc : c.isDigit = true) : (c ≠ 'e' && c ≠ 'E') = true := by
  by_contra hne
  simp only [ne_eq, Bool.and_eq_true, decide_eq_true_eq, not_and_or, not_not] at hne
  rcases hne with rfl | rfl <;> exact absurd hc (by decide)

/-- A decimal integer has no exponent. -/
theorem hasShortExponent_of_int? (h : int? cs = some i) : hasShortExponent cs = true := by
  obtain ⟨n, hn, -⟩ := nat?_of_int? h
  have hbody : ∀ c ∈ (sign cs).2, (c ≠ 'e' && c ≠ 'E') = true :=
    fun c hc => ne_exponent_of_isDigit (digits_of_nat? hn c hc)
  have hplain : ∀ c ∈ cs, (c ≠ 'e' && c ≠ 'E') = true := by
    unfold sign at hbody
    split at hbody
    · exact List.forall_mem_cons.mpr ⟨by decide, hbody⟩
    · exact List.forall_mem_cons.mpr ⟨by decide, hbody⟩
    · exact hbody
  rw [hasShortExponent, List.dropWhile_eq_nil_iff.mpr hplain]

end Decimal

namespace Numeral

variable {t : String} {w : Int}

theorem isIntegral_literal (h : Decimal.int? t.toList = some w) : (literal t).isIntegral = true := by
  obtain ⟨n, hn, -⟩ := Decimal.scientific?_of_int? h
  simp [isIntegral, text, hn, Decimal.hasShortExponent_of_int? h]

theorem isBelow_literal (h : Decimal.int? t.toList = some w) (k : Nat) :
    (literal t).isBelow k = true ↔ w < k := by
  obtain ⟨n, hn, rfl⟩ := Decimal.scientific?_of_int? h
  rw [isBelow, text, hn]
  cases (Decimal.sign t.toList).1 with
  | false => by_cases hzero : n = 0 <;> simp [hzero]
  | true =>
      by_cases hzero : n = 0
      · simp [hzero]
      · simp only [hzero, ↓reduceIte, Bool.true_or, true_iff]
        omega

theorem isNegative_literal (h : Decimal.int? t.toList = some w) :
    (literal t).isNegative = true ↔ w < 0 := by
  rw [← isBelow_zero, isBelow_literal h]
  rfl

end Numeral

end Lossless
