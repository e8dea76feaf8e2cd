import Lossless.Parse.Document
import Lossless.Proofs.Parse.Describable
import Lossless.Proofs.Schema.Acceptance

/-!
# Schema — the schema and the builder agree

A catalog has a schema for the values that trees are built from, and a builder that reads them along a
source.  The schema accepts a value exactly when the builder builds a tree from it with some source
(`validate_iff_fromJson`).

The two are told apart by a few values only, which are left out (`Canonical`).  A null in place of
trivia is none for the builder and no array for the schema; a width that is written like `3e0` is an
integer for the schema only; and a width that stands next to a text is checked by the schema only.
Slots with the key `kind` are left out too: their value would have to be a node and the name of the
kind at once.

Each form of nodes has an alternative of the schema, which says what the form fits (`decides_form`).
The alternatives fix the kind and the kinds differ, so at most one accepts (`forms_nodup`) and the
schema of a node is the disjunction of the forms, as being describable is (`describable_iff`).  The
induction is on the depth of the value (`decides_root`); sixteen units of fuel are enough for a level.
-/

namespace Lossless

open SchemaDocument (Decides Obeys holds_string holds_integer)

/-! ### Depth -/

namespace Json

theorem depth_pos : ∀ v : Json, 0 < v.depth
  | .null | .bool _ | .number _ | .str _ => Nat.one_pos
  | .arr _ | .obj _ => Nat.succ_pos _

theorem depth_le_depthAll {vs : List Json} {v : Json} (h : v ∈ vs) : v.depth ≤ depthAll vs := by
  induction vs with
  | nil => cases h
  | cons w vs ih =>
      rw [depthAll]
      rcases List.mem_cons.mp h with rfl | h
      · exact Nat.le_max_left _ _
      · exact Nat.le_trans (ih h) (Nat.le_max_right _ _)

theorem depth_lt_of_member? {members : List (String × Json)} {key : String} {v : Json}
    (h : member? members key = some v) : v.depth < (obj members).depth := by
  have hle : v.depth ≤ depthMembers members := by
    induction members with
    | nil => cases h
    | cons p members ih =>
        rw [member?] at h
        rw [depthMembers]
        split at h
        · cases h; exact Nat.le_max_left _ _
        · exact Nat.le_trans (ih h) (Nat.le_max_right _ _)
  exact Nat.lt_succ_of_le hle

theorem depth_lt_of_mem {vs : List Json} {v : Json} (h : v ∈ vs) : v.depth < (arr vs).depth :=
  Nat.lt_succ_of_le (depth_le_depthAll h)

end Json

namespace Parse

/-! ### Canonical values -/

/-- The width of an object is a literal of 64 bits where it gives the text, and a natural number where
it stands next to the text. -/
structure PlainWidth (members : List (String × Json)) : Prop where
  literal : ∀ x, Json.member? members "text" = none →
    Json.member? members "width" = some (.number x) →
      ∃ t, x = .literal t ∧ (Decimal.int64? t.toList).isSome = true
  beside : ∀ u w, Json.member? members "text" = some u → Json.member? members "width" = some w →
    ∃ x, w = .number x ∧ x.isIntegral = true ∧ x.isNegative = false

/-- Under a key of a token body stands no null, and the widths of trivia there are plain. -/
structure PlainTriviaAt (body : List (String × Json)) (key : String) : Prop where
  notNull : Json.member? body key ≠ some .null
  widths : ∀ items members, Json.member? body key = some (.arr items) → .obj members ∈ items →
    PlainWidth members

/-- The body of a token with plain widths and without null in place of trivia. -/
structure PlainBody (body : List (String × Json)) : Prop where
  width : PlainWidth body
  leading : PlainTriviaAt body "leading"
  trailing : PlainTriviaAt body "trailing"

/-- A value whose tokens are plain, at every place where a node is described. -/
inductive Canonical (c : Catalog) : Json → Prop where
  | intro {v : Json}
      (token : ∀ members body, v = .obj members →
        Json.member? members "kind" = some (.str "token") →
        Json.member? members "token" = some (.obj body) → PlainBody body)
      (elements : ∀ members items, v = .obj members →
        Json.member? members "kind" = some (.str "list") →
        Json.member? members "elements" = some (.arr items) → ∀ w ∈ items, Canonical c w)
      (slots : ∀ members k, v = .obj members → k ∈ c.kinds →
        Json.member? members "kind" = some (.str k.name) →
        ∀ s ∈ k.slots, ∀ w, Json.member? members s.key = some w → Canonical c w) :
      Canonical c v

/-- An object is canonical when it is as one of its kind. -/
theorem Canonical.of_kind {c : Catalog} {members : List (String × Json)} {name : String}
    (hkind : Json.member? members "kind" = some (.str name))
    (htoken : name = "token" → ∀ body, Json.member? members "token" = some (.obj body) →
      PlainBody body)
    (helements : name = "list" → ∀ items, Json.member? members "elements" = some (.arr items) →
      ∀ w ∈ items, Canonical c w)
    (hslots : ∀ k ∈ c.kinds, k.name = name → ∀ s ∈ k.slots, ∀ w,
      Json.member? members s.key = some w → Canonical c w) : Canonical c (.obj members) := by
  have hname : ∀ {other : String}, Json.member? members "kind" = some (.str other) →
      other = name :=
    fun h => Json.str.inj (Option.some.inj (h.symm.trans hkind))
  refine .intro ?_ ?_ ?_
  · rintro _ body ⟨⟩ h
    exact htoken (hname h).symm body
  · rintro _ items ⟨⟩ h
    exact helements (hname h).symm items
  · rintro _ k ⟨⟩ hk h
    exact hslots k hk (hname h)

end Parse

/-! ### Objects of a kind -/

namespace Catalog

open Parse (PlainWidth PlainTriviaAt PlainBody Canonical Describable DescribableText
  DescribableTrivia DescribableTriviaAt DescribableBody Form forms)

theorem foldl_setProperty {props done : List (String × Schema)}
    (h : ((done ++ props).map (·.1)).Nodup) : props.foldl setProperty done = done ++ props := by
  induction props generalizing done with
  | nil => simp
  | cons p props ih =>
      have hnew : done.any (·.1 = p.1) = false := by
        rw [List.map_append, List.nodup_append] at h
        refine List.any_eq_false.mpr fun q hq => ?_
        have hne := h.2.2 q.1 (List.mem_map_of_mem hq) p.1 (by simp)
        simpa using hne
      have hstep : setProperty done p = done ++ [p] := by simp [setProperty, hnew]
      rw [List.foldl_cons, hstep, ih (by simpa using h)]
      simp

/-- What is there and, if it is, has a property. -/
theorem exists_and_forall_some {α : Type} {o : Option α} {P : α → Prop} :
    ((∃ a, o = some a) ∧ ∀ a, o = some a → P a) ↔ ∃ a, o = some a ∧ P a :=
  ⟨fun ⟨⟨a, ha⟩, h⟩ => ⟨a, ha, h a ha⟩,
    fun ⟨a, ha, hP⟩ => ⟨⟨a, ha⟩, fun _ hb => Option.some.inj (ha.symm.trans hb) ▸ hP⟩⟩

/-- What is there and has a form. -/
theorem exists_some_and_exists {α β : Type} {o : Option α} {f : β → α} {P : β → Prop} :
    (∃ a, o = some a ∧ ∃ b, a = f b ∧ P b) ↔ ∃ b, o = some (f b) ∧ P b :=
  ⟨fun ⟨_, ha, b, he, hP⟩ => ⟨b, he ▸ ha, hP⟩, fun ⟨b, hb, hP⟩ => ⟨_, hb, b, rfl, hP⟩⟩

variable {c : Catalog} {d : SchemaDocument} {n : Nat} {v : Json}

/-- The schema of objects of a kind fixes the kind, and speaks of what stands under each key. What it
says there has to be known for objects of the kind only. -/
theorem decides_objectSchema {kind : String} {props : List (String × Schema)} {P : Json → Prop}
    (hkeys : ("kind" :: props.map (·.1)).Nodup)
    (h : ∀ members, v = .obj members → Json.member? members "kind" = some (.str kind) →
      ∀ p ∈ props, ∀ w, Json.member? members p.1 = some w → Decides d (n + 2) p.2 w (P w)) :
    Decides d (n + 4) (objectSchema kind (props.map (·.1)) props) v
      (∃ members, v = .obj members ∧ Json.member? members "kind" = some (.str kind) ∧
        ∀ p ∈ props, ∃ w, Json.member? members p.1 = some w ∧ P w) := by
  rw [objectSchema, foldl_setProperty (by simpa using hkeys)]
  refine .object fun members hv => ?_
  subst hv
  have hconst : ∀ w, Decides d (n + 2) (.rules [.const kind]) w (w = .str kind) :=
    fun w => .rule (.const kind)
  -- with another kind the schema fails at the constant, whatever the other members are
  by_cases hkind : Json.member? members "kind" = some (.str kind)
  · refine (Decides.rules_cons (.required _) (.rule (.properties_cons (fun w _ => hconst w)
      (.properties (h members rfl hkind))))).congr ?_
    have hfixed : (∃ w, Json.member? members "kind" = some w) ∧
        ∀ w, Json.member? members "kind" = some w → w = .str kind :=
      exists_and_forall_some.mpr ⟨_, hkind, rfl⟩
    rw [List.forall_mem_cons, List.forall_mem_map]
    constructor
    · rintro ⟨⟨-, hthere⟩, -, hprops⟩
      exact ⟨hkind, fun p hp => exists_and_forall_some.mp ⟨hthere p hp, hprops p hp⟩⟩
    · rintro ⟨-, hprops⟩
      exact ⟨⟨hfixed.1, fun p hp => (exists_and_forall_some.mpr (hprops p hp)).1⟩, hfixed.2,
        fun p hp => (exists_and_forall_some.mpr (hprops p hp)).2⟩
  · have hnot : ∀ {Q : Prop}, (False ↔ Json.member? members "kind" = some (.str kind) ∧ Q) :=
      iff_of_false id fun hQ => hkind hQ.1
    cases hw : Json.member? members "kind" with
    | none =>
        refine (Decides.rules_of_not ((Obeys.required _).congr (iff_of_false ?_ id))).congr
          (hw ▸ hnot)
        intro hthere
        obtain ⟨w, hw'⟩ := hthere "kind" (.head _)
        cases hw.symm.trans hw'
    | some w =>
        have hne : w ≠ .str kind := fun he => hkind (he ▸ hw)
        exact (Decides.rules_cons (.required _) (.rule (.properties_of_not hw
          ((hconst w).congr (iff_of_false hne id))))).congr
            ((iff_of_eq (and_false _)).trans (hw ▸ hnot))

/-! ### Texts and trivia -/

theorem mem_sortedNames {names : List String} {name : String} :
    name ∈ sortedNames names ↔ name ∈ names := by
  rw [sortedNames, List.mem_mergeSort, List.mem_eraseDups]

theorem isEmpty_sortedNames (names : List String) :
    (sortedNames names).isEmpty = names.isEmpty := by
  have hnil : sortedNames names = [] ↔ names = [] := by
    simp only [List.eq_nil_iff_forall_not_mem, mem_sortedNames]
  rw [Bool.eq_iff_iff, List.isEmpty_iff, List.isEmpty_iff, hnil]

/-- The schema of a kind name accepts the names that are declared. -/
theorem decides_kindNameSchema (names : List String) :
    Decides d (n + 2) (kindNameSchema (sortedNames names)) v
      (∃ kind, v = .str kind ∧ declares names kind = true) := by
  rw [kindNameSchema, isEmpty_sortedNames]
  cases hempty : names.isEmpty with
  | true =>
      refine .typed (fun ⟨s, hv, _⟩ => holds_string.mpr ⟨s, hv⟩) fun hv => ?_
      obtain ⟨s, rfl⟩ := holds_string.mp hv
      refine (Decides.rule (.minLength 1 s)).congr ?_
      have hlength : 1 ≤ s.length ↔ s ≠ "" := by
        rw [Nat.one_le_iff_ne_zero, ne_eq, ne_eq, String.length_eq_zero_iff]
      simp [declares, hempty, hlength]
  | false =>
      refine (Decides.rule (.enum _)).congr (exists_congr fun kind => and_congr_right fun _ => ?_)
      rw [mem_sortedNames, declares, hempty]
      simp

/-- The schema of a width accepts numerals of natural numbers. -/
theorem decides_width :
    Decides d (n + 2) (.rules [.type .integer, .minimum 0]) v
      (∃ x, v = .number x ∧ x.isIntegral = true ∧ x.isNegative = false) := by
  refine .typed (fun ⟨x, hv, hx, _⟩ => holds_integer.mpr ⟨x, hv, hx⟩) fun hv => ?_
  obtain ⟨x, rfl, hx⟩ := holds_integer.mp hv
  have hminimum : Obeys d (n + 1) (.minimum 0) (.number x) (x.isNegative = false) :=
    x.isBelow_zero ▸ .minimum 0 x
  refine (Decides.rule hminimum).congr ⟨fun h => ⟨x, rfl, hx, h⟩, ?_⟩
  rintro ⟨_, ⟨⟩, -, h⟩
  exact h

/-- What the schema says of the text and the width of an object. -/
def TextConforms (members : List (String × Json)) : Prop :=
  (∀ w, Json.member? members "text" = some w → ∃ s, w = .str s) ∧
  (∀ w, Json.member? members "width" = some w →
    ∃ x, w = .number x ∧ x.isIntegral = true ∧ x.isNegative = false) ∧
  ((∃ w, Json.member? members "text" = some w) ∨ ∃ w, Json.member? members "width" = some w)

/-- A literal of 64 bits gives a text exactly when it is a natural number. -/
theorem textConforms_iff {members : List (String × Json)} (h : PlainWidth members) :
    TextConforms members ↔ DescribableText members := by
  constructor
  · rintro ⟨htext, hwidth, hone⟩
    cases hu : Json.member? members "text" with
    | some u =>
        obtain ⟨s, rfl⟩ := htext u hu
        exact ⟨_, .text hu, trivial⟩
    | none =>
        obtain ⟨w, hw⟩ : ∃ w, Json.member? members "width" = some w := by simpa [hu] using hone
        obtain ⟨x, rfl, -, hx⟩ := hwidth w hw
        obtain ⟨t, rfl, ht⟩ := h.literal x hu hw
        obtain ⟨i, hi⟩ := Option.isSome_iff_exists.mp ht
        have hint := (Option.filter_eq_some_iff.mp hi).1
        refine ⟨.width i, .width hu hw hi, ?_⟩
        -- an integral numeral shows its sign as the integer has it
        have hneg := (Numeral.isNegative_literal hint).not.mp (by simp [hx])
        exact Int.not_lt.mp hneg
  · rintro ⟨_, hu | ⟨hu, hw, hx⟩, hsat⟩
    · refine ⟨fun w hw => ?_, fun w hw => h.beside _ w hu hw, .inl ⟨_, hu⟩⟩
      cases hu.symm.trans hw
      exact ⟨_, rfl⟩
    · refine ⟨fun w hw' => (nomatch hu.symm.trans hw'), fun w hw' => ?_, .inr ⟨_, hw⟩⟩
      cases hw.symm.trans hw'
      obtain ⟨t, rfl, -⟩ := h.literal _ hu hw
      have hint := (Option.filter_eq_some_iff.mp hx).1
      refine ⟨_, rfl, Numeral.isIntegral_literal hint, ?_⟩
      exact Bool.eq_false_iff.mpr ((Numeral.isNegative_literal hint).not.mpr (Int.not_lt.mpr hsat))

/-- The schema of an object with a declared kind and a text, and with further properties. -/
theorem decides_texted (names : List String) (more : List (String × Schema))
    {Q : List (String × Json) → Prop} (hwidth : ∀ members, v = .obj members → PlainWidth members)
    (hmore : ∀ members, v = .obj members →
      Obeys d (n + 3) (.properties more) (.obj members) (Q members)) :
    Decides d (n + 4)
      (.rules [.type .object, .required ["kind"],
        .properties (("kind", kindNameSchema (sortedNames names)) :: textProperties ++ more),
        textOrWidth]) v
      (∃ members, v = .obj members ∧
        (∃ kind, Json.member? members "kind" = some (.str kind) ∧ declares names kind = true) ∧
        DescribableText members ∧ Q members) := by
  refine .object fun members hv => ?_
  have hplain := hwidth members hv
  have hprops := hmore members hv
  subst hv
  have hone : Obeys d (n + 3) (.anyOf (["text", "width"].map fun key => .rules [.required [key]]))
      (.obj members)
      (∃ key ∈ ["text", "width"], ∀ key' ∈ [key], ∃ w, Json.member? members key' = some w) :=
    .anyOf fun key _ => .rule (.required [key])
  refine (Decides.rules_cons (.required ["kind"]) (.rules_cons
    (.properties_cons (fun w _ => decides_kindNameSchema names)
      (.properties_cons (fun w _ => (Decides.rule (.type .string)).congr holds_string)
        (.properties_cons (fun w _ => decides_width) hprops))) (.rule hone))).congr ?_
  have hkind : ((∃ w, Json.member? members "kind" = some w) ∧
      ∀ w, Json.member? members "kind" = some w →
        ∃ kind, w = .str kind ∧ declares names kind = true) ↔
      ∃ kind, Json.member? members "kind" = some (.str kind) ∧ declares names kind = true :=
    exists_and_forall_some.trans exists_some_and_exists
  rw [← textConforms_iff hplain, ← hkind]
  simp only [TextConforms, List.forall_mem_singleton, List.exists_mem_cons_iff, List.not_mem_nil,
    false_and, exists_false, or_false]
  tauto

/-- The schema of a piece of trivia. -/
theorem decides_triviaSchema (h : ∀ members, v = .obj members → PlainWidth members) :
    Decides d (n + 4) c.triviaSchema v (DescribableTrivia c v) := by
  refine (decides_texted c.trivia [] (Q := fun _ => True) h fun _ _ => .properties_nil).congr ?_
  rw [Parse.describableTrivia_iff]
  simp only [and_true]
  rfl

/-! ### Definitions -/

theorem kindDefinition_injective : Function.Injective kindDefinition := by
  intro a b h
  have hlist := congrArg String.toList h
  simp only [kindDefinition, String.toList_append] at hlist
  exact String.toList_inj.mp (List.append_cancel_left hlist)

theorem kindDefinition_ne {name other : String} (h : other.toList.head? ≠ some 'k') :
    kindDefinition name ≠ other := by
  rintro rfl
  simp [kindDefinition] at h

theorem definitions_nodup (hc : c.WellFormed) : (c.schema.definitions.map (·.1)).Nodup := by
  have hkinds : (c.sortedKinds.map fun k => kindDefinition k.name).Nodup := by
    simpa [List.map_map, Function.comp_def] using
      hc.sortedKinds_nodup.map kindDefinition_injective
  simp only [schema, List.map_append, List.map_map, Function.comp_def, List.map_cons, List.map_nil]
  refine List.nodup_append.mpr ⟨hkinds, by decide, ?_⟩
  rintro _ hkind other hother rfl
  obtain ⟨k, -, hk⟩ := List.mem_map.mp hkind
  have hfirst : ∀ other ∈ ["node", "missing", "list", "trivia", "token"],
      other.toList.head? ≠ some 'k' := by decide
  exact kindDefinition_ne (hfirst _ hother) hk

theorem keys_nodup (hc : c.WellFormed) (hkeys : Parse.NoKindKey c) {k : Kind} (hk : k ∈ c.kinds) :
    ("kind" :: k.slots.map (·.key)).Nodup := by
  refine List.nodup_cons.mpr ⟨fun hmem => ?_, (hc.kinds k hk).keys⟩
  obtain ⟨s, hs, hkey⟩ := List.mem_map.mp hmem
  exact hkeys k hk s hs hkey

theorem isPlainName_kindDefinition {name : String} (h : isPlainName name = true) :
    isPlainName (kindDefinition name) = true := by
  rw [isPlainName, kindDefinition, String.toList_append, List.all_append, Bool.and_eq_true]
  exact ⟨by decide, h⟩

theorem requiresOnce_objectSchema {kind : String} {required : List String}
    {props : List (String × Schema)} (h : ("kind" :: required).Nodup) :
    SchemaDocument.requiresOnce (objectSchema kind required props) = true := by
  simp [SchemaDocument.requiresOnce, objectSchema, SchemaDocument.eraseDups_of_nodup h]

/-- The names of the definitions are plain when those of the kinds are. -/
theorem isPlainName_definitions (hnames : ∀ k ∈ c.kinds, isPlainName k.name = true) :
    ∀ p ∈ c.schema.definitions, isPlainName p.1 = true := by
  refine List.forall_mem_append.mpr ⟨List.forall_mem_map.mpr fun k hk => ?_, ?_⟩
  · exact isPlainName_kindDefinition (hnames k (mem_sortedKinds.mp hk))
  · simp only [List.forall_mem_cons, List.not_mem_nil]
    exact ⟨by decide, by decide, by decide, by decide, by decide, nofun⟩

/-- **The schema of a catalog is used as it is**, when the names of the kinds are plain. -/
theorem linked_schema (hc : c.WellFormed) (hkeys : Parse.NoKindKey c)
    (hnames : ∀ k ∈ c.kinds, isPlainName k.name = true) : c.schema.linked = .ok c.schema := by
  refine SchemaDocument.linked_eq_self (isPlainName_definitions hnames) ?_
  refine List.forall_mem_append.mpr ⟨List.forall_mem_map.mpr fun k hk => ?_, ?_⟩
  · exact requiresOnce_objectSchema (keys_nodup hc hkeys (mem_sortedKinds.mp hk))
  · simp only [List.forall_mem_cons, List.not_mem_nil]
    exact ⟨rfl, requiresOnce_objectSchema (by decide), requiresOnce_objectSchema (by decide), rfl,
      requiresOnce_objectSchema (by decide), nofun⟩

/-! ### Nodes -/

theorem decides_triviaAt (hc : c.WellFormed) {body : List (String × Json)} {key : String}
    (h : PlainTriviaAt body key) (w : Json) (hw : Json.member? body key = some w) :
    Decides c.schema 7 (.rules [.type .array, .items (.ref "trivia")]) w
      (∃ vs, w = .arr vs ∧ ∀ x ∈ vs, DescribableTrivia c x) := by
  refine .array fun vs hvs x hx => .ref (SchemaDocument.definition?_of_mem (definitions_nodup hc)
    (s := c.triviaSchema) (by simp [schema])) (decides_triviaSchema fun members hm => ?_)
  subst hvs hm
  exact h.widths vs members hw hx

/-- The schema of the body of a token. -/
theorem decides_tokenBodySchema (hc : c.WellFormed)
    (h : ∀ body, v = .obj body → PlainBody body) :
    Decides c.schema 9 c.tokenBodySchema v (∃ body, v = .obj body ∧ DescribableBody c body) := by
  refine (decides_texted c.tokens _ (fun body hv => (h body hv).width) fun body hv =>
    .properties_cons (decides_triviaAt hc (h body hv).leading)
      (.properties_cons (decides_triviaAt hc (h body hv).trailing) .properties_nil)).congr ?_
  refine exists_congr fun body => and_congr_right fun hv => ?_
  have hbody := h body hv
  rw [← Parse.describableTriviaAt_iff hbody.leading.notNull,
    ← Parse.describableTriviaAt_iff hbody.trailing.notNull]
  exact ⟨fun ⟨hkind, htext, hleading, htrailing, _⟩ => ⟨hkind, htext, hleading, htrailing⟩,
    fun h => ⟨h.kind, h.text, h.leading, h.trailing, trivial⟩⟩

theorem definition?_schema (hc : c.WellFormed) {name : String} {s : Schema}
    (h : (name, s) ∈ c.schema.definitions) : c.schema.definition? name = some s :=
  SchemaDocument.definition?_of_mem (definitions_nodup hc) h

theorem kind_mem_definitions {k : Kind} (hk : k ∈ c.kinds) :
    (kindDefinition k.name, kindSchema k) ∈ c.schema.definitions :=
  List.mem_append_left _ (List.mem_map_of_mem (f := fun k => (kindDefinition k.name, kindSchema k))
    (mem_sortedKinds.mpr hk))

/-- The name of the definition of a form. -/
def formDefinition : Form → String
  | .composite k => kindDefinition k.name
  | form => form.name

theorem nodeAlternatives_eq :
    c.nodeAlternatives = (forms c).map fun form => .ref (formDefinition form) := by
  simp [nodeAlternatives, forms, formDefinition, Form.name, Function.comp_def]

/-! The definition of each form, when the definition of nodes is known one level below. -/

section Forms

variable {level : Nat} (hc : c.WellFormed)
  (hbelow : ∀ w, Canonical c w → w.depth ≤ level →
    Decides c.schema (16 * level) anyNode w (Describable c w))
  (hv : Canonical c v) (hdepth : v.depth ≤ level + 1)

include hc

theorem decides_missing : Decides c.schema (n + 5) (.ref "missing") v (Form.missing.Of c v) := by
  have hnone : ∀ members, v = .obj members → Json.member? members "kind" = some (.str "missing") →
      ∀ p ∈ ([] : List (String × Schema)), ∀ w, Json.member? members p.1 = some w →
        Decides c.schema (n + 2) p.2 w True := nofun
  have hdefinition : c.schema.definition? "missing" = some (objectSchema "missing" [] []) :=
    definition?_schema hc (by simp [schema])
  refine (Decides.ref hdefinition (decides_objectSchema (by decide) hnone)).congr ?_
  exact exists_congr fun members => and_congr_right fun _ => and_congr_right fun _ =>
    iff_of_true nofun trivial

include hv in
theorem decides_token : Decides c.schema 12 (.ref "token") v (Form.token.Of c v) := by
  obtain ⟨htoken, -, -⟩ := hv
  have hbody : ∀ members, v = .obj members → Json.member? members "kind" = some (.str "token") →
      ∀ p ∈ [("token", c.tokenBodySchema)], ∀ w, Json.member? members p.1 = some w →
        Decides c.schema 9 p.2 w (∃ body, w = .obj body ∧ DescribableBody c body) := by
    intro members hv hkind p hp w hw
    obtain rfl := List.mem_singleton.mp hp
    exact decides_tokenBodySchema hc fun body hbody => htoken members body hv hkind (hbody ▸ hw)
  have hkeys : ("kind" :: [("token", c.tokenBodySchema)].map (·.1)).Nodup :=
    show ["kind", "token"].Nodup by decide
  refine (Decides.ref (definition?_schema hc (by simp [schema]))
    (decides_objectSchema hkeys hbody)).congr ?_
  refine exists_congr fun members => and_congr_right fun _ => and_congr_right fun _ => ?_
  rw [List.forall_mem_singleton]
  exact exists_some_and_exists

include hbelow hv hdepth

theorem decides_list : Decides c.schema (16 * level + 5) (.ref "list") v (Form.list.Of c v) := by
  obtain ⟨-, helements, -⟩ := hv
  have hitems : ∀ members, v = .obj members → Json.member? members "kind" = some (.str "list") →
      ∀ p ∈ [("elements", Schema.rules [.type .array, .items anyNode])], ∀ w,
        Json.member? members p.1 = some w →
          Decides c.schema (16 * level + 2) p.2 w
            (∃ items, w = .arr items ∧ ∀ x ∈ items, Describable c x) := by
    intro members hv hkind p hp w hw
    obtain rfl := List.mem_singleton.mp hp
    refine .array fun items hitems x hx => ?_
    subst hv hitems
    -- the elements are less deep than the list, so they are decided at a lower level
    have hdeep := Json.depth_lt_of_member? hw
    have hdeeper := Json.depth_lt_of_mem hx
    exact hbelow x (helements members items rfl hkind hw x hx) (by omega)
  refine (Decides.ref (definition?_schema hc (by simp [schema]))
    (decides_objectSchema (by decide) hitems)).congr ?_
  refine exists_congr fun members => and_congr_right fun _ => and_congr_right fun _ => ?_
  rw [List.forall_mem_singleton]
  exact exists_some_and_exists

theorem decides_composite (hkeys : Parse.NoKindKey c) {k : Kind} (hk : k ∈ c.kinds) :
    Decides c.schema (16 * level + 5) (.ref (kindDefinition k.name)) v
      ((Form.composite k).Of c v) := by
  obtain ⟨-, -, hslots⟩ := hv
  have hprops : ∀ members, v = .obj members → Json.member? members "kind" = some (.str k.name) →
      ∀ p ∈ k.slots.map fun s => (s.key, anyNode), ∀ w, Json.member? members p.1 = some w →
        Decides c.schema (16 * level + 2) p.2 w (Describable c w) := by
    intro members hv hkind p hp w hw
    obtain ⟨s, hs, rfl⟩ := List.mem_map.mp hp
    subst hv
    have hdeep := Json.depth_lt_of_member? hw
    exact (hbelow w (hslots members k rfl hk hkind s hs w hw) (by omega)).mono (by omega)
  have hmap : (k.slots.map fun s => (s.key, anyNode)).map (·.1) = k.slots.map (·.key) := by
    simp [Function.comp_def]
  have hdefinition : c.schema.definition? (kindDefinition k.name) = some (kindSchema k) :=
    definition?_schema hc (kind_mem_definitions hk)
  rw [kindSchema, ← hmap] at hdefinition
  refine (Decides.ref hdefinition
    (decides_objectSchema (hmap ▸ keys_nodup hc hkeys hk) hprops)).congr ?_
  exact exists_congr fun members => and_congr_right fun _ => and_congr_right fun _ =>
    List.forall_mem_map

theorem decides_form (hkeys : Parse.NoKindKey c) {form : Form} (hform : form ∈ forms c) :
    Decides c.schema (16 * level + 12) (.ref (formDefinition form)) v (form.Of c v) := by
  cases form with
  | missing => exact (decides_missing hc : Decides _ (0 + 5) _ _ _).mono (by omega)
  | list => exact (decides_list hc hbelow hv hdepth).mono (by omega)
  | token => exact (decides_token hc hv).mono (by omega)
  | composite k =>
      have hk : k ∈ c.kinds := by simpa [forms, mem_sortedKinds] using hform
      exact (decides_composite hc hbelow hv hdepth hkeys hk).mono (by omega)

omit hbelow hv hdepth in
theorem forms_exclusive :
    (forms c).Pairwise fun form other => ¬(form.Of c v ∧ other.Of c v) := by
  refine (List.pairwise_map.mp (Parse.forms_nodup hc)).imp fun hname hboth => ?_
  obtain ⟨⟨members, rfl, hkind, -⟩, ⟨_, ⟨⟩, hkind', -⟩⟩ := hboth
  exact hname (Json.str.inj (Option.some.inj (hkind.symm.trans hkind')))

/-- One level of a value, when the definition of nodes is known below. -/
theorem decides_level (hkeys : Parse.NoKindKey c) :
    Decides c.schema (16 * level + 14) c.schema.root v (Describable c v) := by
  have hone := Obeys.oneOf (fun form hform => decides_form hc hbelow hv hdepth hkeys hform)
    (forms_exclusive hc)
  rw [← nodeAlternatives_eq] at hone
  exact (Decides.rule hone).congr (Parse.describable_iff hc).symm

end Forms

/-- **The schema accepts the describable values**, whatever their depth. -/
theorem decides_root (hc : c.WellFormed) (hkeys : Parse.NoKindKey c) {level : Nat}
    (hv : Canonical c v) (hdepth : v.depth ≤ level + 1) :
    Decides c.schema (16 * level + 14) c.schema.root v (Describable c v) := by
  induction level generalizing v with
  | zero =>
      refine decides_level hc (fun w _ hw => ?_) hv hdepth hkeys
      exact absurd w.depth_pos (Nat.not_lt_of_le hw)
  | succ level ih =>
      refine decides_level hc (fun w hw hlevel => ?_) hv hdepth hkeys
      have hnode : c.schema.definition? "node" = some c.schema.root :=
        definition?_schema hc (by simp [schema])
      exact (Decides.ref hnode (ih hw hlevel)).mono (by omega)

end Catalog

namespace Parse

/-- For every catalog that compiles, has no slot under the key `kind` and names of kinds without
percent signs, slashes and tildes, and every canonical value: the schema of the catalog can be used,
and it accepts the value exactly when a tree is built from the value with some source. Further fuel
does not change what the schema accepts. -/
theorem validate_iff_fromJson {document : CatalogDocument} {c : Catalog}
    (hc : document.compile = .ok c) (hkeys : NoKindKey c)
    (hnames : ∀ k ∈ c.kinds, isPlainName k.name = true) {v : Json} (hv : Canonical c v)
    (file : String) (supply : Supply) :
    (∃ accepted, validate c v = .ok accepted ∧
      (accepted = true ↔
        ∃ source n supply', fromJson c v file 0 source supply = .ok (n, supply'))) ∧
    ∀ fuel, SchemaDocument.stepsPerLevel * (v.depth + 1) ≤ fuel →
      c.schema.accepts fuel c.schema.root v = c.schema.conforms v := by
  have hwell := CatalogDocument.compile_wellFormed hc
  -- the fuel grows with the depth of the value, a fixed number of steps for each level
  have hroot : Decides c.schema (SchemaDocument.stepsPerLevel * (v.depth + 1)) c.schema.root v
      (Describable c v) :=
    (Catalog.decides_root hwell hkeys hv (Nat.le_succ _)).mono
      (by rw [SchemaDocument.stepsPerLevel]; omega)
  have hconforms : c.schema.conforms v = true ↔ Describable c v := hroot _ (Nat.le_refl _)
  refine ⟨⟨c.schema.conforms v, ?_, hconforms.trans exists_fromJson_iff.symm⟩, fun fuel hfuel => ?_⟩
  · rw [validate, Catalog.linked_schema hwell hkeys hnames]
  · exact Bool.eq_iff_iff.mpr ((hroot fuel hfuel).trans hconforms.symm)

/-- What the value for the pair describes. -/
def pairDescription : Description TextSpec :=
  .composite pairKind [.list [.token "word" [("blank", .text " ")] (.width 3) []], .missing]

theorem describable_pairValue : Describable pairCatalog pairValue := by
  have hdescribes : Describes pairCatalog pairValue pairDescription :=
    .composite rfl (by decide) rfl (.cons rfl (.list rfl rfl (.cons (.token rfl
      (.intro rfl rfl rfl (.array rfl (.cons (.intro rfl rfl (.text rfl)) .nil))
        (.width rfl rfl rfl) (.array rfl .nil))) .nil)) (.cons rfl (.missing rfl) .nil))
  refine ⟨pairDescription, hdescribes, ?_⟩
  simp [pairDescription, Description.leaves, Description.leavesAll, TextSpec.Satisfiable]

theorem canonical_pairValue : Canonical pairCatalog pairValue := by
  have hother : ∀ {name : String}, name ≠ "pair" → ∀ k ∈ pairCatalog.kinds, k.name ≠ name := by
    rintro name hname k hk rfl
    obtain rfl := List.mem_singleton.mp hk
    exact hname rfl
  have hblank : PlainWidth [("kind", .str "blank"), ("text", .str " ")] :=
    ⟨fun _ h => (nomatch h), fun _ _ _ h => (nomatch h)⟩
  refine .of_kind rfl (fun h => absurd h (by decide)) (fun h => absurd h (by decide))
    fun k hk _ s hs w hw => ?_
  obtain rfl := List.mem_singleton.mp hk
  rcases List.mem_pair.mp hs with rfl | rfl
  · cases hw
    refine .of_kind rfl (fun h => absurd h (by decide)) (fun _ items hitems x hx => ?_)
      fun k hk h => absurd h (hother (by decide) k hk)
    cases hitems
    obtain rfl := List.mem_singleton.mp hx
    refine .of_kind rfl (fun _ body hbody => ?_) (fun h => absurd h (by decide))
      fun k hk h => absurd h (hother (by decide) k hk)
    cases hbody
    refine ⟨⟨fun x _ hx => ?_, fun _ _ h => (nomatch h)⟩, ⟨nofun, ?_⟩, ⟨nofun, ?_⟩⟩
    · cases hx
      exact ⟨"3", rfl, rfl⟩
    · rintro _ members ⟨⟩ hm
      cases List.mem_singleton.mp hm
      exact hblank
    · rintro _ members ⟨⟩ hm
      cases hm
  · cases hw
    exact .of_kind rfl (fun h => absurd h (by decide)) (fun h => absurd h (by decide))
      fun k hk h => absurd h (hother (by decide) k hk)

theorem validate_iff_fromJson_pairValue :
    (pairDocument.compile = .ok pairCatalog ∧ NoKindKey pairCatalog ∧
      (∀ k ∈ pairCatalog.kinds, isPlainName k.name = true) ∧ Canonical pairCatalog pairValue) ∧
    validate pairCatalog pairValue = .ok true ∧
    (∃ source n supply',
      fromJson pairCatalog pairValue "a.pair" 0 source Supply.start = .ok (n, supply')) := by
  have hc : pairDocument.compile = .ok pairCatalog := rfl
  have hkeys : NoKindKey pairCatalog := by decide
  have hnames : ∀ k ∈ pairCatalog.kinds, isPlainName k.name = true := by decide
  have hsome : ∃ source n supply',
      fromJson pairCatalog pairValue "a.pair" 0 source Supply.start = .ok (n, supply') :=
    exists_fromJson_iff.mpr describable_pairValue
  obtain ⟨⟨accepted, haccepted, hiff⟩, -⟩ :=
    validate_iff_fromJson hc hkeys hnames canonical_pairValue "a.pair" Supply.start
  obtain rfl := hiff.mpr hsome
  exact ⟨⟨hc, hkeys, hnames, canonical_pairValue⟩, haccepted, hsome⟩

end Parse

end Lossless
