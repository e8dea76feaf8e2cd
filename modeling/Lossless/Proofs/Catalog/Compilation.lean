import Lossless.Proofs.Catalog.Slots

/-!
# Catalog — which documents compile

What a catalog document has to be is said of the document alone (`CatalogDocument.WellFormed`): names
are looked at without the white space around them, and keys are those that the document gives or that
are made of the stem and the name of the slot.

A document that compiles gives the kinds that it declares, slot by slot and in order
(`KindDocument.Declares`).  The checks that are made on the way, against what was compiled before, are
together the ones that the names and keys of the result are distinct (`compileSlots_eq_ok_iff`,
`compileKinds_eq_ok_iff`).  So compiling succeeds exactly for the well-formed documents
(`compiles_iff_wellFormed`), and a catalog that compiles is well-formed (`compile_wellFormed`).
-/

namespace Lossless

/-! ### Well-formed documents -/

/-- The key of a slot: the one that is given, or the stem and the name. -/
def SlotDocument.effectiveKey (stem : String) (d : SlotDocument) : String :=
  if d.key = "" then stem ++ "_" ++ Text.trim d.name else d.key

/-- The stem of a kind: the one that is given, or the name. -/
def KindDocument.effectiveStem (d : KindDocument) : String :=
  if d.stem = "" then Text.trim d.name else d.stem

/-- A kind document that compiles by itself. -/
structure KindDocument.WellFormed (d : KindDocument) : Prop where
  name_ne : Text.trim d.name ≠ ""
  name_free : Text.trim d.name ∉ reservedKinds
  slot_names_ne : ∀ s ∈ d.slots, Text.trim s.name ≠ ""
  slot_names : (d.slots.map (Text.trim ·.name)).Nodup
  keys : (d.slots.map (·.effectiveKey d.effectiveStem)).Nodup
  variants : ∀ s ∈ d.slots, ∀ e ∈ s.variants, ∃ v, Variant.parse e = .ok v

/-- A catalog document that compiles. -/
structure CatalogDocument.WellFormed (d : CatalogDocument) : Prop where
  language : Text.trim d.language ≠ ""
  kinds_ne : d.kinds ≠ []
  kinds : ∀ k ∈ d.kinds, k.WellFormed
  names : (d.kinds.map (Text.trim ·.name)).Nodup
  composites : ∀ k ∈ d.kinds, ∀ s ∈ k.slots, ∀ e ∈ s.variants, ∀ v, Variant.parse e = .ok v →
    v.nodeClass = .composite → v.kind ∈ d.kinds.map (Text.trim ·.name)
  tokens : ∀ k ∈ d.kinds, ∀ s ∈ k.slots, ∀ e ∈ s.variants, ∀ v, Variant.parse e = .ok v →
    v.nodeClass = .token → v.kind ≠ "" → d.tokens ≠ [] → v.kind ∈ d.tokens

/-- The slot that a slot document of a kind with the given stem declares. -/
structure SlotDocument.Declares (stem : String) (d : SlotDocument) (s : Slot) : Prop where
  name : s.name = Text.trim d.name
  key : s.key = d.effectiveKey stem
  variants : List.Forall₂ (fun e v => Variant.parse e = .ok v) d.variants s.variants

/-- The kind that a kind document declares. -/
structure KindDocument.Declares (d : KindDocument) (k : Kind) : Prop where
  name : k.name = Text.trim d.name
  stem : k.stem = d.effectiveStem
  slots : List.Forall₂ (SlotDocument.Declares d.effectiveStem) d.slots k.slots

/-! ### Slots -/

theorem VariantSet.parse_eq_ok_iff {es : List String} {vs : VariantSet} :
    VariantSet.parse es = .ok vs ↔ List.Forall₂ (fun e v => Variant.parse e = .ok v) es vs := by
  induction es generalizing vs with
  | nil =>
      rw [List.forall₂_nil_left_iff]
      exact ⟨fun h => by cases h; rfl, fun h => by rw [h]; rfl⟩
  | cons e es ih =>
      rw [VariantSet.parse, List.forall₂_cons_left_iff]
      cases he : Variant.parse e with
      | error err => exact ⟨nofun, fun ⟨_, _, h, _⟩ => nomatch h⟩
      | ok v =>
          cases hes : VariantSet.parse es with
          | error err =>
              refine ⟨nofun, fun ⟨_, vs', _, h, _⟩ => ?_⟩
              rw [ih.mpr h] at hes
              cases hes
          | ok vs' =>
              constructor
              · rintro ⟨⟩
                exact ⟨v, vs', rfl, ih.mp hes, rfl⟩
              · rintro ⟨_, _, ⟨⟩, h, rfl⟩
                rw [ih.mpr h] at hes
                cases hes
                rfl

theorem SlotDocument.compile_eq_ok_iff {stem : String} {d : SlotDocument} {s : Slot} :
    d.compile stem = .ok s ↔ Text.trim d.name ≠ "" ∧ d.Declares stem s := by
  unfold SlotDocument.compile
  dsimp only
  split
  · next h => exact ⟨nofun, fun hd => absurd h hd.1⟩
  · next h =>
      cases hvs : VariantSet.parse d.variants with
      | error err =>
          refine ⟨nofun, fun hd => ?_⟩
          rw [VariantSet.parse_eq_ok_iff.mpr hd.2.variants] at hvs
          cases hvs
      | ok vs =>
          constructor
          · rintro ⟨⟩
            exact ⟨h, rfl, rfl, VariantSet.parse_eq_ok_iff.mp hvs⟩
          · rintro ⟨-, hname, hkey, hvariants⟩
            rw [VariantSet.parse_eq_ok_iff.mpr hvariants] at hvs
            cases hvs
            obtain ⟨_, _, _⟩ := s
            cases hname
            cases hkey
            rfl

/-- **Slots compile** when each of them does, and their names and keys are distinct. -/
theorem compileSlots_eq_ok_iff {stem : String} {done slots : List Slot} {ds : List SlotDocument}
    (hnames : (done.map (·.name)).Nodup) (hkeys : (done.map (·.key)).Nodup) :
    compileSlots stem done ds = .ok slots ↔
      Extends (fun d s => d.compile stem = .ok s) done ds slots ∧
        (slots.map (·.name)).Nodup ∧ (slots.map (·.key)).Nodup := by
  -- the invariant: names and keys so far are distinct, and none of them may come again
  induction ds generalizing done with
  | nil =>
      rw [extends_nil]
      constructor
      · rintro ⟨⟩
        exact ⟨rfl, hnames, hkeys⟩
      · rintro ⟨rfl, -⟩
        rfl
  | cons d ds ih =>
      rw [compileSlots, extends_cons]
      cases hs : d.compile stem with
      | error err => exact ⟨nofun, fun ⟨⟨_, h, _⟩, _⟩ => nomatch h⟩
      | ok s =>
          simp only [Except.ok.injEq, exists_eq_left']
          split
          · next hname =>
              refine ⟨nofun, fun ⟨hext, h, _⟩ => ?_⟩
              exact absurd hname (nodup_map_concat.mp (hext.nodup h)).2
          · next hname =>
              split
              · next hkey =>
                  refine ⟨nofun, fun ⟨hext, _, h⟩ => ?_⟩
                  exact absurd hkey (nodup_map_concat.mp (hext.nodup h)).2
              · next hkey =>
                  exact ih (nodup_map_concat.mpr ⟨hnames, hname⟩) (nodup_map_concat.mpr ⟨hkeys, hkey⟩)

theorem extends_compile_iff {stem : String} {ds : List SlotDocument} {slots : List Slot} :
    Extends (fun d s => d.compile stem = .ok s) [] ds slots ↔
      (∀ d ∈ ds, Text.trim d.name ≠ "") ∧ List.Forall₂ (SlotDocument.Declares stem) ds slots := by
  constructor
  · rintro ⟨_, rfl, h⟩
    refine ⟨fun d hd => ?_, h.imp fun _ _ hds => (SlotDocument.compile_eq_ok_iff.mp hds).2⟩
    obtain ⟨s, -, hds⟩ := exists_of_forall₂ h d hd
    exact (SlotDocument.compile_eq_ok_iff.mp hds).1
  · rintro ⟨hne, h⟩
    refine ⟨slots, rfl, ((List.forall₂_and_left _ _).mpr ⟨hne, h⟩).imp fun _ _ hds => ?_⟩
    exact SlotDocument.compile_eq_ok_iff.mpr hds

theorem compileSlots_nil_eq_ok_iff {stem : String} {ds : List SlotDocument} {slots : List Slot} :
    compileSlots stem [] ds = .ok slots ↔
      ((∀ d ∈ ds, Text.trim d.name ≠ "") ∧ List.Forall₂ (SlotDocument.Declares stem) ds slots) ∧
        (slots.map (·.name)).Nodup ∧ (slots.map (·.key)).Nodup :=
  (compileSlots_eq_ok_iff (by simp) (by simp)).trans (and_congr_left fun _ => extends_compile_iff)

/-! ### Kinds -/

/-- A kind is compiled under its trimmed name, with its effective stem. -/
theorem KindDocument.compile_eq (d : KindDocument) :
    d.compile =
      if Text.trim d.name = "" then .error .emptyKindName
      else if reservedKinds.contains (Text.trim d.name) then .error (.reservedKind (Text.trim d.name))
      else match compileSlots d.effectiveStem [] d.slots with
        | .error err => .error (.badSlot (Text.trim d.name) err)
        | .ok slots => .ok { name := Text.trim d.name, stem := d.effectiveStem, slots } :=
  rfl

/-- The steps of compiling a kind. -/
theorem KindDocument.compile_steps {d : KindDocument} {k : Kind} :
    d.compile = .ok k ↔
      Text.trim d.name ≠ "" ∧ Text.trim d.name ∉ reservedKinds ∧
        ∃ slots, compileSlots d.effectiveStem [] d.slots = .ok slots ∧
          k = ⟨Text.trim d.name, d.effectiveStem, slots⟩ := by
  rw [compile_eq, ← List.contains_iff_mem]
  split
  · next h => exact ⟨nofun, fun hd => absurd h hd.1⟩
  · next hne =>
      split
      · next h => exact ⟨nofun, fun hd => absurd h hd.2.1⟩
      · next hfree =>
          cases compileSlots d.effectiveStem [] d.slots with
          | error err => exact ⟨nofun, fun ⟨_, _, _, h, _⟩ => nomatch h⟩
          | ok slots =>
              constructor
              · rintro ⟨⟩
                exact ⟨hne, hfree, slots, rfl, rfl⟩
              · rintro ⟨-, -, _, ⟨⟩, rfl⟩
                rfl

theorem KindDocument.compile_eq_ok_iff {d : KindDocument} {k : Kind} :
    d.compile = .ok k ↔
      Text.trim d.name ≠ "" ∧ Text.trim d.name ∉ reservedKinds ∧
        (∀ s ∈ d.slots, Text.trim s.name ≠ "") ∧ d.Declares k ∧ k.Distinct ∧
        (k.slots.map (·.key)).Nodup := by
  rw [compile_steps]
  refine and_congr_right fun _ => and_congr_right fun _ => ?_
  constructor
  · rintro ⟨slots, hslots, rfl⟩
    obtain ⟨⟨hnames, hdeclares⟩, hdistinct, hkeys⟩ := compileSlots_nil_eq_ok_iff.mp hslots
    exact ⟨hnames, ⟨rfl, rfl, hdeclares⟩, hdistinct, hkeys⟩
  · rintro ⟨hnames, hdeclares, hdistinct, hkeys⟩
    refine ⟨k.slots, compileSlots_nil_eq_ok_iff.mpr
      ⟨⟨hnames, hdeclares.slots⟩, hdistinct, hkeys⟩, ?_⟩
    rw [← hdeclares.name, ← hdeclares.stem]

/-- **Kinds compile** when each of them does, and their names are distinct. -/
theorem compileKinds_eq_ok_iff {done kinds : List Kind} {ds : List KindDocument}
    (hnames : (done.map (·.name)).Nodup) :
    compileKinds done ds = .ok kinds ↔
      Extends (fun d k => d.compile = .ok k) done ds kinds ∧ (kinds.map (·.name)).Nodup := by
  induction ds generalizing done with
  | nil =>
      rw [extends_nil]
      constructor
      · rintro ⟨⟩
        exact ⟨rfl, hnames⟩
      · rintro ⟨rfl, -⟩
        rfl
  | cons d ds ih =>
      rw [compileKinds, extends_cons]
      cases hk : d.compile with
      | error err => exact ⟨nofun, fun ⟨⟨_, h, _⟩, _⟩ => nomatch h⟩
      | ok k =>
          simp only [Except.ok.injEq, exists_eq_left']
          split
          · next hname =>
              refine ⟨nofun, fun ⟨hext, h⟩ => ?_⟩
              exact absurd hname (nodup_map_concat.mp (hext.nodup h)).2
          · next hname => exact ih (nodup_map_concat.mpr ⟨hnames, hname⟩)

/-- Slots have the names and keys of the documents that declare them. -/
theorem names_keys_of_declares {stem : String} {ds : List SlotDocument} {slots : List Slot}
    (h : List.Forall₂ (SlotDocument.Declares stem) ds slots) :
    ds.map (Text.trim ·.name) = slots.map (·.name) ∧
      ds.map (·.effectiveKey stem) = slots.map (·.key) :=
  ⟨map_eq_of_forall₂ h fun hs => hs.name.symm, map_eq_of_forall₂ h fun hs => hs.key.symm⟩

/-- A kind document compiles exactly when it is well-formed. -/
theorem KindDocument.exists_compile_iff {d : KindDocument} :
    (∃ k, d.compile = .ok k) ↔ d.WellFormed := by
  constructor
  · rintro ⟨k, hk⟩
    obtain ⟨hne, hfree, hnames, hdeclares, hdistinct, hkeys⟩ := compile_eq_ok_iff.mp hk
    obtain ⟨hmap, hmap'⟩ := names_keys_of_declares hdeclares.slots
    refine ⟨hne, hfree, hnames, hmap ▸ hdistinct, hmap' ▸ hkeys, fun s hs e he => ?_⟩
    obtain ⟨slot, -, hslot⟩ := exists_of_forall₂ hdeclares.slots s hs
    obtain ⟨v, -, hv⟩ := exists_of_forall₂ hslot.variants e he
    exact ⟨v, hv⟩
  · intro h
    have hslot : ∀ s ∈ d.slots, ∃ slot, s.Declares d.effectiveStem slot := by
      intro s hs
      obtain ⟨vs, hvs⟩ := exists_forall₂ (h.variants s hs)
      exact ⟨⟨_, _, vs⟩, rfl, rfl, hvs⟩
    obtain ⟨slots, hall⟩ := exists_forall₂ hslot
    obtain ⟨hmap, hmap'⟩ := names_keys_of_declares hall
    have hdistinct : (slots.map (·.name)).Nodup := hmap ▸ h.slot_names
    exact ⟨⟨_, _, slots⟩, compile_eq_ok_iff.mpr
      ⟨h.name_ne, h.name_free, h.slot_names_ne, ⟨rfl, rfl, hall⟩, hdistinct, hmap' ▸ h.keys⟩⟩

/-! ### Catalogs -/

theorem Catalog.kind?_isSome_iff {c : Catalog} {name : String} :
    (c.kind? name).isSome ↔ name ∈ c.kinds.map (·.name) := by
  simp [kind?, List.find?_isSome]

theorem Variant.parse_nodeClass {e : String} {v : Variant} (h : Variant.parse e = .ok v)
    (code : UInt8) : v.nodeClass ≠ .other code := by
  unfold parse ofTrimmed at h
  dsimp only at h
  repeat' split at h
  all_goals cases h <;> simp

theorem Catalog.declaresVariant_iff {c : Catalog} {v : Variant} {e : String}
    (hv : Variant.parse e = .ok v) :
    c.declaresVariant v = true ↔
      (v.nodeClass = .composite → v.kind ∈ c.kinds.map (·.name)) ∧
        (v.nodeClass = .token → v.kind ≠ "" → c.tokens ≠ [] → v.kind ∈ c.tokens) := by
  unfold declaresVariant
  cases hclass : v.nodeClass with
  | composite => simp [kind?_isSome_iff]
  | token =>
      by_cases hkind : v.kind = ""
      · simp [hkind]
      · by_cases htokens : c.tokens = []
        · simp [hkind, isToken, declares, htokens]
        · simp [hkind, isToken, declares, htokens]
  | list | missing => simp
  | other code => exact absurd hclass (Variant.parse_nodeClass hv code)

theorem Catalog.undeclared?_eq_none_iff {c : Catalog} :
    c.undeclared? = none ↔
      ∀ k ∈ c.kinds, ∀ s ∈ k.slots, ∀ v ∈ s.variants, c.declaresVariant v = true := by
  simp [undeclared?, undeclaredIn?, List.findSome?_eq_none_iff]

/-- The catalog of a document that declares the given kinds. -/
def CatalogDocument.catalog (d : CatalogDocument) (kinds : List Kind) : Catalog where
  language := d.language
  extensions := d.extensions.filterMap normalExtension?
  kinds := kinds
  tokens := d.tokens
  trivia := d.trivia

/-- The kinds are compiled first, and then the catalog of them is looked through. -/
theorem CatalogDocument.compile_eq (d : CatalogDocument) :
    d.compile =
      if Text.trim d.language = "" then .error .noLanguage
      else if d.kinds.isEmpty then .error .noKinds
      else match compileKinds [] d.kinds with
        | .error err => .error err
        | .ok kinds =>
          match (d.catalog kinds).undeclared? with
          | some err => .error err
          | none => .ok (d.catalog kinds) :=
  rfl

/-- The steps of compiling a catalog. -/
theorem CatalogDocument.compile_steps {d : CatalogDocument} {c : Catalog} :
    d.compile = .ok c ↔
      Text.trim d.language ≠ "" ∧ d.kinds ≠ [] ∧
        ∃ kinds, compileKinds [] d.kinds = .ok kinds ∧ (d.catalog kinds).undeclared? = none ∧
          c = d.catalog kinds := by
  rw [compile_eq, ne_eq d.kinds, ← List.isEmpty_iff]
  split
  · next h => exact ⟨nofun, fun hd => absurd h hd.1⟩
  · next hlanguage =>
      split
      · next h => exact ⟨nofun, fun hd => absurd h hd.2.1⟩
      · next hne =>
          cases compileKinds [] d.kinds with
          | error err => exact ⟨nofun, fun ⟨_, _, _, h, _⟩ => nomatch h⟩
          | ok kinds =>
              dsimp only
              cases hundeclared : (d.catalog kinds).undeclared? with
              | some err =>
                  refine ⟨nofun, ?_⟩
                  rintro ⟨-, -, _, ⟨⟩, hnone, -⟩
                  cases hundeclared.symm.trans hnone
              | none =>
                  constructor
                  · rintro ⟨⟩
                    exact ⟨hlanguage, hne, kinds, rfl, hundeclared, rfl⟩
                  · rintro ⟨-, -, _, ⟨⟩, -, rfl⟩
                    rfl

/-- **A document compiles** when its kinds do, their names are distinct, and their variants are
declared. -/
theorem CatalogDocument.compile_eq_ok_iff {d : CatalogDocument} {c : Catalog} :
    d.compile = .ok c ↔
      Text.trim d.language ≠ "" ∧ d.kinds ≠ [] ∧ c = d.catalog c.kinds ∧
        List.Forall₂ (fun kd k => kd.compile = .ok k) d.kinds c.kinds ∧
        (c.kinds.map (·.name)).Nodup ∧
        ∀ k ∈ c.kinds, ∀ s ∈ k.slots, ∀ v ∈ s.variants, c.declaresVariant v = true := by
  have hkinds : ∀ kinds, compileKinds [] d.kinds = .ok kinds ↔
      List.Forall₂ (fun kd k => kd.compile = .ok k) d.kinds kinds ∧ (kinds.map (·.name)).Nodup :=
    fun kinds => (compileKinds_eq_ok_iff (by simp)).trans
      (and_congr_left fun _ => ⟨fun ⟨_, h, hall⟩ => h ▸ hall, fun h => ⟨kinds, rfl, h⟩⟩)
  rw [compile_steps]
  refine and_congr_right fun _ => and_congr_right fun _ => ?_
  constructor
  · rintro ⟨kinds, hck, hundeclared, rfl⟩
    obtain ⟨hall, hnames⟩ := (hkinds kinds).mp hck
    exact ⟨rfl, hall, hnames, Catalog.undeclared?_eq_none_iff.mp hundeclared⟩
  · rintro ⟨hc, hall, hnames, hdeclared⟩
    refine ⟨c.kinds, (hkinds _).mpr ⟨hall, hnames⟩, ?_, hc⟩
    rw [← hc]
    exact Catalog.undeclared?_eq_none_iff.mpr hdeclared

/-- **A catalog that compiles is well-formed.** -/
theorem CatalogDocument.compile_wellFormed {d : CatalogDocument} {c : Catalog}
    (h : d.compile = .ok c) : c.WellFormed := by
  obtain ⟨-, -, -, hall, hnames, -⟩ := compile_eq_ok_iff.mp h
  refine ⟨fun k hk => ?_, hnames⟩
  obtain ⟨kd, -, hkd⟩ := exists_of_forall₂_right hall k hk
  obtain ⟨-, hfree, -, hdeclares, hdistinct, hkeys⟩ := KindDocument.compile_eq_ok_iff.mp hkd
  exact ⟨hdistinct, hkeys, hdeclares.name ▸ hfree⟩

/-- The kinds of a catalog that compiles have the declared names, in the declared order. -/
theorem CatalogDocument.names_eq {kinds : List Kind} {ds : List KindDocument}
    (h : List.Forall₂ (fun kd k => KindDocument.compile kd = .ok k) ds kinds) :
    ds.map (Text.trim ·.name) = kinds.map (·.name) :=
  map_eq_of_forall₂ h fun hk => (KindDocument.compile_eq_ok_iff.mp hk).2.2.2.1.name.symm

/-- **The documents that compile** are the well-formed ones. -/
theorem CatalogDocument.exists_compile_iff {d : CatalogDocument} :
    (∃ c, d.compile = .ok c) ↔ d.WellFormed := by
  constructor
  · rintro ⟨c, hc⟩
    obtain ⟨hlanguage, hne, hcatalog, hall, hnames, hdeclared⟩ := compile_eq_ok_iff.mp hc
    have htokens : c.tokens = d.tokens := congrArg Catalog.tokens hcatalog
    have hkinds : ∀ kd ∈ d.kinds, kd.WellFormed := by
      intro kd hkd
      obtain ⟨k, -, hk⟩ := exists_of_forall₂ hall kd hkd
      exact KindDocument.exists_compile_iff.mp ⟨k, hk⟩
    -- every variant written in the document is one of the catalog's, through its kind and its slot
    have hvariants : ∀ kd ∈ d.kinds, ∀ sd ∈ kd.slots, ∀ e ∈ sd.variants, ∀ v,
        Variant.parse e = .ok v → c.declaresVariant v = true := by
      intro kd hkd sd hsd e he v hv
      obtain ⟨k, hk, hcompile⟩ := exists_of_forall₂ hall kd hkd
      obtain ⟨-, -, -, hdeclares, -⟩ := KindDocument.compile_eq_ok_iff.mp hcompile
      obtain ⟨s, hs, hslot⟩ := exists_of_forall₂ hdeclares.slots sd hsd
      obtain ⟨v', hv', hparse⟩ := exists_of_forall₂ hslot.variants e he
      cases hv.symm.trans hparse
      exact hdeclared k hk s hs v hv'
    refine ⟨hlanguage, hne, hkinds, names_eq hall ▸ hnames, ?_, ?_⟩
    · intro kd hkd sd hsd e he v hv
      rw [names_eq hall]
      exact ((Catalog.declaresVariant_iff hv).mp (hvariants kd hkd sd hsd e he v hv)).1
    · intro kd hkd sd hsd e he v hv
      rw [← htokens]
      exact ((Catalog.declaresVariant_iff hv).mp (hvariants kd hkd sd hsd e he v hv)).2
  · intro h
    obtain ⟨kinds, hall⟩ := exists_forall₂ fun kd hkd =>
      KindDocument.exists_compile_iff.mpr (h.kinds kd hkd)
    refine ⟨d.catalog kinds, compile_eq_ok_iff.mpr
      ⟨h.language, h.kinds_ne, rfl, hall, names_eq hall ▸ h.names, ?_⟩⟩
    intro k hk s hs v hv
    obtain ⟨kd, hkd, hcompile⟩ := exists_of_forall₂_right hall k hk
    obtain ⟨-, -, -, hdeclares, -⟩ := KindDocument.compile_eq_ok_iff.mp hcompile
    obtain ⟨sd, hsd, hslot⟩ := exists_of_forall₂_right hdeclares.slots s hs
    obtain ⟨e, he, hparse⟩ := exists_of_forall₂_right hslot.variants v hv
    refine (Catalog.declaresVariant_iff hparse).mpr ⟨fun hclass => ?_, ?_⟩
    · exact names_eq hall ▸ h.composites kd hkd sd hsd e he v hparse hclass
    · exact h.tokens kd hkd sd hsd e he v hparse

/-- The order of the kinds does not matter. -/
theorem CatalogDocument.WellFormed.perm {d : CatalogDocument} {kinds : List KindDocument}
    (hperm : d.kinds.Perm kinds) (h : d.WellFormed) :
    ({ d with kinds } : CatalogDocument).WellFormed where
  language := h.language
  kinds_ne hnil := h.kinds_ne ((hnil ▸ hperm : d.kinds.Perm []).eq_nil)
  kinds k hk := h.kinds k (hperm.mem_iff.mpr hk)
  names := (hperm.map _).nodup_iff.mp h.names
  composites k hk s hs e he v hv hclass :=
    (hperm.map _).mem_iff.mp (h.composites k (hperm.mem_iff.mpr hk) s hs e he v hv hclass)
  tokens k hk := h.tokens k (hperm.mem_iff.mpr hk)

/-! ### What compiling gives -/

/-- A catalog that gives its kinds and slots as a document declares them: kinds under their names and
in strictly ascending order, slots at the declared positions and under their names. -/
structure CatalogDocument.Gives (d : CatalogDocument) (c : Catalog) : Prop where
  found : ∀ name, (c.kind? name).isSome ↔ name ∈ d.kinds.map (Text.trim ·.name)
  declared : ∀ kd ∈ d.kinds, ∃ k, c.kind? (Text.trim kd.name) = some k ∧ kd.Declares k
  slotAt : ∀ kd ∈ d.kinds, ∀ k, c.kind? (Text.trim kd.name) = some k →
    ∀ i, Option.Rel (SlotDocument.Declares kd.effectiveStem) kd.slots[i]? (k.slotAt? i)
  slot : ∀ name k, c.kind? name = some k → ∀ slot i s,
    k.slot? slot = some (i, s) ↔ k.slotAt? i = some s ∧ s.name = slot
  ascending : c.sortedKinds.Pairwise fun k k' => k.name < k'.name
  mem_sorted : ∀ k, k ∈ c.sortedKinds ↔ c.kind? k.name = some k

theorem CatalogDocument.gives_of_compile {d : CatalogDocument} {c : Catalog}
    (h : d.compile = .ok c) : d.Gives c := by
  obtain ⟨-, -, -, hall, -, -⟩ := compile_eq_ok_iff.mp h
  have hwell := compile_wellFormed h
  have hmem : ∀ {name k}, c.kind? name = some k → k ∈ c.kinds := List.mem_of_find?_eq_some
  -- the names of the kinds are distinct, so a kind is found under its own name
  have hdeclared : ∀ kd ∈ d.kinds, ∃ k, c.kind? (Text.trim kd.name) = some k ∧ kd.Declares k := by
    intro kd hkd
    obtain ⟨k, hk, hcompile⟩ := exists_of_forall₂ hall kd hkd
    obtain ⟨-, -, -, hdeclares, -⟩ := KindDocument.compile_eq_ok_iff.mp hcompile
    exact ⟨k, hdeclares.name ▸ hwell.kind?_eq hk, hdeclares⟩
  refine ⟨fun name => ?_, hdeclared, ?_, ?_, hwell.sortedKinds_strict, fun k => ?_⟩
  · rw [Catalog.kind?_isSome_iff, names_eq hall]
  · intro kd hkd k hk i
    obtain ⟨k', hk', hdeclares⟩ := hdeclared kd hkd
    cases hk.symm.trans hk'
    exact getElem?_of_forall₂ hdeclares.slots i
  · intro name k hk slot i s
    constructor
    · exact Kind.slot?_eq_some
    · rintro ⟨hat, rfl⟩
      exact (hwell.kinds k (hmem hk)).distinct.slot?_eq hat
  · rw [Catalog.mem_sortedKinds]
    exact ⟨hwell.kind?_eq, hmem⟩

/-- For every catalog document: it compiles exactly when it is well-formed, the catalog gives what the
document declares, and whether it compiles does not depend on the order of its kinds. -/
theorem compiles_iff_wellFormed (d : CatalogDocument) :
    ((∃ c, d.compile = .ok c) ↔ d.WellFormed) ∧
      (∀ c, d.compile = .ok c → d.Gives c) ∧
      ∀ kinds, d.kinds.Perm kinds →
        ((∃ c, ({ d with kinds } : CatalogDocument).compile = .ok c) ↔ ∃ c, d.compile = .ok c) := by
  refine ⟨d.exists_compile_iff, fun c => d.gives_of_compile, fun kinds hperm => ?_⟩
  rw [CatalogDocument.exists_compile_iff, CatalogDocument.exists_compile_iff]
  refine ⟨fun h => ?_, fun h => h.perm hperm⟩
  have hback := h.perm hperm.symm
  exact hback

/-- Two kinds that name one another. The name of the second has white space behind it. -/
def mutualDocument : CatalogDocument where
  language := "Mutual"
  tokens := ["word"]
  kinds := [
    { name := "even", slots := [{ name := "next", variants := ["odd", "missing"] }] },
    { name := "odd ", slots := [{ name := "next", variants := ["even", "token:word"] }] }]

/-- The catalog of two kinds that name one another. -/
def mutualCatalog : Catalog where
  language := "Mutual"
  extensions := []
  tokens := ["word"]
  trivia := []
  kinds := [
    ⟨"even", "even", [⟨"next", "even_next", [⟨.composite, "odd"⟩, ⟨.missing, "missing"⟩]⟩]⟩,
    ⟨"odd", "odd", [⟨"next", "odd_next", [⟨.composite, "even"⟩, ⟨.token, "word"⟩]⟩]⟩]

/-- The two kinds compile in either order, though each names the other. -/
theorem compiles_iff_wellFormed_mutual :
    mutualDocument.compile = .ok mutualCatalog ∧ mutualDocument.WellFormed ∧
      mutualDocument.Gives mutualCatalog ∧
      ∃ c, { mutualDocument with kinds := mutualDocument.kinds.reverse }.compile = .ok c := by
  have hc : mutualDocument.compile = .ok mutualCatalog := rfl
  obtain ⟨hwell, hgives, horder⟩ := compiles_iff_wellFormed mutualDocument
  exact ⟨hc, hwell.mp ⟨_, hc⟩, hgives _ hc,
    (horder _ (List.reverse_perm _).symm).mpr ⟨_, hc⟩⟩

end Lossless
