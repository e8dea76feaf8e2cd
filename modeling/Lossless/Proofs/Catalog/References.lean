import Lossless.Proofs.Catalog.Compilation
import Lossless.Proofs.Schema.Agreement
import Lossless.Proofs.Schema.Resolution

/-!
# Catalog — the references of a schema

The schema of a catalog refers to five definitions that every schema has, and to one for each kind
(`refersTo_schema`).  The names of kinds are put behind a common front, so they neither meet each other
nor the fixed names.

**Where they lead** (`references_lead_to_definitions`).  The fixed references always lead to their
definitions.  The reference to a kind does so exactly when the name of the kind is free of escapes.
Names are only trimmed when a document is compiled, so there are catalogs with a reference that leads
nowhere (`references_not_always_lead`).
-/

namespace Lossless

namespace Catalog

variable {c : Catalog} {r : String}

/-! ### The references that are written -/

/-- The definitions that every schema has. -/
def fixedDefinitions : List String := ["node", "missing", "list", "trivia", "token"]

theorem mem_setProperty {props : List (String × Schema)} {p q : String × Schema}
    (h : q ∈ setProperty props p) : q ∈ props ∨ q = p := by
  rw [setProperty] at h
  split at h
  · obtain ⟨q', hq', rfl⟩ := List.mem_map.mp h
    split
    · exact .inr rfl
    · exact .inl hq'
  · exact (List.mem_append.mp h).imp_right List.mem_singleton.mp

theorem mem_foldl_setProperty {props done : List (String × Schema)} {q : String × Schema}
    (h : q ∈ props.foldl setProperty done) : q ∈ done ∨ q ∈ props := by
  induction props generalizing done with
  | nil => exact .inl h
  | cons p props ih =>
      rcases ih h with hq | hq
      · refine (mem_setProperty hq).imp_right ?_
        rintro rfl
        exact .head _
      · exact .inr (.tail _ hq)

/-- The references of an object are those of its further properties. -/
theorem refersTo_objectSchema {kind : String} {required : List String}
    {props : List (String × Schema)} (h : (objectSchema kind required props).toJson.RefersTo r) :
    ∃ p ∈ props, p.2.toJson.RefersTo r := by
  simp only [objectSchema, refersTo_rules, List.mem_cons, List.not_mem_nil, or_false,
    exists_eq_or_imp, exists_eq_left, Constraint.toMember, refersTo_str, refersTo_ofStrings,
    refersTo_props, false_or] at h
  obtain ⟨p, hp, h⟩ := h
  rcases mem_foldl_setProperty hp with hp | hp
  · -- the property that every object has is a constant
    cases List.mem_singleton.mp hp
    simp [Constraint.toMember] at h
  · exact ⟨p, hp, h⟩

theorem refersTo_kindSchema {k : Kind} (h : (kindSchema k).toJson.RefersTo r) :
    r = definitionPointer "node" := by
  obtain ⟨p, hp, h⟩ := refersTo_objectSchema h
  obtain ⟨s, -, rfl⟩ := List.mem_map.mp hp
  exact refersTo_ref.mp h

theorem not_refersTo_kindNameSchema (names : List String) :
    ¬(kindNameSchema names).toJson.RefersTo r := by
  rw [kindNameSchema]
  split <;> simp [Constraint.toMember, Json.ofNat]

theorem not_refersTo_triviaSchema : ¬c.triviaSchema.toJson.RefersTo r := by
  simp [triviaSchema, textProperties, textOrWidth, Constraint.toMember, Json.ofNat,
    not_refersTo_kindNameSchema]

theorem refersTo_tokenBodySchema (h : c.tokenBodySchema.toJson.RefersTo r) :
    r = definitionPointer "trivia" := by
  simpa [tokenBodySchema, textProperties, textOrWidth, Constraint.toMember, Json.ofNat,
    not_refersTo_kindNameSchema] using h

/-- The root refers to the forms of nodes. -/
theorem refersTo_alternatives :
    (Schema.rules [.oneOf c.nodeAlternatives]).toJson.RefersTo r ↔
      r ∈ ["missing", "list", "token"].map definitionPointer ∨
        ∃ k ∈ c.kinds, r = definitionPointer (kindDefinition k.name) := by
  simp [nodeAlternatives, Constraint.toMember, mem_sortedKinds, or_assoc]

/-- **The references that are written** are those to the fixed definitions and to the kinds. -/
theorem refersTo_schema (h : c.schema.toJson.RefersTo r) :
    r ∈ fixedDefinitions.map definitionPointer ∨
      ∃ k ∈ c.kinds, r = definitionPointer (kindDefinition k.name) := by
  have halternatives : (Schema.rules [.oneOf c.nodeAlternatives]).toJson.RefersTo r →
      r ∈ fixedDefinitions.map definitionPointer ∨
        ∃ k ∈ c.kinds, r = definitionPointer (kindDefinition k.name) := by
    intro h
    refine (refersTo_alternatives.mp h).imp_left fun h => ?_
    exact List.map_subset _ (by decide) h
  have hfixed : ∀ name ∈ fixedDefinitions, r = definitionPointer name →
      r ∈ fixedDefinitions.map definitionPointer := by
    rintro name hname rfl
    exact List.mem_map_of_mem hname
  rcases (refersTo_document rfl).mp h with ⟨p, hp, h⟩ | h
  · rcases List.mem_append.mp hp with hp | hp
    · obtain ⟨k, -, rfl⟩ := List.mem_map.mp hp
      exact .inl (hfixed "node" (by decide) (refersTo_kindSchema h))
    · -- the fixed definitions, in the order in which they are listed
      simp only [List.mem_cons, List.not_mem_nil, or_false] at hp
      obtain rfl | rfl | rfl | rfl | rfl := hp
      · exact halternatives h
      · obtain ⟨q, hq, -⟩ := refersTo_objectSchema h
        cases hq
      · obtain ⟨q, hq, h⟩ := refersTo_objectSchema h
        cases List.mem_singleton.mp hq
        have hnode : r = definitionPointer "node" := by simpa [Constraint.toMember, anyNode] using h
        exact .inl (hfixed "node" (by decide) hnode)
      · exact absurd h not_refersTo_triviaSchema
      · obtain ⟨q, hq, h⟩ := refersTo_objectSchema h
        cases List.mem_singleton.mp hq
        exact .inl (hfixed "trivia" (by decide) (refersTo_tokenBodySchema h))
  · exact halternatives h

theorem refersTo_kind {k : Kind} (hk : k ∈ c.kinds) :
    c.schema.toJson.RefersTo (definitionPointer (kindDefinition k.name)) :=
  (refersTo_document rfl).mpr (.inr (refersTo_alternatives.mpr (.inr ⟨k, hk, rfl⟩)))

/-! ### Where they lead -/

theorem escapeFree_kindDefinition {name : String} :
    Reference.EscapeFree (Text.ofString (kindDefinition name)) ↔
      Reference.EscapeFree (Text.ofString name) := by
  rw [kindDefinition, Text.ofString_append]
  exact Reference.escapeFree_append (by decide +kernel) (by decide +kernel) (by decide +kernel)

theorem escapeFree_fixedDefinitions {name : String} (h : name ∈ fixedDefinitions) :
    Reference.EscapeFree (Text.ofString name) := by
  have hall : ∀ name ∈ fixedDefinitions, Reference.percent ∉ Text.ofString name ∧
      Reference.slash ∉ Text.ofString name ∧ Reference.tilde ∉ Text.ofString name := by
    decide +kernel
  obtain ⟨hpercent, hslash, htilde⟩ := hall name h
  exact .of_notMem hpercent hslash htilde

theorem exists_fixedDefinition {name : String} (h : name ∈ fixedDefinitions) :
    ∃ s, (name, s) ∈ c.schema.definitions := by
  have hnames : fixedDefinitions ⊆ c.schema.definitions.map (·.1) := by
    simp [fixedDefinitions, schema]
  obtain ⟨p, hp, rfl⟩ := List.mem_map.mp (hnames h)
  exact ⟨p.2, hp⟩

end Catalog

open Catalog (kindDefinition kindSchema fixedDefinitions)

/-- The schema of a catalog that compiles refers to the fixed definitions and to the definitions of
its kinds, and to nothing else. Each reference to a fixed definition leads to this definition alone.
The reference to a kind leads to its definition if and only if the name of the kind is free of
escapes; then it leads to no other definition, and no other kind has this one. -/
theorem references_lead_to_definitions {document : CatalogDocument} {c : Catalog}
    (hc : document.compile = .ok c) :
    (∀ r, c.schema.toJson.RefersTo r → r ∈ fixedDefinitions.map definitionPointer ∨
      ∃ k ∈ c.kinds, r = definitionPointer (kindDefinition k.name)) ∧
    (∀ name ∈ fixedDefinitions, (∃ s, c.schema.LeadsTo (definitionPointer name) name s) ∧
      ∀ other s, c.schema.LeadsTo (definitionPointer name) other s → other = name) ∧
    ∀ k ∈ c.kinds, c.schema.toJson.RefersTo (definitionPointer (kindDefinition k.name)) ∧
      (c.schema.LeadsTo (definitionPointer (kindDefinition k.name)) (kindDefinition k.name)
        (kindSchema k) ↔ Reference.EscapeFree (Text.ofString k.name)) ∧
      (Reference.EscapeFree (Text.ofString k.name) → ∀ other s,
        c.schema.LeadsTo (definitionPointer (kindDefinition k.name)) other s →
          other = kindDefinition k.name ∧ ∀ k' ∈ c.kinds, kindDefinition k'.name = other → k' = k) := by
  have hwell := CatalogDocument.compile_wellFormed hc
  refine ⟨fun r => Catalog.refersTo_schema, fun name hname => ?_, fun k hk => ?_⟩
  · obtain ⟨s, hs⟩ := Catalog.exists_fixedDefinition (c := c) hname
    have hlead := (SchemaDocument.leadsTo_own_iff (Catalog.definition?_schema hwell hs)).mpr
      (Catalog.escapeFree_fixedDefinitions hname)
    exact ⟨⟨s, hlead⟩, fun other s' hother => hlead.unique hother⟩
  · have hown := SchemaDocument.leadsTo_own_iff
      (Catalog.definition?_schema hwell (Catalog.kind_mem_definitions hk))
    rw [Catalog.escapeFree_kindDefinition] at hown
    refine ⟨Catalog.refersTo_kind hk, hown, fun hfree other s hother => ?_⟩
    -- a reference leads to one place only
    obtain rfl := (hown.mpr hfree).unique hother
    refine ⟨rfl, fun k' hk' hname => ?_⟩
    exact hwell.eq_of_name hk' hk (Catalog.kindDefinition_injective hname)

theorem references_lead_to_definitions_pairKind :
    Parse.pairDocument.compile = .ok Parse.pairCatalog ∧
    Parse.pairCatalog.schema.toJson.RefersTo "#/definitions/kind.pair" ∧
    Parse.pairCatalog.schema.LeadsTo "#/definitions/kind.pair" "kind.pair"
      (kindSchema Parse.pairKind) := by
  have hc : Parse.pairDocument.compile = .ok Parse.pairCatalog := rfl
  have hfree : Reference.EscapeFree (Text.ofString Parse.pairKind.name) :=
    ⟨by decide +kernel, by decide +kernel, by decide +kernel, by decide +kernel⟩
  obtain ⟨-, -, hkinds⟩ := references_lead_to_definitions hc
  obtain ⟨hrefers, hleads, -⟩ := hkinds Parse.pairKind (List.mem_singleton_self _)
  exact ⟨hc, hrefers, hleads.mpr hfree⟩

/-- A language with a kind whose name has a slash. -/
def slashDocument : CatalogDocument where
  language := "X"
  kinds := [{ name := "a/b" }]

/-- The catalog with that kind. -/
def slashCatalog : Catalog := ⟨"X", [], [⟨"a/b", "a/b", []⟩], [], []⟩

/-- A document can compile though a reference of its schema leads nowhere: it is read as more than
one token. -/
theorem references_not_always_lead :
    slashDocument.compile = .ok slashCatalog ∧
      slashCatalog.schema.toJson.RefersTo (definitionPointer (kindDefinition "a/b")) ∧
      ∀ name s, ¬slashCatalog.schema.LeadsTo (definitionPointer (kindDefinition "a/b")) name s := by
  have hrefers : slashCatalog.schema.toJson.RefersTo (definitionPointer (kindDefinition "a/b")) :=
    Catalog.refersTo_kind (k := ⟨"a/b", "a/b", []⟩) (List.mem_singleton_self _)
  refine ⟨rfl, hrefers, fun name s hlead => ?_⟩
  -- nothing is decoded, and the slash is still there when the tokens are split
  obtain ⟨-, tokens, htokens, hkeys, -⟩ := hlead
  obtain ⟨u, hu, hslash, -⟩ := Reference.keys_definitionPointer.mp ⟨tokens, htokens, hkeys⟩
  have hpercent : Reference.percent ∉ Text.ofString (kindDefinition "a/b") := by decide +kernel
  obtain rfl := Except.ok.inj ((Reference.unescape_of_plain hpercent).symm.trans hu)
  exact hslash (by decide +kernel)

end Lossless
