import Lossless.Proofs.Schema.Agreement

/-!
# Catalog — kinds that are of use

A kind of a catalog is of use when composites of it can be built from parser output, and when its
schema is one that output can be checked against.  For the kinds of a catalog that compiles, one key
stands in the way of both.  Under `kind` parser output has the name of the kind, so a slot of that key
never has a node there (`builds_iff`); and a schema requires `kind` of the objects of every kind, so a
slot of that key makes it require the key twice (`requiresDistinct_kindSchema`), and then nothing is
checked against it (`validate_error`).

Keys are compared with each other only when a document is compiled, so there are catalogs with such a
slot (`compiled_kinds_not_always_usable`).  Any other kind is of use (`kind_usable_iff`).
-/

namespace Lossless

/-! ### Composites that are built -/

theorem Description.eq_composite_of_outline {α : Type} {d : Description α} {k : Kind}
    {ds : List (Description Unit)} (h : d.outline = .composite k ds) :
    ∃ ds', d = .composite k ds' := by
  cases d with
  | missing | token | list =>
      rw [outline] at h
      cases h
  | composite k' ds' =>
      rw [outline] at h
      cases h
      exact ⟨ds', rfl⟩

theorem Node.eq_composite_of_description {n : Node} {k : Kind} {ds : List (Description Text)}
    (h : n.description = .composite k ds) : ∃ id cs w, n = .composite id k cs w := by
  cases n with
  | missing | token | list =>
      rw [description] at h
      cases h
  | composite id k' cs w =>
      rw [description] at h
      cases h
      exact ⟨id, cs, w, rfl⟩

namespace Parse

variable {c : Catalog} {k : Kind} {members : List (String × Json)}

/-- A composite of a kind is built, from some value along some source. -/
def Builds (c : Catalog) (k : Kind) (file : String) (supply : Supply) : Prop :=
  ∃ v offset source id cs w supply',
    fromJson c v file offset source supply = .ok (.composite id k cs w, supply')

/-- Where every slot is described, an object stands under the key of each. -/
theorem DescribesSlots.object {slots : List Slot} {ds : List (Description TextSpec)}
    (h : DescribesSlots c members slots ds) :
    ∀ s ∈ slots, ∃ inner, Json.member? members s.key = some (.obj inner) := by
  induction slots generalizing ds with
  | nil => exact nofun
  | cons s slots ih =>
      cases h with
      | cons hv hd hds =>
          refine List.forall_mem_cons.mpr ⟨?_, ih hds⟩
          cases hd with
          | missing | token | list | composite => exact ⟨_, hv⟩

/-- No composite is described where a slot has the key of the kind. -/
theorem Describes.no_kind_key {v : Json} {ds : List (Description TextSpec)}
    (h : Describes c v (.composite k ds)) : "kind" ∉ k.slots.map (·.key) := by
  intro hmem
  obtain ⟨s, hs, hkey⟩ := List.mem_map.mp hmem
  cases h with
  | token _ htoken => cases htoken
  | composite hkind _ _ hds =>
      obtain ⟨inner, hinner⟩ := hds.object s hs
      rw [hkey, hkind] at hinner
      cases hinner

/-- Where no slot has the key of the kind, a composite with nothing in its slots is described. -/
theorem exists_describes (hc : c.WellFormed) (hk : k ∈ c.kinds)
    (hkeys : "kind" ∉ k.slots.map (·.key)) :
    ∃ v ds, Describes c v (.composite k ds) ∧
      ∀ spec ∈ Description.leavesAll ds, spec.Satisfiable := by
  let bare (_ : Slot) : Json := Node.encoding .missing
  have hbare : ∀ s, Describable c (bare s) := fun _ => ⟨.missing, .missing rfl, nofun⟩
  have hzip : k.slots.zip (k.slots.map bare) = k.slots.map fun s => (s, bare s) := by
    simpa using List.zip_map' (f := id) (g := bare) (l := k.slots)
  have hne : ∀ s ∈ k.slots, s.key ≠ "kind" := fun s hs hkey =>
    hkeys (List.mem_map.mpr ⟨s, hs, hkey⟩)
  have hmember : ∀ p ∈ k.slots.zip (k.slots.map bare),
      Json.member? (k.members (k.slots.map bare)) p.1.key = some p.2 :=
    member?_members (hc.kinds k hk).keys hne
  rw [hzip, List.forall_mem_map] at hmember
  obtain ⟨ds, hds, hsat⟩ := describableSlots_iff.mpr fun s hs => ⟨bare s, hmember s hs, hbare s⟩
  exact ⟨.obj _, ds, .composite rfl (hc.kinds k hk).unreserved (hc.kind?_eq hk) hds, hsat⟩

/-- **Composites of a kind are built** unless a slot of it has the key of the kind. -/
theorem builds_iff (hc : c.WellFormed) (hk : k ∈ c.kinds) {file : String} {supply : Supply} :
    Builds c k file supply ↔ "kind" ∉ k.slots.map (·.key) := by
  constructor
  · rintro ⟨v, offset, source, id, cs, w, supply', h⟩
    obtain ⟨-, d, hd, hreal⟩ := fromJson_realizes h
    obtain ⟨ds, rfl⟩ := Description.eq_composite_of_outline hreal.outline.symm
    exact hd.no_kind_key
  · intro hkeys
    obtain ⟨v, ds, hd, hsat⟩ := exists_describes hc hk hkeys
    obtain ⟨source, n, supply', h⟩ := exists_fromJson_iff.mpr ⟨_, hd, hsat⟩
    -- the value describes nothing else
    obtain ⟨-, d, hd', hreal⟩ := fromJson_realizes h
    obtain rfl := hd.unique hd'
    obtain ⟨ds', hn⟩ := Description.eq_composite_of_outline hreal.outline
    obtain ⟨id, cs, w, rfl⟩ := Node.eq_composite_of_description hn
    exact ⟨v, 0, source, id, cs, w, supply', h⟩

end Parse

/-! ### Required keys -/

/-- No rule of a schema requires a key twice. -/
def Schema.RequiresDistinct : Schema → Prop
  | .ref _ => True
  | .rules rs => ∀ keys, .required keys ∈ rs → keys.Nodup

namespace SchemaDocument

/-- The check of a schema before it is used. -/
theorem requiresDistinct_of_requiresOnce {s : Schema} (h : requiresOnce s = true) :
    s.RequiresDistinct := by
  cases s with
  | ref definition => trivial
  | rules rs =>
      intro keys hkeys
      have hlength := List.all_eq_true.mp h _ hkeys
      exact nodup_of_length_eraseDups (beq_iff_eq.mp hlength)

/-- **A document is used only when no definition of it requires a key twice.** -/
theorem requiresDistinct_of_linked {d d' : SchemaDocument} (h : d.linked = .ok d') :
    ∀ p ∈ d.definitions, p.2.RequiresDistinct := by
  rintro ⟨name, own⟩ hp
  have hchecked : ∀ {s : Schema} {q : String × Schema},
      (if requiresOnce s && requiresOnce own then pure (name, s) else throw .repeatedKey :
        Except SchemaFault _) = .ok q → own.RequiresDistinct := by
    intro s q hq
    split at hq
    · next honce => exact requiresDistinct_of_requiresOnce (Bool.and_eq_true_iff.mp honce).2
    · cases hq
  rw [linked] at h
  obtain ⟨_, hps, -⟩ := exists_of_bind h
  obtain ⟨_, hq⟩ := forall_of_mapM hps _ hp
  -- a name is plain and leads to its definition, or the reference to it is resolved
  dsimp only at hq
  split at hq
  · exact hchecked hq
  · obtain ⟨_, -, hq⟩ := exists_of_bind hq
    exact hchecked hq

end SchemaDocument

namespace Catalog

variable {c : Catalog} {k : Kind}

theorem requiresDistinct_objectSchema {kind : String} {required : List String}
    {props : List (String × Schema)} :
    (objectSchema kind required props).RequiresDistinct ↔ ("kind" :: required).Nodup := by
  simp [objectSchema, Schema.RequiresDistinct]

/-- The schema of a kind requires a key twice if and only if a slot has the key of the kind. -/
theorem requiresDistinct_kindSchema (hk : k.WellFormed) :
    (kindSchema k).RequiresDistinct ↔ "kind" ∉ k.slots.map (·.key) := by
  rw [kindSchema, requiresDistinct_objectSchema, List.nodup_cons]
  exact and_iff_left hk.keys

/-- No value is checked against the schema of a catalog with a slot under the key of the kind. -/
theorem validate_error (hc : c.WellFormed) (hk : k ∈ c.kinds)
    (hkey : "kind" ∈ k.slots.map (·.key)) (v : Json) :
    ∃ fault, Parse.validate c v = .error ⟨c.language, fault⟩ := by
  cases hlinked : c.schema.linked with
  | error fault => exact ⟨fault, by rw [Parse.validate, hlinked]⟩
  | ok d =>
      have hdistinct := SchemaDocument.requiresDistinct_of_linked hlinked _ (kind_mem_definitions hk)
      exact absurd hkey ((requiresDistinct_kindSchema (hc.kinds k hk)).mp hdistinct)

end Catalog

/-! ### Kinds of a catalog that compiles -/

open Catalog (kindDefinition)

/-- For every catalog that compiles and every kind of it: composites of the kind are built from some
parser output exactly when no slot has the key `kind`, and exactly then the definition of the kind in
the schema requires no key twice. Where a slot has that key, nothing can be checked against the
schema. -/
theorem kind_usable_iff {document : CatalogDocument} {c : Catalog} (hc : document.compile = .ok c)
    {k : Kind} (hk : k ∈ c.kinds) :
    (∀ file supply, Parse.Builds c k file supply ↔ "kind" ∉ k.slots.map (·.key)) ∧
    (∃ s, c.schema.definition? (kindDefinition k.name) = some s ∧
      (s.RequiresDistinct ↔ "kind" ∉ k.slots.map (·.key))) ∧
    ("kind" ∈ k.slots.map (·.key) → ∀ v, ∃ fault, Parse.validate c v = .error fault) := by
  have hwell := CatalogDocument.compile_wellFormed hc
  refine ⟨fun file supply => Parse.builds_iff hwell hk, ⟨Catalog.kindSchema k, ?_, ?_⟩, ?_⟩
  · exact Catalog.definition?_schema hwell (Catalog.kind_mem_definitions hk)
  · exact Catalog.requiresDistinct_kindSchema (hwell.kinds k hk)
  · intro hkey v
    obtain ⟨fault, hv⟩ := Catalog.validate_error hwell hk hkey v
    exact ⟨_, hv⟩

theorem kind_usable_iff_pairKind :
    (Parse.pairDocument.compile = .ok Parse.pairCatalog ∧
      Parse.pairKind ∈ Parse.pairCatalog.kinds) ∧
    Parse.Builds Parse.pairCatalog Parse.pairKind "a.pair" Supply.start ∧
    ∃ s, Parse.pairCatalog.schema.definition? "kind.pair" = some s ∧ s.RequiresDistinct := by
  have hc : Parse.pairDocument.compile = .ok Parse.pairCatalog := rfl
  have hk : Parse.pairKind ∈ Parse.pairCatalog.kinds := List.mem_singleton_self _
  have hkeys : "kind" ∉ Parse.pairKind.slots.map (·.key) := by decide
  obtain ⟨hbuilds, ⟨s, hs, hdistinct⟩, -⟩ := kind_usable_iff hc hk
  exact ⟨⟨hc, hk⟩, (hbuilds _ _).mpr hkeys, s, hs, hdistinct.mpr hkeys⟩

/-- A language with one kind, whose only slot has the key of the kind. -/
def kindKeyDocument : CatalogDocument where
  language := "X"
  kinds := [{ name := "a", slots := [{ name := "s", key := "kind" }] }]

/-- The kind with that slot. -/
def kindKeyKind : Kind where
  name := "a"
  stem := "a"
  slots := [⟨"s", "kind", []⟩]

/-- The catalog with that kind. -/
def kindKeyCatalog : Catalog := ⟨"X", [], [kindKeyKind], [], []⟩

/-- A document can compile though a kind is of no use: no composite of it is ever built, and its
definition in the schema requires a key twice. -/
theorem compiled_kinds_not_always_usable :
    kindKeyDocument.compile = .ok kindKeyCatalog ∧ kindKeyKind ∈ kindKeyCatalog.kinds ∧
      (∀ file supply, ¬Parse.Builds kindKeyCatalog kindKeyKind file supply) ∧
      ∃ s, kindKeyCatalog.schema.definition? (kindDefinition kindKeyKind.name) = some s ∧
        ¬s.RequiresDistinct := by
  have hc : kindKeyDocument.compile = .ok kindKeyCatalog := rfl
  have hk : kindKeyKind ∈ kindKeyCatalog.kinds := List.mem_singleton_self _
  have hkey : ¬"kind" ∉ kindKeyKind.slots.map (·.key) := by decide
  have hwell := CatalogDocument.compile_wellFormed hc
  refine ⟨hc, hk, fun file supply hbuilds => hkey ((Parse.builds_iff hwell hk).mp hbuilds), ?_⟩
  refine ⟨_, Catalog.definition?_schema hwell (Catalog.kind_mem_definitions hk), fun hdistinct => ?_⟩
  exact hkey ((Catalog.requiresDistinct_kindSchema (hwell.kinds _ hk)).mp hdistinct)

end Lossless
