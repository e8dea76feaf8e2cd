import Lossless.Proofs.Catalog.Usability

/-!
# Schema — the kinds that a schema lets through

Whether the schema of a catalog accepts the values that the builder reads is said for canonical values
(`decides_root`).  One half of it needs no more than that the schema can be used: what is accepted is an
object with the kind of a form, and nodes that are accepted too where the form has its parts
(`AcceptsNode.hasForm`).  So in **a value that is found valid** every node has a kind that the catalog
knows (`acceptsNode_of_validate`).
-/

namespace Lossless

namespace SchemaDocument

variable {d d' : SchemaDocument} {fuel : Nat} {v w : Json} {members : List (String × Json)}

/-! ### Parts of what is accepted -/

theorem accepts_of_ref {name : String} (h : d.accepts fuel (.ref name) v = true) :
    ∃ s fuel', d.definition? name = some s ∧ d.accepts fuel' s v = true := by
  cases fuel with
  | zero => cases h
  | succ fuel =>
      rw [accepts_ref] at h
      split at h
      · next s hs => exact ⟨s, fuel, hs, h⟩
      · cases h

theorem obeys_of_rules {rules : List Constraint} (h : d.accepts fuel (.rules rules) v = true) :
    ∃ fuel', ∀ r ∈ rules, d.obeys fuel' r v = true := by
  cases fuel with
  | zero => cases h
  | succ fuel => exact ⟨fuel, List.all_eq_true.mp h⟩

theorem accepts_of_oneOf {alts : List Schema} (h : d.obeys fuel (.oneOf alts) v = true) :
    ∃ s ∈ alts, ∃ fuel', d.accepts fuel' s v = true := by
  cases fuel with
  | zero => cases h
  | succ fuel =>
      rw [obeys_oneOf, beq_iff_eq] at h
      obtain ⟨s, hs⟩ := List.exists_mem_of_length_pos (h ▸ Nat.one_pos)
      obtain ⟨hmem, haccepts⟩ := List.mem_filter.mp hs
      exact ⟨s, hmem, fuel, haccepts⟩

theorem accepts_of_items {s : Schema} {vs : List Json} (h : d.obeys fuel (.items s) (.arr vs) = true)
    (hw : w ∈ vs) : ∃ fuel', d.accepts fuel' s w = true := by
  cases fuel with
  | zero => cases h
  | succ fuel =>
      rw [obeys_items] at h
      exact ⟨fuel, List.all_eq_true.mp h w hw⟩

theorem accepts_of_property {props : List (String × Schema)} {p : String × Schema}
    (h : d.obeys fuel (.properties props) (.obj members) = true) (hp : p ∈ props)
    (hw : Json.member? members p.1 = some w) : ∃ fuel', d.accepts fuel' p.2 w = true := by
  cases fuel with
  | zero => cases h
  | succ fuel =>
      rw [obeys_properties] at h
      have hone := List.all_eq_true.mp h p hp
      rw [hw] at hone
      exact ⟨fuel, hone⟩

theorem eq_of_const {name : String} (h : d.obeys fuel (.const name) v = true) : v = .str name := by
  cases fuel with
  | zero => cases h
  | succ fuel =>
      rw [obeys_const] at h
      cases v with
      | str s => exact congrArg Json.str (beq_iff_eq.mp h)
      | _ => cases h

theorem exists_members_of_type (h : d.obeys fuel (.type .object) v = true) :
    ∃ members, v = .obj members := by
  cases fuel with
  | zero => cases h
  | succ fuel => exact holds_object.mp h

theorem isSome_of_required {keys : List String} {key : String}
    (h : d.obeys fuel (.required keys) (.obj members) = true) (hkey : key ∈ keys) :
    ∃ w, Json.member? members key = some w := by
  cases fuel with
  | zero => cases h
  | succ fuel =>
      rw [obeys_required] at h
      exact Option.isSome_iff_exists.mp (List.all_eq_true.mp h key hkey)

/-! ### Documents in use -/

end SchemaDocument

namespace Catalog

open SchemaDocument
open Parse (Form forms)

variable {c : Catalog} {v w : Json} {members : List (String × Json)}

/-- A value that the schema accepts as a node. -/
def AcceptsNode (c : Catalog) (v : Json) : Prop :=
  ∃ fuel, c.schema.accepts fuel c.schema.root v = true

/-- Members with the kind of a form, and with nodes that are accepted where the form has its parts. -/
structure HasForm (c : Catalog) (members : List (String × Json)) (form : Form) : Prop where
  kind : Json.member? members "kind" = some (.str form.name)
  elements : form = .list → ∀ items, Json.member? members "elements" = some (.arr items) →
    ∀ x ∈ items, c.AcceptsNode x
  slots : ∀ k, form = .composite k → ∀ s ∈ k.slots, ∀ x, Json.member? members s.key = some x →
    c.AcceptsNode x

theorem HasForm.bare {form : Form} (hkind : Json.member? members "kind" = some (.str form.name))
    (hlist : form ≠ .list) (hcomposite : ∀ k, form ≠ .composite k) : c.HasForm members form where
  kind := hkind
  elements h := absurd h hlist
  slots k h := absurd h (hcomposite k)

/-- What the schema of objects of a kind lets through. -/
theorem objectSchema_accepted {d : SchemaDocument} {fuel : Nat} {kind : String}
    {required : List String} {props : List (String × Schema)}
    (hkeys : ("kind" :: props.map (·.1)).Nodup)
    (h : d.accepts fuel (objectSchema kind required props) v = true) :
    ∃ members, v = .obj members ∧ Json.member? members "kind" = some (.str kind) ∧
      ∀ p ∈ props, ∀ x, Json.member? members p.1 = some x → ∃ fuel', d.accepts fuel' p.2 x = true := by
  rw [objectSchema, foldl_setProperty (by simpa using hkeys)] at h
  obtain ⟨fuel, hrules⟩ := obeys_of_rules h
  simp only [List.forall_mem_cons] at hrules
  obtain ⟨htype, hrequired, hprops, -⟩ := hrules
  obtain ⟨members, rfl⟩ := exists_members_of_type htype
  obtain ⟨w, hw⟩ := isSome_of_required hrequired List.mem_cons_self
  obtain ⟨fuel', hconst⟩ := accepts_of_property hprops List.mem_cons_self hw
  obtain ⟨fuel'', hconst⟩ := obeys_of_rules hconst
  obtain rfl := eq_of_const (hconst _ List.mem_cons_self)
  exact ⟨members, rfl, hw, fun p hp x hx => accepts_of_property hprops (List.mem_cons_of_mem _ hp) hx⟩

theorem anyNode_accepted (hc : c.WellFormed) {fuel : Nat}
    (h : c.schema.accepts fuel anyNode v = true) : c.AcceptsNode v := by
  obtain ⟨s, fuel', hs, h⟩ := accepts_of_ref h
  have hnode : c.schema.definition? "node" = some c.schema.root :=
    definition?_schema hc (by simp [schema])
  cases hnode.symm.trans hs
  exact ⟨fuel', h⟩

/-- **What is accepted has a form**, whatever the rest of the value is. -/
theorem AcceptsNode.hasForm (hc : c.WellFormed) (hkeys : Parse.NoKindKey c) (h : c.AcceptsNode v) :
    ∃ form ∈ forms c, ∃ members, v = .obj members ∧ c.HasForm members form := by
  obtain ⟨fuel, h⟩ := h
  obtain ⟨fuel, hone⟩ := obeys_of_rules h
  -- one alternative accepts the value, and each alternative is the definition of a form
  obtain ⟨s, hs, fuel, h⟩ := accepts_of_oneOf (hone _ List.mem_cons_self)
  rw [nodeAlternatives_eq] at hs
  obtain ⟨form, hform, rfl⟩ := List.mem_map.mp hs
  obtain ⟨s, fuel, hdefinition, h⟩ := accepts_of_ref h
  refine ⟨form, hform, ?_⟩
  cases form with
  | missing =>
      have hmissing : c.schema.definition? "missing" = some (objectSchema "missing" [] []) :=
        definition?_schema hc (by simp [schema])
      cases hmissing.symm.trans hdefinition
      obtain ⟨members, rfl, hkind, -⟩ := objectSchema_accepted (by decide) h
      exact ⟨members, rfl, .bare hkind (by simp) (by simp)⟩
  | token =>
      have htoken : c.schema.definition? "token" =
          some (objectSchema "token" ["token"] [("token", c.tokenBodySchema)]) :=
        definition?_schema hc (by simp [schema])
      cases htoken.symm.trans hdefinition
      have hkeys : ("kind" :: [("token", c.tokenBodySchema)].map (·.1)).Nodup :=
        show ["kind", "token"].Nodup by decide
      obtain ⟨members, rfl, hkind, -⟩ := objectSchema_accepted hkeys h
      exact ⟨members, rfl, .bare hkind (by simp) (by simp)⟩
  | list =>
      have hlist : c.schema.definition? "list" = some (objectSchema "list" ["elements"]
          [("elements", .rules [.type .array, .items anyNode])]) :=
        definition?_schema hc (by simp [schema])
      cases hlist.symm.trans hdefinition
      obtain ⟨members, rfl, hkind, hprops⟩ := objectSchema_accepted (by decide) h
      refine ⟨members, rfl, hkind, fun _ items hitems x hx => ?_, by simp⟩
      obtain ⟨fuel, h⟩ := hprops _ List.mem_cons_self _ hitems
      obtain ⟨fuel, h⟩ := obeys_of_rules h
      obtain ⟨fuel, h⟩ := accepts_of_items (h _ (.tail _ (.head _))) hx
      exact anyNode_accepted hc h
  | composite k =>
      have hk : k ∈ c.kinds := by simpa [forms, mem_sortedKinds] using hform
      have hkind := definition?_schema hc (kind_mem_definitions hk)
      cases hkind.symm.trans hdefinition
      rw [kindSchema] at h
      obtain ⟨members, rfl, hkind, hprops⟩ := objectSchema_accepted
        (by simpa [Function.comp_def] using keys_nodup hc hkeys hk) h
      refine ⟨members, rfl, hkind, by simp, ?_⟩
      rintro _ ⟨⟩ s hs x hx
      obtain ⟨fuel, h⟩ := hprops _ (List.mem_map_of_mem hs) x hx
      exact anyNode_accepted hc h

section Forms

variable (hc : c.WellFormed) (hkeys : Parse.NoKindKey c) (h : c.AcceptsNode (.obj members))

include hc hkeys h

/-- The kind of an accepted object tells its form. -/
theorem AcceptsNode.hasForm_of_name {form : Form} (hform : form ∈ forms c)
    (hkind : Json.member? members "kind" = some (.str form.name)) : c.HasForm members form := by
  obtain ⟨form', hform', _, ⟨⟩, hforms⟩ := h.hasForm hc hkeys
  have hname : form'.name = form.name :=
    Json.str.inj (Option.some.inj (hforms.kind.symm.trans hkind))
  rwa [List.inj_on_of_nodup_map (Parse.forms_nodup hc) hform' hform hname] at hforms

theorem AcceptsNode.elements (hkind : Json.member? members "kind" = some (.str "list"))
    {items : List Json} (hitems : Json.member? members "elements" = some (.arr items)) :
    ∀ x ∈ items, c.AcceptsNode x := by
  have hform : Form.list ∈ forms c := by simp [forms]
  exact (h.hasForm_of_name hc hkeys hform hkind).elements rfl items hitems

theorem AcceptsNode.slots {name : String} {k : Kind}
    (hkind : Json.member? members "kind" = some (.str name)) (hk : c.kind? name = some k) :
    ∀ s ∈ k.slots, ∀ x, Json.member? members s.key = some x → c.AcceptsNode x := by
  have hmem : k ∈ c.kinds := List.mem_of_find?_eq_some hk
  obtain rfl : k.name = name := by simpa using List.find?_some hk
  have hform : Form.composite k ∈ forms c := by simpa [forms] using mem_sortedKinds.mpr hmem
  exact (h.hasForm_of_name hc hkeys hform hkind).slots k rfl

/-- An accepted object of no form of its own has a kind that the catalog knows. -/
theorem AcceptsNode.exists_kind {name : String}
    (hkind : Json.member? members "kind" = some (.str name)) (hname : name ∉ Parse.reservedKinds) :
    ∃ k, c.kind? name = some k := by
  obtain ⟨form, hform, _, ⟨⟩, hforms⟩ := h.hasForm hc hkeys
  cases hkind.symm.trans hforms.kind
  cases form with
  | missing | list | token => exact absurd (by decide) hname
  | composite k =>
      have hk : k ∈ c.kinds := by simpa [forms, mem_sortedKinds] using hform
      exact ⟨k, hc.kind?_eq hk⟩

end Forms

end Catalog

end Lossless
