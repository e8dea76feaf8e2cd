import Lossless.Proofs.Parse.Encoding

/-!
# Parse — values that some source has

A value is *describable* when it describes a tree and no width in it is negative (`Describable`).
Then there is a source for it, which has the texts and as many bytes as the widths say, and without
both there is none (`exists_fromJson_iff`): which source is given decides about the texts only, not
about the shape of the value.

Being describable follows the value.  There is one form of node for every kind of object
(`Form`, `forms`), and a value is describable when it is an object with the kind of a form whose parts
are describable (`describable_iff`).
-/

namespace Lossless.Parse

/-! ### Sources -/

/-- A specification that allows some text. -/
def TextSpec.Satisfiable : TextSpec → Prop
  | .text _ => True
  | .width w => 0 ≤ w

/-- A text that a specification allows, if any. -/
def TextSpec.sample : TextSpec → Text
  | .text t => t
  | .width w => List.replicate w.toNat 0

theorem TextSpec.Satisfiable.allows : ∀ {spec : TextSpec}, spec.Satisfiable →
    spec.Allows spec.sample
  | .text _, _ => rfl
  | .width w, h => by
      have hlen : (List.replicate w.toNat (0 : UInt8)).length = w.toNat := List.length_replicate
      simp only [Allows, sample, hlen]
      exact Int.toNat_of_nonneg h

theorem TextSpec.Allows.satisfiable : ∀ {spec : TextSpec} {t : Text}, spec.Allows t →
    spec.Satisfiable
  | .text _, _, _ => trivial
  | .width _, _, h => by
      rw [Satisfiable, ← h]
      exact Int.natCast_nonneg _

theorem Reads.satisfiable {source : Text} {o : Nat} {specs : List TextSpec} {texts : List Text}
    (h : Reads source o specs texts) : ∀ spec ∈ specs, spec.Satisfiable := by
  induction h with
  | nil => exact nofun
  | cons hspec _ _ ih => exact List.forall_mem_cons.mpr ⟨hspec.satisfiable, ih⟩

/-- Specifications match some source when every one of them allows some text: the texts one behind
the other are such a source. -/
theorem exists_matches_iff {specs : List TextSpec} :
    (∃ source, Matches source 0 specs) ↔ ∀ spec ∈ specs, spec.Satisfiable := by
  constructor
  · rintro ⟨source, h⟩
    obtain ⟨texts, hr⟩ := matches_iff.mp h
    exact hr.satisfiable
  · intro h
    have hallows : List.Forall₂ TextSpec.Allows specs (specs.map TextSpec.sample) := by
      rw [List.forall₂_map_right_iff]
      exact List.forall₂_same.mpr fun spec hspec => (h spec hspec).allows
    exact ⟨_, matches_iff.mpr ⟨_, .of_at hallows (Text.at_self _)⟩⟩

variable {c : Catalog} {v : Json} {members body : List (String × Json)}

/-- A value that describes a tree whose texts all are allowed to be something. -/
def Describable (c : Catalog) (v : Json) : Prop :=
  ∃ d, Describes c v d ∧ ∀ spec ∈ d.leaves, spec.Satisfiable

/-- **A tree is built from a value with some source** exactly when the value is describable. -/
theorem exists_fromJson_iff {file : String} {supply : Supply} :
    (∃ source n supply', fromJson c v file 0 source supply = .ok (n, supply')) ↔
      Describable c v := by
  constructor
  · rintro ⟨source, h⟩
    obtain ⟨-, d, hd, hm⟩ := exists_fromJson_iff_matches.mp h
    exact ⟨d, hd, exists_matches_iff.mp ⟨source, hm⟩⟩
  · rintro ⟨d, hd, hleaves⟩
    obtain ⟨source, hm⟩ := exists_matches_iff.mpr hleaves
    exact ⟨source, exists_fromJson_iff_matches.mpr
      ⟨⟨Int.le_refl _, Int.natCast_nonneg _⟩, d, hd, hm⟩⟩

/-! ### Tokens and trivia -/

/-- Members that specify a text that there is. -/
def DescribableText (members : List (String × Json)) : Prop :=
  ∃ spec, TextSpec.Given members spec ∧ spec.Satisfiable

/-- A describable piece of trivia. -/
def DescribableTrivia (c : Catalog) (v : Json) : Prop :=
  ∃ p, DescribesTrivia c v p ∧ p.2.Satisfiable

/-- Describable trivia under a key of a token body. -/
def DescribableTriviaAt (c : Catalog) (body : List (String × Json)) (key : String) : Prop :=
  ∃ ps, DescribesTriviaAt c body key ps ∧ ∀ p ∈ ps, p.2.Satisfiable

/-- Describable members of the body of a token. -/
structure DescribableBody (c : Catalog) (body : List (String × Json)) : Prop where
  kind : ∃ kind, Json.member? body "kind" = some (.str kind) ∧ c.isToken kind = true
  text : DescribableText body
  leading : DescribableTriviaAt c body "leading"
  trailing : DescribableTriviaAt c body "trailing"

theorem describableTrivia_iff :
    DescribableTrivia c v ↔ ∃ members, v = .obj members ∧
      (∃ kind, Json.member? members "kind" = some (.str kind) ∧ c.isTrivia kind = true) ∧
      DescribableText members := by
  constructor
  · rintro ⟨_, ⟨hkind, hc, hspec⟩, hsat⟩
    exact ⟨_, rfl, ⟨_, hkind, hc⟩, _, hspec, hsat⟩
  · rintro ⟨members, rfl, ⟨kind, hkind, hc⟩, spec, hspec, hsat⟩
    exact ⟨(kind, spec), .intro hkind hc hspec, hsat⟩

/-- Pieces of trivia that are describable one by one. -/
theorem describableTriviaAll_iff {items : List Json} :
    (∃ ps, List.Forall₂ (DescribesTrivia c) items ps ∧ ∀ p ∈ ps, p.2.Satisfiable) ↔
      ∀ v ∈ items, DescribableTrivia c v := by
  induction items with
  | nil => exact ⟨fun _ => nofun, fun _ => ⟨[], .nil, nofun⟩⟩
  | cons v items ih =>
      rw [List.forall_mem_cons, ← ih]
      constructor
      · rintro ⟨_, _ | ⟨hp, hps⟩, hsat⟩
        obtain ⟨hfirst, hrest⟩ := List.forall_mem_cons.mp hsat
        exact ⟨⟨_, hp, hfirst⟩, _, hps, hrest⟩
      · rintro ⟨⟨p, hp, hfirst⟩, ps, hps, hrest⟩
        exact ⟨p :: ps, .cons hp hps, List.forall_mem_cons.mpr ⟨hfirst, hrest⟩⟩

/-- Where no null stands, trivia are an array of them or not there at all. -/
theorem describableTriviaAt_iff {key : String} (hnull : Json.member? body key ≠ some .null) :
    DescribableTriviaAt c body key ↔ ∀ w, Json.member? body key = some w →
      ∃ items, w = .arr items ∧ ∀ v ∈ items, DescribableTrivia c v := by
  constructor
  · rintro ⟨ps, hps, hsat⟩ w hw
    cases hps with
    | absent h => cases h.symm.trans hw
    | null h => exact absurd h hnull
    | array h hitems =>
        cases h.symm.trans hw
        exact ⟨_, rfl, describableTriviaAll_iff.mp ⟨ps, hitems, hsat⟩⟩
  · intro h
    cases hw : Json.member? body key with
    | none => exact ⟨[], .absent hw, nofun⟩
    | some w =>
        obtain ⟨items, rfl, hitems⟩ := h w hw
        obtain ⟨ps, hps, hsat⟩ := describableTriviaAll_iff.mpr hitems
        exact ⟨ps, .array hw hps, hsat⟩

theorem describableToken_iff :
    (∃ d, DescribesToken c members d ∧ ∀ spec ∈ d.leaves, spec.Satisfiable) ↔
      ∃ body, Json.member? members "token" = some (.obj body) ∧ DescribableBody c body := by
  have hleaves : ∀ {kind : String} {leading trailing : List (String × TextSpec)} {spec : TextSpec},
      (∀ spec' ∈ (Description.token kind leading spec trailing).leaves, spec'.Satisfiable) ↔
        (∀ p ∈ leading, p.2.Satisfiable) ∧ spec.Satisfiable ∧ ∀ p ∈ trailing, p.2.Satisfiable := by
    intro kind leading trailing spec
    simp only [Description.leaves, List.forall_mem_append, List.forall_mem_cons, List.forall_mem_map]
  constructor
  · rintro ⟨_, ⟨hbody, hkind, hc, hleading, hspec, htrailing⟩, hsat⟩
    obtain ⟨hl, ht, hr⟩ := hleaves.mp hsat
    exact ⟨_, hbody, ⟨_, hkind, hc⟩, ⟨_, hspec, ht⟩, ⟨_, hleading, hl⟩, ⟨_, htrailing, hr⟩⟩
  · rintro ⟨body, hbody, ⟨kind, hkind, hc⟩, ⟨_, hspec, ht⟩, ⟨_, hleading, hl⟩, ⟨_, htrailing, hr⟩⟩
    exact ⟨_, .intro hbody hkind hc hleading hspec htrailing, hleaves.mpr ⟨hl, ht, hr⟩⟩

/-! ### Nodes -/

/-- The forms of nodes, as values tell them apart. -/
inductive Form where
  | missing
  | list
  | token
  | composite (k : Kind)

/-- The kind of the objects of a form. -/
def Form.name : Form → String
  | .missing => "missing"
  | .list => "list"
  | .token => "token"
  | .composite k => k.name

/-- Members whose parts, as a form has them, are describable. -/
def Form.Fits (c : Catalog) (members : List (String × Json)) : Form → Prop
  | .missing => True
  | .list => ∃ items, Json.member? members "elements" = some (.arr items) ∧
      ∀ v ∈ items, Describable c v
  | .token => ∃ body, Json.member? members "token" = some (.obj body) ∧ DescribableBody c body
  | .composite k => ∀ s ∈ k.slots, ∃ v, Json.member? members s.key = some v ∧ Describable c v

/-- An object of a form. -/
def Form.Of (c : Catalog) (v : Json) (form : Form) : Prop :=
  ∃ members, v = .obj members ∧ Json.member? members "kind" = some (.str form.name) ∧
    form.Fits c members

/-- The forms of the nodes of a catalog. -/
def forms (c : Catalog) : List Form := [.missing, .list, .token] ++ c.sortedKinds.map .composite

/-- No two forms share a kind. -/
theorem forms_nodup (hc : c.WellFormed) : ((forms c).map Form.name).Nodup := by
  rw [forms, List.map_append, List.map_map]
  refine List.nodup_append.mpr ⟨by decide, hc.sortedKinds_nodup, ?_⟩
  rintro _ hreserved name hname rfl
  obtain ⟨k, hk, rfl⟩ := List.mem_map.mp hname
  have hfree := (hc.kinds k (Catalog.mem_sortedKinds.mp hk)).unreserved
  simp only [reservedKinds, List.map_cons, List.map_nil, List.mem_cons, List.not_mem_nil, or_false,
    Form.name, Function.comp_apply] at hreserved hfree
  tauto

theorem describableAll_iff {vs : List Json} :
    (∃ ds, DescribesAll c vs ds ∧ ∀ spec ∈ Description.leavesAll ds, spec.Satisfiable) ↔
      ∀ v ∈ vs, Describable c v := by
  induction vs with
  | nil => exact ⟨fun _ => nofun, fun _ => ⟨[], .nil, nofun⟩⟩
  | cons v vs ih =>
      rw [List.forall_mem_cons, ← ih]
      constructor
      · rintro ⟨_, _ | ⟨hd, hds⟩, hsat⟩
        obtain ⟨hfirst, hrest⟩ := List.forall_mem_append.mp hsat
        exact ⟨⟨_, hd, hfirst⟩, _, hds, hrest⟩
      · rintro ⟨⟨d, hd, hfirst⟩, ds, hds, hrest⟩
        exact ⟨d :: ds, .cons hd hds, List.forall_mem_append.mpr ⟨hfirst, hrest⟩⟩

theorem describableSlots_iff {slots : List Slot} :
    (∃ ds, DescribesSlots c members slots ds ∧
      ∀ spec ∈ Description.leavesAll ds, spec.Satisfiable) ↔
      ∀ s ∈ slots, ∃ v, Json.member? members s.key = some v ∧ Describable c v := by
  induction slots with
  | nil => exact ⟨fun _ => nofun, fun _ => ⟨[], .nil, nofun⟩⟩
  | cons s slots ih =>
      rw [List.forall_mem_cons, ← ih]
      constructor
      · rintro ⟨_, _ | ⟨hv, hd, hds⟩, hsat⟩
        obtain ⟨hfirst, hrest⟩ := List.forall_mem_append.mp hsat
        exact ⟨⟨_, hv, _, hd, hfirst⟩, _, hds, hrest⟩
      · rintro ⟨⟨v, hv, d, hd, hfirst⟩, ds, hds, hrest⟩
        exact ⟨d :: ds, .cons hv hd hds, List.forall_mem_append.mpr ⟨hfirst, hrest⟩⟩

/-- **A value is describable when it is an object of one of the forms.** -/
theorem describable_iff (hc : c.WellFormed) :
    Describable c v ↔ ∃ form ∈ forms c, form.Of c v := by
  constructor
  · rintro ⟨d, hd, hsat⟩
    cases hd with
    | missing hkind => exact ⟨.missing, by simp [forms], _, rfl, hkind, trivial⟩
    | token hkind htoken =>
        exact ⟨.token, by simp [forms], _, rfl, hkind, describableToken_iff.mp ⟨d, htoken, hsat⟩⟩
    | list hkind hitems hds =>
        exact ⟨.list, by simp [forms], _, rfl, hkind, _, hitems, describableAll_iff.mp ⟨_, hds, hsat⟩⟩
    | @composite members name k ds hkind hname hk hds =>
        have hmem : k ∈ c.kinds := List.mem_of_find?_eq_some hk
        obtain rfl : k.name = name := by simpa using List.find?_some hk
        exact ⟨.composite k, by simpa [forms] using Catalog.mem_sortedKinds.mpr hmem, _, rfl, hkind,
          describableSlots_iff.mp ⟨ds, hds, hsat⟩⟩
  · rintro ⟨form, hform, members, rfl, hkind, hfits⟩
    cases form with
    | missing => exact ⟨.missing, .missing hkind, nofun⟩
    | token =>
        obtain ⟨d, hd, hsat⟩ := describableToken_iff.mpr hfits
        exact ⟨d, .token hkind hd, hsat⟩
    | list =>
        obtain ⟨items, hitems, hall⟩ := hfits
        obtain ⟨ds, hds, hsat⟩ := describableAll_iff.mpr hall
        exact ⟨.list ds, .list hkind hitems hds, hsat⟩
    | composite k =>
        obtain ⟨ds, hds, hsat⟩ := describableSlots_iff.mpr hfits
        -- names of kinds are distinct and not reserved, so the name leads back to the kind
        have hk : k ∈ c.kinds := by simpa [forms, Catalog.mem_sortedKinds] using hform
        exact ⟨.composite k ds,
          .composite hkind (hc.kinds k hk).unreserved (hc.kind?_eq hk) hds, hsat⟩

end Lossless.Parse
