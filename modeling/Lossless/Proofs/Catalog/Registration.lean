import Lossless.Catalog.Document
import Lossless.Catalog.Registry
import Lossless.Proofs.Lists

/-!
# Catalog — what a registry serves

A registry has two tables.  Registering a catalog replaces the entry of its language in one of them and
the entries of its own extensions in the other, so what is in the tables is told by the history of
registrations: under a language the catalog of that language that was registered last
(`lookup_eq_some_iff`), under an extension the last one with that extension
(`byExtension_eq_some_iff`).

The two need not agree.  A catalog that is found by its language is the current one.  A catalog that is
found by an extension is the current one only when no catalog of its language was registered behind it
(`served_catalogs`); otherwise it is served though it was replaced (`replaced_catalog_served`).
-/

namespace Lossless

/-! ### Tables -/

namespace Table

variable {α : Type} {t : Table α} {key key' : String} {v : α}

theorem any_key_iff : t.any (·.1 = key) = true ↔ key ∈ t.map (·.1) := by simp

/-- An entry that is set keeps its place; a new one goes to the end. -/
theorem keys_put : (t.put key v).map (·.1) =
    if key ∈ t.map (·.1) then t.map (·.1) else t.map (·.1) ++ [key] := by
  rw [put]
  by_cases hkey : key ∈ t.map (·.1)
  · rw [if_pos (any_key_iff.mpr hkey), if_pos hkey, List.map_map]
    refine List.map_congr_left fun e _ => ?_
    dsimp only [Function.comp_apply]
    split
    · next he => exact he.symm
    · rfl
  · rw [if_neg (any_key_iff.not.mpr hkey), if_neg hkey, List.map_append]
    rfl

theorem keys_put_nodup (h : (t.map (·.1)).Nodup) : ((t.put key v).map (·.1)).Nodup := by
  rw [keys_put]
  split
  · exact h
  · next hkey =>
      refine List.nodup_append.mpr ⟨h, List.nodup_singleton _, ?_⟩
      rintro a ha b hb rfl
      exact hkey (List.mem_singleton.mp hb ▸ ha)

theorem mem_put {e : String × α} (h : e ∈ t.put key v) : e = (key, v) ∨ e ∈ t := by
  rw [put] at h
  split at h
  · obtain ⟨e', he', rfl⟩ := List.mem_map.mp h
    split
    · exact .inl rfl
    · exact .inr he'
  · rcases List.mem_append.mp h with h | h
    · exact .inr h
    · exact .inl (List.mem_singleton.mp h)

/-- What is found when an entry was set. -/
theorem get?_put : (t.put key v).get? key' = if key = key' then some v else t.get? key' := by
  rw [put, get?, get?]
  by_cases hkey : key ∈ t.map (·.1)
  · -- the key is there: its entry is changed in place
    have hsame : ∀ e : String × α, (if e.1 = key then (key, v) else e).1 = e.1 := by
      intro e
      split
      · next he => exact he.symm
      · rfl
    rw [if_pos (any_key_iff.mpr hkey), List.find?_map]
    simp only [Function.comp_def, hsame]
    cases hfind : t.find? (·.1 = key') with
    | none =>
        have hne : key ≠ key' := by
          rintro rfl
          obtain ⟨e, he, hek⟩ := List.mem_map.mp hkey
          simpa [hek] using List.find?_eq_none.mp hfind e he
        rw [if_neg hne]
        rfl
    | some e =>
        have he : e.1 = key' := by simpa using List.find?_some hfind
        by_cases hkk : key = key'
        · simp [he, hkk]
        · simp [he, hkk, Ne.symm hkk]
  · -- the key is new: its entry is the last one
    rw [if_neg (any_key_iff.not.mpr hkey), List.find?_append]
    cases hfind : t.find? (·.1 = key') with
    | none => by_cases hkk : key = key' <;> simp [hkk]
    | some e =>
        have he : e.1 = key' := by simpa using List.find?_some hfind
        have hne : key ≠ key' := by
          rintro rfl
          exact hkey (List.mem_map.mpr ⟨e, List.mem_of_find?_eq_some hfind, he⟩)
        rw [if_neg hne]
        rfl

/-- What is found when one entry was set under several keys. -/
theorem get?_foldl_put (keys : List String) :
    (keys.foldl (fun t key => Table.put t key v) t).get? key' =
      if key' ∈ keys then some v else t.get? key' := by
  induction keys generalizing t with
  | nil => simp
  | cons key keys ih =>
      rw [List.foldl_cons, ih, get?_put]
      by_cases hmem : key' ∈ keys
      · rw [if_pos hmem, if_pos (.tail _ hmem)]
      · by_cases hkey : key = key'
        · rw [if_neg hmem, if_pos hkey, if_pos (hkey ▸ .head _)]
        · have hnot : key' ∉ key :: keys := by simp [hmem, Ne.symm hkey]
          rw [if_neg hmem, if_neg hkey, if_neg hnot]

/-- An entry is found exactly under its key, where keys differ. -/
theorem get?_eq_some_iff (h : (t.map (·.1)).Nodup) : t.get? key = some v ↔ (key, v) ∈ t := by
  rw [get?, Option.map_eq_some_iff]
  constructor
  · rintro ⟨⟨k, w⟩, hfind, rfl⟩
    obtain rfl : k = key := by simpa using List.find?_some hfind
    exact List.mem_of_find?_eq_some hfind
  · intro hmem
    exact ⟨(key, v), find?_of_nodup h hmem, rfl⟩

end Table

namespace CatalogRegistry

variable {c d : Catalog} {cs : List Catalog} {language ext : String}

/-! ### The history of a registry -/

/-- The language of a catalog, whatever its case. -/
def SameLanguage (language : String) (c : Catalog) : Prop := Text.lower c.language = Text.lower language

theorem ofCatalogs_concat : ofCatalogs (cs ++ [c]) = (ofCatalogs cs).register c :=
  List.foldl_concat register {} c cs

/-- **Under a language** there is the catalog of the language that was registered last. -/
theorem lookup_eq_some_iff :
    (ofCatalogs cs).lookup language = some c ↔ LastOf (SameLanguage language) cs c := by
  induction cs using List.reverseRecOn with
  | nil => exact iff_of_false nofun not_lastOf_nil
  | append_singleton cs d ih =>
      rw [ofCatalogs_concat, lastOf_concat, ← ih, lookup, register, Table.get?_put, SameLanguage]
      split
      · next hlang => simp [hlang, eq_comm]
      · next hlang => simp [hlang, lookup]

/-- **Under an extension** there is the catalog with that extension that was registered last. -/
theorem byExtension_eq_some_iff :
    (ofCatalogs cs).byExtension.get? ext = some c ↔ LastOf (ext ∈ ·.extensions) cs c := by
  induction cs using List.reverseRecOn with
  | nil => exact iff_of_false nofun not_lastOf_nil
  | append_singleton cs d ih =>
      rw [ofCatalogs_concat, lastOf_concat, ← ih, register, Table.get?_foldl_put]
      split
      · next hext => simp [hext, eq_comm]
      · next hext => simp [hext]

/-! ### Current catalogs -/

/-- The current catalog of its language: it is the one that is looked up, and the language is listed
once. -/
structure IsCurrent (r : CatalogRegistry) (c : Catalog) : Prop where
  lookup : r.lookup c.language = some c
  listed : r.languages.count c.language = 1

/-- The catalogs of a registry are found under their languages, one for each. -/
structure Indexed (r : CatalogRegistry) : Prop where
  keys : (r.byLanguage.map (·.1)).Nodup
  own : ∀ e ∈ r.byLanguage, e.1 = Text.lower e.2.language

theorem Indexed.register {r : CatalogRegistry} (h : r.Indexed) (c : Catalog) :
    (r.register c).Indexed where
  keys := Table.keys_put_nodup h.keys
  own e he := by
    rcases Table.mem_put he with rfl | he
    · rfl
    · exact h.own e he

theorem indexed_ofCatalogs (cs : List Catalog) : (ofCatalogs cs).Indexed := by
  induction cs using List.reverseRecOn with
  | nil => exact ⟨List.nodup_nil, nofun⟩
  | append_singleton cs c ih =>
      rw [ofCatalogs_concat]
      exact ih.register c

/-- No language is listed twice. -/
theorem Indexed.languages_nodup {r : CatalogRegistry} (h : r.Indexed) : r.languages.Nodup := by
  have hkeys : (r.byLanguage.map (·.2.language)).map Text.lower = r.byLanguage.map (·.1) := by
    rw [List.map_map]
    exact List.map_congr_left fun e he => (h.own e he).symm
  have hnames : (r.byLanguage.map (·.2.language)).Nodup := List.Nodup.of_map Text.lower (hkeys ▸ h.keys)
  exact (List.mergeSort_perm _ _).nodup_iff.mpr hnames

theorem Indexed.mem_languages {r : CatalogRegistry} (h : r.Indexed)
    (hc : r.lookup language = some c) : c.language ∈ r.languages := by
  have hmem := (Table.get?_eq_some_iff h.keys).mp hc
  exact List.mem_mergeSort.mpr (List.mem_map.mpr ⟨_, hmem, rfl⟩)

/-- A catalog is current when it is the last one of its language. -/
theorem isCurrent_iff :
    (ofCatalogs cs).IsCurrent c ↔ LastOf (SameLanguage c.language) cs c := by
  refine ⟨fun h => lookup_eq_some_iff.mp h.lookup, fun h => ?_⟩
  have hlookup := lookup_eq_some_iff.mpr h
  have hindexed := indexed_ofCatalogs cs
  exact ⟨hlookup, List.count_eq_one_of_mem hindexed.languages_nodup
    (hindexed.mem_languages hlookup)⟩

/-- What is looked up under any spelling of a language is the current catalog. -/
theorem isCurrent_of_lookup (h : (ofCatalogs cs).lookup language = some c) :
    (ofCatalogs cs).IsCurrent c := by
  have hlast := lookup_eq_some_iff.mp h
  have hlang : SameLanguage c.language = SameLanguage language := by
    funext d
    rw [SameLanguage, SameLanguage, show Text.lower c.language = _ from hlast.holds]
  exact isCurrent_iff.mpr (hlang ▸ hlast)

/-! ### Files -/

/-- The extension of a file in lower case. -/
def fileExtension (name : String) : String := Text.lower (Path.extension name).toStr

/-- What is found for a file by its language. -/
def detected? (r : CatalogRegistry) (detect : Detector) (name : String) (content : Text) :
    Option Catalog :=
  (detect (Path.base name).toStr content).bind r.lookup

/-- A file is served by its language, or else by its extension. -/
theorem forFile_eq_ok_iff {r : CatalogRegistry} {detect : Detector} {name : String}
    {content : Text} :
    r.forFile detect name content = .ok c ↔
      r.detected? detect name content = some c ∨
        r.detected? detect name content = none ∧
          r.byExtension.get? (fileExtension name) = some c := by
  rw [forFile, detected?, fileExtension]
  cases (detect (Path.base name).toStr content).bind r.lookup with
  | some d => simp
  | none =>
      cases r.byExtension.get? (Text.lower (Path.extension name).toStr) with
      | some d => simp
      | none => simp

/-- After any registrations, on top of any others: a catalog that is looked up is current. So is a
catalog that a file is served by its language. A catalog that a file is served by its extension is the
last one with that extension, and it is current if and only if no catalog of its language was
registered behind it. -/
theorem served_catalogs (detect : Detector) (start added : List Catalog) :
    (∀ language c, (added.foldl register (ofCatalogs start)).lookup language = some c →
      (added.foldl register (ofCatalogs start)).IsCurrent c) ∧
    ∀ name content c,
      (added.foldl register (ofCatalogs start)).forFile detect name content = .ok c →
      ((added.foldl register (ofCatalogs start)).detected? detect name content = some c ∧
        (added.foldl register (ofCatalogs start)).IsCurrent c) ∨
      ∃ before after, start ++ added = before ++ c :: after ∧
        fileExtension name ∈ c.extensions ∧ (∀ d ∈ after, fileExtension name ∉ d.extensions) ∧
        ((added.foldl register (ofCatalogs start)).IsCurrent c ↔
          ∀ d ∈ after, ¬SameLanguage c.language d) := by
  have hhistory : added.foldl register (ofCatalogs start) = ofCatalogs (start ++ added) :=
    List.foldl_append.symm
  rw [hhistory]
  refine ⟨fun language c => isCurrent_of_lookup, fun name content c h => ?_⟩
  rcases forFile_eq_ok_iff.mp h with hdetected | ⟨-, hext⟩
  · obtain ⟨language, -, hlookup⟩ := Option.bind_eq_some_iff.mp hdetected
    exact .inl ⟨hdetected, isCurrent_of_lookup hlookup⟩
  · obtain ⟨before, after, heq, hmem, hafter⟩ := byExtension_eq_some_iff.mp hext
    refine .inr ⟨before, after, heq, hmem, hafter, ?_⟩
    rw [isCurrent_iff]
    refine ⟨fun hcurrent d hd hsame => ?_, fun hlast => ⟨before, after, heq, rfl, hlast⟩⟩
    -- the last catalog of the language is behind `c`, where none has the extension
    rw [heq, List.append_cons] at hcurrent
    exact hafter c (hcurrent.mem_right hd hsame) hmem

/-- A language whose files end in `.x`. -/
def xDocument : CatalogDocument where
  language := "X"
  extensions := [".x"]
  kinds := [{ name := "a" }]

/-- The catalog of that document. -/
def xCatalog : Catalog := ⟨"X", [".x"], [⟨"a", "a", []⟩], [], []⟩

/-- The same language with files that end in `.y`. -/
def yDocument : CatalogDocument := { xDocument with extensions := [".y"] }

/-- The catalog that replaces the other one. -/
def yCatalog : Catalog := { xCatalog with extensions := [".y"] }

/-- A catalog that is registered on top of another one of its language is found by the language and by
its own extension, and it is the last one with that extension. -/
theorem served_catalogs_y :
    ([yCatalog].foldl register (ofCatalogs [xCatalog])).lookup "x" = some yCatalog ∧
    ([yCatalog].foldl register (ofCatalogs [xCatalog])).IsCurrent yCatalog ∧
    ([yCatalog].foldl register (ofCatalogs [xCatalog])).forFile (fun _ _ => none) "f.y" [] =
      .ok yCatalog ∧
    ∃ before after, [xCatalog] ++ [yCatalog] = before ++ yCatalog :: after ∧
      fileExtension "f.y" ∈ yCatalog.extensions ∧
      (∀ d ∈ after, fileExtension "f.y" ∉ d.extensions) := by
  obtain ⟨hlanguage, hserved⟩ := served_catalogs (fun _ _ => none) [xCatalog] [yCatalog]
  have hext : fileExtension "f.y" = ".y" := by decide +kernel
  have hfile : ([yCatalog].foldl register (ofCatalogs [xCatalog])).forFile (fun _ _ => none) "f.y" [] =
      .ok yCatalog := forFile_eq_ok_iff.mpr (.inr ⟨rfl, by rw [hext]; rfl⟩)
  refine ⟨rfl, hlanguage "x" yCatalog rfl, hfile, ?_⟩
  rcases hserved "f.y" [] yCatalog hfile with ⟨hdetected, -⟩ | ⟨before, after, heq, hmem, hafter, -⟩
  · cases hdetected
  · exact ⟨before, after, heq, hmem, hafter⟩

/-- A catalog is served though it was replaced: the one behind it does not take over its extension. -/
theorem replaced_catalog_served :
    xDocument.compile = .ok xCatalog ∧ yDocument.compile = .ok yCatalog ∧
      (ofCatalogs [xCatalog, yCatalog]).forFile (fun _ _ => none) "f.x" [] = .ok xCatalog ∧
      (ofCatalogs [xCatalog, yCatalog]).lookup xCatalog.language = some yCatalog ∧
      ¬(ofCatalogs [xCatalog, yCatalog]).IsCurrent xCatalog := by
  have hlookup : (ofCatalogs [xCatalog, yCatalog]).lookup xCatalog.language = some yCatalog := rfl
  have hext : fileExtension "f.x" = ".x" := by decide +kernel
  have hfile : (ofCatalogs [xCatalog, yCatalog]).forFile (fun _ _ => none) "f.x" [] = .ok xCatalog :=
    forFile_eq_ok_iff.mpr (.inr ⟨rfl, by rw [hext]; rfl⟩)
  refine ⟨rfl, rfl, hfile, hlookup, fun hcurrent => ?_⟩
  have hsame : xCatalog = yCatalog := Option.some.inj (hcurrent.lookup.symm.trans hlookup)
  exact absurd hsame (by decide)

end CatalogRegistry

end Lossless
