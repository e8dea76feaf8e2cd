import Lossless.Proofs.Text.Whole
import Lossless.Text.Case

/-!
# Text — the spellings of a letter

A table of case maps can be read backwards: what is mapped to a number was that number, or differs from
it by the offset of one of the runs (`mem_sources`).  So the characters that fold to a character of ASCII
are found by computation (`mem_spellings`).

Each letter has two spellings of one byte.  The letter `s` has a third one of two bytes, U+017F.
-/

namespace Lossless.Text

variable {c x : Char}

/-- The numbers that the runs may map to the number `n`, and `n` itself. -/
def sources (runs : List CaseRun) (n : Nat) : List Nat :=
  n :: runs.filterMap fun r =>
    let m := ((n : Int) - r.delta).toNat
    if r.covers m then some m else none

/-- The numbers of the characters that may fold to the one with the number `n`. -/
def spellings (n : Nat) : List Nat := (sources lowerRuns n).flatMap (sources upperRuns)

/-- A character that is made from a number has this number, unless it is the zero character. -/
theorem toNat_ofNat {n : Nat} (h : (Char.ofNat n).toNat ≠ 0) : (Char.ofNat n).toNat = n := by
  by_cases hn : n.isValidChar
  · rw [Char.ofNat, dif_pos hn]
    rfl
  · rw [Char.ofNat, dif_neg hn] at h
    exact absurd rfl h

/-- A table is read backwards. -/
theorem mem_sources {runs : List CaseRun} (h : CaseRun.apply runs c = x) (hx : x.toNat ≠ 0) :
    c.toNat ∈ sources runs x.toNat := by
  unfold CaseRun.apply at h
  split at h
  · next r hr =>
      subst h
      have hn := toNat_ofNat hx
      have hsource : (((c.toNat + r.delta).toNat : Int) - r.delta).toNat = c.toNat := by omega
      refine List.mem_cons_of_mem _ (List.mem_filterMap.mpr ⟨r, List.mem_of_find?_eq_some hr, ?_⟩)
      simp only [hn, hsource]
      exact if_pos (List.find?_some hr)
  · exact List.mem_cons.mpr (.inl (congrArg Char.toNat h))

/-- The characters that fold to a character of ASCII. -/
theorem mem_spellings (h : foldChar c = x) (hx : x.toNat ≠ 0) (hascii : x.toNat < 0x80) :
    c.toNat ∈ spellings x.toNat := by
  have hself : x.toNat ∈ spellings x.toNat :=
    List.mem_flatMap.mpr ⟨_, List.mem_cons_self, List.mem_cons_self⟩
  unfold foldChar at h
  split at h
  · exact h ▸ hself
  · exact h ▸ hself
  · exact absurd hascii (by subst h; decide)
  · exact absurd hascii (by subst h; decide)
  · exact absurd hascii (by subst h; decide)
  · -- the zero character has no case
    have hupper : (upperChar c).toNat ≠ 0 := by
      intro hzero
      have hchar : upperChar c = Char.ofNat 0 := by rw [← hzero, Char.ofNat_toNat]
      rw [hchar] at h
      exact hx (h ▸ (by decide : (lowerChar (Char.ofNat 0)).toNat = 0))
    exact List.mem_flatMap.mpr ⟨_, mem_sources h hx, mem_sources rfl hupper⟩

/-- A text whose characters fold to characters of ASCII has no stray bytes. -/
theorem ofChars_chars_of_fold {t : Text} {xs : List Char} (h : t.chars.map foldChar = xs)
    (hxs : xs.all (·.toNat < 0x80) = true) : ofChars t.chars = t := by
  refine ofChars_chars (isValid_of_replacement fun hmem => ?_)
  have hfold : foldChar replacement = replacement := by decide +kernel
  have hmem : replacement ∈ xs := h ▸ List.mem_map.mpr ⟨replacement, hmem, hfold⟩
  exact absurd (of_decide_eq_true (List.all_eq_true.mp hxs _ hmem)) (by decide)

/-- The letters of the extensions that have no spellings but those of one byte. -/
theorem lt_of_foldChar (h : foldChar c ∈ ".jonlz4".toList) : c.toNat < 0x80 := by
  have hletters : (".jonlz4".toList.all fun x =>
      (x.toNat ≠ 0 ∧ x.toNat < 0x80) ∧ ∀ n ∈ spellings x.toNat, n < 0x80) = true := by decide +kernel
  obtain ⟨⟨hzero, hascii⟩, hall⟩ := of_decide_eq_true (List.all_eq_true.mp hletters _ h)
  exact hall _ (mem_spellings rfl hzero hascii)

/-- Spellings of these letters have as many bytes as there are letters. -/
theorem length_ofChars_of_fold {cs xs : List Char} (h : cs.map foldChar = xs)
    (hxs : xs.all (".jonlz4".toList.contains ·) = true) :
    (ofChars cs).length = xs.length ∧ ∀ c ∈ cs, c.toNat < 0x80 := by
  subst h
  have hascii : ∀ c ∈ cs, c.toNat < 0x80 := fun c hc =>
    lt_of_foldChar (List.contains_iff_mem.mp (List.all_eq_true.mp hxs _ (List.mem_map_of_mem hc)))
  rw [length_ofChars hascii, List.length_map]
  exact ⟨rfl, hascii⟩

/-- The letter with a spelling of two bytes. -/
theorem lt_or_eq_of_foldChar (h : foldChar c = 's') : c.toNat < 0x80 ∨ c = 'ſ' := by
  have hall : ∀ n ∈ spellings 's'.toNat, n < 0x80 ∨ n = 'ſ'.toNat := by decide +kernel
  refine (hall _ (mem_spellings h (by decide) (by decide))).imp id fun hc => ?_
  rw [← Char.ofNat_toNat c, hc, Char.ofNat_toNat]

end Lossless.Text
