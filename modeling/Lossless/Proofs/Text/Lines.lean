import Lossless.Proofs.Text.Rune
import Lossless.Text.Lines
import Mathlib.Data.List.Basic
import Mathlib.Data.List.Infix

/-!
# Text — what lines look like

`Lines ls` says that the texts `ls` are lines: each ends with its only newline, and the last one may go
without.  The lines of a text are (`lines_lines`), and so is every run of them (`Lines.of_run`).  Lines
are the lines of the text that they spell (`Lines.lines_flatten`), so a text that is made of `n` lines
counts as `n` lines (`Lines.countLines_flatten`): a text without a final newline is never put in front
of anything else.

`unlines` closes every text with a newline, and splitting at newlines undoes it (`splitOn_unlines`).
Characters have a newline byte where there is a newline (`newline_notMem_ofChars`).
-/

namespace Lossless.Text

variable {t u : Text} {ls ms rs : List Text}

/-- Texts that end with their only newline, which the last one may be without. -/
inductive Lines : List Text → Prop where
  | nil : Lines []
  | last {u : Text} (hu : newline ∉ u) (hne : u ≠ []) : Lines [u]
  | cons {u : Text} {ls : List Text} (hu : newline ∉ u) (h : Lines ls) :
      Lines ((u ++ [newline]) :: ls)

/-- The first of some lines is closed, or is all there is. -/
theorem lines_cons_iff {l : Text} :
    Lines (l :: ls) ↔ (∃ u, newline ∉ u ∧ l = u ++ [newline] ∧ Lines ls) ∨
      (newline ∉ l ∧ l ≠ [] ∧ ls = []) := by
  constructor
  · rintro (_ | ⟨hu, hne⟩ | ⟨hu, h⟩)
    · exact .inr ⟨hu, hne, rfl⟩
    · exact .inl ⟨_, hu, rfl, h⟩
  · rintro (⟨u, hu, rfl, h⟩ | ⟨hu, hne, rfl⟩)
    · exact .cons hu h
    · exact .last hu hne

theorem Lines.left (h : Lines (ls ++ ms)) : Lines ls := by
  induction ls with
  | nil => exact .nil
  | cons l ls ih =>
      rw [List.cons_append, lines_cons_iff] at h
      rcases h with ⟨u, hu, rfl, h⟩ | ⟨hu, hne, hnil⟩
      · exact .cons hu (ih h)
      · rw [(List.append_eq_nil_iff.mp hnil).1]
        exact .last hu hne

theorem Lines.right (h : Lines (ls ++ ms)) : Lines ms := by
  induction ls with
  | nil => exact h
  | cons l ls ih =>
      rw [List.cons_append, lines_cons_iff] at h
      rcases h with ⟨_, _, _, h⟩ | ⟨_, _, hnil⟩
      · exact ih h
      · rw [(List.append_eq_nil_iff.mp hnil).2]
        exact .nil

/-- A run of lines is lines. -/
theorem Lines.of_run (h : Lines ms) (hrun : ls <:+: ms) : Lines ls := by
  obtain ⟨before, after, rfl⟩ := hrun
  exact h.left.right

/-- Where there is no newline, there is no newline byte. -/
theorem newline_notMem_ofChars {cs : List Char} (h : '\n' ∉ cs) : newline ∉ ofChars cs := by
  intro hmem
  obtain ⟨c, hc, hbyte⟩ := List.mem_flatMap.mp hmem
  have hnat := toNat_eq_of_mem_encode hbyte (by decide)
  rw [← Char.ofNat_toNat c, hnat] at hc
  exact h hc

/-! ### The lines of a text -/

theorem lines_newline (t : Text) : lines (newline :: t) = [newline] :: lines t := by
  rw [lines, if_pos rfl]

theorem lines_cons_of_ne {b : UInt8} (hb : b ≠ newline) (t : Text) :
    lines (b :: t) = (b :: (lines t).headD []) :: (lines t).tail := by
  rw [lines, if_neg hb]
  cases lines t <;> rfl

theorem lines_lines (t : Text) : Lines (lines t) := by
  induction t with
  | nil => exact .nil
  | cons b t ih =>
      -- a newline ends a line, any other byte is put before the first one
      by_cases hb : b = newline
      · subst hb
        rw [lines_newline]
        exact .cons List.not_mem_nil ih
      · have hnot : ∀ {u : Text}, newline ∉ u → newline ∉ b :: u := fun hu =>
          List.not_mem_cons_of_ne_of_not_mem (Ne.symm hb) hu
        rw [lines_cons_of_ne hb]
        cases hlines : lines t with
        | nil => exact .last (hnot List.not_mem_nil) (List.cons_ne_nil _ _)
        | cons l ls =>
            rw [hlines, lines_cons_iff] at ih
            rcases ih with ⟨u, hu, rfl, h⟩ | ⟨hu, -, rfl⟩
            · exact .cons (hnot hu) h
            · exact .last (hnot hu) (List.cons_ne_nil _ _)

theorem lines_of_notMem (hu : newline ∉ u) (hne : u ≠ []) : lines u = [u] := by
  induction u with
  | nil => exact absurd rfl hne
  | cons b u ih =>
      have hb : b ≠ newline := fun h => hu (h ▸ List.mem_cons_self)
      rw [lines_cons_of_ne hb]
      cases u with
      | nil => rfl
      | cons c u =>
          rw [ih (fun h => hu (.tail _ h)) (List.cons_ne_nil c u)]
          rfl

theorem lines_append_newline (hu : newline ∉ u) (t : Text) :
    lines (u ++ newline :: t) = (u ++ [newline]) :: lines t := by
  induction u with
  | nil => exact lines_newline t
  | cons b u ih =>
      have hb : b ≠ newline := fun h => hu (h ▸ List.mem_cons_self)
      rw [List.cons_append, lines_cons_of_ne hb, ih fun h => hu (.tail _ h)]
      rfl

/-- Lines are the lines of the text that they spell. -/
theorem Lines.lines_flatten (h : Lines ls) : lines ls.flatten = ls := by
  induction h with
  | nil => rfl
  | last hu hne => simpa using lines_of_notMem hu hne
  | cons hu h ih =>
      rw [List.flatten_cons, List.append_assoc, List.singleton_append, lines_append_newline hu, ih]

theorem lines_injective (h : lines t = lines u) : t = u := by
  rw [← flatten_lines t, h, flatten_lines]

theorem countLines_cons_cons (b c : UInt8) (t : Text) :
    countLines (b :: c :: t) = (if b = newline then 1 else 0) + countLines (c :: t) := by
  unfold countLines
  rw [List.getLast?_cons_cons, List.count_cons, List.getLast?_cons]
  simp only [beq_iff_eq]
  omega

/-- The number of lines is that of the lines. -/
theorem countLines_eq_length_lines (t : Text) : countLines t = (lines t).length := by
  induction t with
  | nil => rfl
  | cons b t ih =>
      cases t with
      | nil => by_cases hb : b = newline <;> simp [countLines, lines, hb]
      | cons c t =>
          have hpos : 0 < (lines (c :: t)).length := by
            refine List.length_pos_of_ne_nil fun hnil => ?_
            simpa [hnil] using flatten_lines (c :: t)
          rw [countLines_cons_cons, ih]
          split
          · next hb =>
              rw [hb, lines_newline, List.length_cons, Nat.add_comm]
          · next hb =>
              rw [lines_cons_of_ne hb, List.length_cons, List.length_tail]
              omega

theorem Lines.countLines_flatten (h : Lines ls) : countLines ls.flatten = ls.length := by
  rw [countLines_eq_length_lines, h.lines_flatten]

/-! ### Terminators -/

theorem dropNewline_of_notMem (hu : newline ∉ u) : dropNewline u = u := by
  have hnot : ¬[newline] <:+ u := fun h => hu (h.subset (List.mem_singleton_self _))
  simp [dropNewline, dropTail?, hnot]

theorem dropNewline_append (u : Text) : dropNewline (u ++ [newline]) = u := by
  simp [dropNewline, dropTail?]

/-- A line without its terminator has no newline. -/
theorem Lines.notMem_dropNewline (h : Lines ls) : ∀ l ∈ ls, newline ∉ dropNewline l := by
  induction h with
  | nil => exact nofun
  | last hu _ => simpa [dropNewline_of_notMem hu] using hu
  | cons hu _ ih => exact List.forall_mem_cons.mpr ⟨by rwa [dropNewline_append], ih⟩

/-- The texts, each closed with a newline. -/
def unlines (rs : List Text) : Text := rs.flatMap (· ++ [newline])

theorem unlines_append (rs ss : List Text) : unlines (rs ++ ss) = unlines rs ++ unlines ss :=
  List.flatMap_append

theorem unlines_eq_intercalate (rs : List Text) :
    unlines rs = [newline].intercalate (rs ++ [[]]) := by
  induction rs with
  | nil => rfl
  | cons r rs ih =>
      obtain ⟨s, ss, hss⟩ := List.exists_cons_of_ne_nil (List.append_ne_nil_of_right_ne_nil rs
        (List.cons_ne_nil ([] : Text) []))
      rw [List.cons_append, hss, List.intercalate_cons_cons, ← hss, ← ih]
      rfl

theorem splitOn_unlines (h : ∀ r ∈ rs, newline ∉ r) : (unlines rs).splitOn newline = rs ++ [[]] := by
  rw [unlines_eq_intercalate]
  refine List.splitOn_intercalate newline ?_ (List.append_ne_nil_of_right_ne_nil _ (by simp))
  exact List.forall_mem_append.mpr ⟨h, by simp⟩

end Lossless.Text
