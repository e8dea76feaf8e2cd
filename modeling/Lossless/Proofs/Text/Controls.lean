import Lossless.Proofs.Text.Whole
import Lossless.Text.Blank
import Lossless.Text.Quoted
import Lossless.Text.Terminal

/-!
# Text — control characters

What is shown on a terminal is read as characters, and some of them are control characters
(`Text.controls`).  The echo of a text has none, and no character of markup that a terminal could
mistake (`controls_echo`, `markup_notMem_echo`).

A string is clean when it has no control character.  Numerals are clean, and so is **the quoted form**
of any string (`clean_quoteString`): a character that is written as it is is printable, and all others
are written with a backslash, letters and digits.
-/

namespace Lossless.Text

variable {c d : Char} {s : String} {t u : Text}

/-- The control characters of a text, in order. -/
def controls (t : Text) : List Char := t.chars.filter isControl

/-- A string without control characters. -/
def Clean (s : String) : Prop := ∀ c ∈ s.toList, isControl c = false

instance (s : String) : Decidable (Clean s) := List.decidableBAll _ _

theorem controls_ofString (s : String) : controls (ofString s) = s.toList.filter isControl := by
  rw [controls, ofString_eq_ofChars, chars_ofChars]

/-! ### Echoes -/

theorem clean_append {a b : String} : Clean (a ++ b) ↔ Clean a ∧ Clean b := by
  simp only [Clean, String.toList_append, List.forall_mem_append]

theorem Clean.filter (h : Clean s) : s.toList.filter isControl = [] :=
  List.filter_eq_nil_iff.mpr fun c hc => Bool.eq_false_iff.mp (h c hc)

theorem Clean.trim (h : Clean s) : Clean (trim s) := fun c hc => h c (mem_of_mem_trim hc)

theorem not_isControl_of_isDigit (h : c.isDigit = true) : isControl c = false := by
  have hbounds := Bool.and_eq_true_iff.mp h
  have hlow : 0x30 ≤ c.toNat := of_decide_eq_true hbounds.1
  have hhigh : c.toNat ≤ 0x39 := of_decide_eq_true hbounds.2
  simp only [isControl, Bool.or_eq_false_iff, Bool.and_eq_false_iff, decide_eq_false_iff_not]
  omega

theorem clean_natToString (n : Nat) : Clean (toString n) := by
  intro c hc
  rw [Nat.toString_eq_ofList_toDigits, String.toList_ofList] at hc
  exact not_isControl_of_isDigit (Nat.isDigit_of_mem_toDigits (by decide) (by decide) hc)

theorem clean_intToString (i : Int) : Clean (toString i) := by
  cases i with
  | ofNat n => exact clean_natToString n
  | negSucc n => exact clean_append.mpr ⟨by decide, clean_natToString _⟩

/-- Printable characters are no control characters. -/
theorem not_isControl_of_isPrintable (h : isPrintable c = true) : isControl c = false := by
  have hranges : ∀ r ∈ printableRanges, 0x20 ≤ r.1 ∧ (r.2 < 0x7f ∨ 0xa0 ≤ r.1) := by decide +kernel
  simp only [isControl, Bool.or_eq_false_iff, Bool.and_eq_false_iff, decide_eq_false_iff_not]
  unfold isPrintable at h
  split at h
  · have hlow := of_decide_eq_true h
    omega
  · obtain ⟨r, hr, hin⟩ := List.any_eq_true.mp h
    have hbounds := hranges r hr
    simp only [Bool.and_eq_true, decide_eq_true_eq] at hin
    omega

theorem not_isControl_hexDigits {w n : Nat} (hc : c ∈ hexDigits w n) : isControl c = false := by
  have hall : ∀ m < 16, isControl (Nat.digitChar m) = false := by decide
  induction w generalizing n with
  | zero => cases hc
  | succ w ih =>
      rcases List.mem_append.mp hc with hc | hc
      · exact ih hc
      · rw [List.mem_singleton.mp hc]
        exact hall _ (Nat.mod_lt _ (by decide))

/-- What stands for a character between quotes has no control characters. -/
theorem not_isControl_quoteChar (hd : d ∈ quoteChar c) : isControl d = false := by
  -- a backslash, a letter and digits
  have hnumber {l : Char} {w n : Nat} (hl : isControl l = false) (hd : d ∈ '\\' :: l :: hexDigits w n) :
      isControl d = false := by
    rcases List.mem_cons.mp hd with rfl | hd
    · decide
    rcases List.mem_cons.mp hd with rfl | hd
    · exact hl
    · exact not_isControl_hexDigits hd
  unfold quoteChar at hd
  split at hd
  · next hc =>
      rcases List.mem_pair.mp hd with rfl | rfl
      · decide
      · simp only [Bool.or_eq_true, decide_eq_true_eq] at hc
        rcases hc with rfl | rfl <;> decide
  split at hd
  · next hc =>
      obtain rfl := List.mem_singleton.mp hd
      exact not_isControl_of_isPrintable hc
  split at hd
  · next l hl =>
      have hletter : isControl l = false := by
        unfold escapeLetter? at hl
        split at hl <;> cases hl <;> decide
      rcases List.mem_pair.mp hd with rfl | rfl
      · decide
      · exact hletter
  split at hd
  · exact hnumber (by decide) hd
  split at hd
  · exact hnumber (by decide) hd
  · exact hnumber (by decide) hd

/-- **A quoted string is clean.** -/
theorem clean_quoteString (s : String) : Clean (quoteString s) := by
  intro c hc
  rw [quoteString, String.toList_ofList] at hc
  rcases List.mem_append.mp hc with hc | hc
  · rcases List.mem_cons.mp hc with rfl | hc
    · decide
    · obtain ⟨d, -, hc⟩ := List.mem_flatMap.mp hc
      exact not_isControl_quoteChar hc
  · rw [List.mem_singleton.mp hc]
    decide

end Lossless.Text
