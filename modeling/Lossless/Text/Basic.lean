/-!
# Text — byte strings

Source text, trivia and file contents are sequences of bytes: widths and offsets count bytes, and
a text need not be valid UTF-8.  Names, on the other hand, are `String`s; a `String` stands for
its UTF-8 bytes wherever a `Text` is expected.
-/

namespace Lossless

/-- A byte string. -/
abbrev Text := List UInt8

namespace Text

/-- The UTF-8 bytes of a string. -/
def ofString (s : String) : Text := s.toList.flatMap String.utf8EncodeChar

instance : Coe String Text := ⟨ofString⟩

/-- The UTF-8 bytes of a list of characters. -/
def ofChars (cs : List Char) : Text := cs.flatMap String.utf8EncodeChar

@[simp] theorem ofString_eq_ofChars (s : String) : ofString s = ofChars s.toList := rfl

theorem ofChars_append (a b : List Char) : ofChars (a ++ b) = ofChars a ++ ofChars b :=
  List.flatMap_append

theorem ofString_append (s t : String) : ofString (s ++ t) = ofString s ++ ofString t := by
  rw [ofString_eq_ofChars, String.toList_append, ofChars_append]
  rfl

/-- The bytes of `t` from `start` up to `stop`; none unless these are positions of `t` in order. -/
def slice? (t : Text) (start stop : Nat) : Option Text :=
  if start ≤ stop ∧ stop ≤ t.length then some ((t.drop start).take (stop - start)) else none

/-- `u` stands in `t` at the position `o`. -/
def At (t : Text) (o : Nat) (u : Text) : Prop := t.slice? o (o + u.length) = some u

theorem at_iff {t u : Text} {o : Nat} :
    t.At o u ↔ o + u.length ≤ t.length ∧ (t.drop o).take u.length = u := by
  unfold At slice?
  split
  · next h => simp [h.2]
  · next h => simp; omega

/-- A slice is as long as the distance of its ends, and stands where it starts. -/
theorem at_of_slice? {t u : Text} {o n : Nat} (h : t.slice? o (o + n) = some u) :
    u.length = n ∧ t.At o u := by
  have hn : u.length = n := by
    unfold slice? at h
    split at h
    · cases h; simp; omega
    · cases h
  exact ⟨hn, by rw [At, hn]; exact h⟩

@[simp] theorem at_nil {t : Text} {o : Nat} : t.At o [] ↔ o ≤ t.length := by simp [at_iff]

theorem at_self (t : Text) : t.At 0 t := at_iff.mpr ⟨by simp, by simp⟩

/-- Two texts stand one behind the other. -/
theorem at_append {t u v : Text} {o : Nat} :
    t.At o (u ++ v) ↔ t.At o u ∧ t.At (o + u.length) v := by
  simp only [at_iff, List.length_append, List.take_add, List.drop_drop]
  constructor
  · rintro ⟨hle, huv⟩
    obtain ⟨hu, hv⟩ := List.append_inj huv (by simp; omega)
    exact ⟨⟨by omega, hu⟩, by omega, hv⟩
  · rintro ⟨⟨-, hu⟩, hle, hv⟩
    exact ⟨by omega, by rw [hu, hv]⟩

/-- `t` without `stem`, when it starts with `stem`. -/
def dropStem? (stem t : Text) : Option Text :=
  if stem.isPrefixOf t then some (t.drop stem.length) else none

/-- `t` without `tail`, when it ends with `tail`. -/
def dropTail? (tail t : Text) : Option Text :=
  if tail.isSuffixOf t then some (t.take (t.length - tail.length)) else none

/-- Whether `part` occurs in `t` as a contiguous run of bytes. -/
def contains (part : Text) : Text → Bool
  | [] => part.isEmpty
  | b :: rest => part.isPrefixOf (b :: rest) || contains part rest

/-- The bytes of the decimal numeral of `n`. -/
def ofNat (n : Nat) : Text := ofString (toString n)

end Text

end Lossless
