import Lossless.Proofs.Telemetry.Redactor
import Lossless.Proofs.Text.Whole

/-!
# Telemetry — texts that are cut

A redactor cuts texts by their bytes.  Of a text of characters it hands on a front part that ends where
a character starts, or within a character (`cutTo_take`): the byte behind the cut tells which.

**What is handed on** (`cut_text_valid_iff`).  Whatever a redactor has seen before, it hands on each text
up to the limit, and what it hands on is valid exactly when no character is cut in two.
-/

namespace Lossless.Telemetry

/-- A text that is cut to a number of bytes. -/
structure CutTo (n : Nat) (t u : Text) : Prop where
  front : u <+: t
  bound : u.length ≤ n
  whole : t.length ≤ n → u = t
  /-- It is valid exactly when the text is not cut, or cut in front of a character. -/
  valid : u.isValid = true ↔ t.length ≤ n ∨ ∃ b, t[n]? = some b ∧ Text.isContinuation b = false
  /-- Otherwise its last bytes are the start of a character. -/
  torn : u.isValid = false → ∃ (whole part : Text) (c : Char), u = whole ++ part ∧
    whole.isValid = true ∧ (1 ≤ part.length ∧ part.length ≤ 3) ∧
    part <+: String.utf8EncodeChar c ∧ whole ++ String.utf8EncodeChar c <+: t

theorem cutTo_take {t : Text} (ht : t.isValid = true) (n : Nat) : CutTo n t (t.take n) where
  front := List.take_prefix n t
  bound := List.length_take_le n t
  whole := List.take_of_length_le
  valid := by
    -- what is kept is valid unless a continuation byte follows it
    rw [Text.isValid_take_iff ht]
    constructor
    · intro h
      refine (Nat.lt_or_ge n t.length).symm.imp id fun hn => ?_
      exact ⟨_, List.getElem?_eq_getElem hn, h _ (List.getElem?_eq_getElem hn)⟩
    · rintro (hn | ⟨b, hb, hstart⟩) b' hb'
      · rw [List.getElem?_eq_none hn] at hb'
        cases hb'
      · rw [hb] at hb'
        cases hb'
        exact hstart
  torn := by
    intro h
    obtain ⟨cs, rfl⟩ := Text.isValid_iff.mp ht
    have htorn := (Text.cut_ofChars cs n).exists_torn h
    rwa [List.take_append_drop] at htorn

/-- The texts of a span are valid. -/
def Span.Legible (s : Span) : Prop :=
  ∀ a ∈ s.attrs, ∀ t, a.value = .text t → t.isValid = true

/-- For every span with valid texts and whatever redactor it ends under. The attributes that are handed
on are those under exported keys, in their order. Each text that is handed on is a front part of the
text that was recorded, with 512 bytes at most, and all of it when it has no more than these; it is
valid if and only if no byte continues a character behind the cut, and otherwise its last one to three
bytes are the start of the character that is cut in two. -/
theorem cut_text_valid_iff (r : Redactor) (s : Span) (hs : s.Legible) :
    List.Forall₂ (fun a b : Attribute => a.key = b.key ∧
        ∀ u, b.value = .text u → ∃ t, a.value = .text t ∧ CutTo 512 t u)
      (s.attrs.filter (·.key ∈ Span.exportedKeys)) (r.onEnd s).2.attrs := by
  have hfilter : s.attrs.filter (·.key ∈ Span.exportedKeys) = s.attrs.filter Attribute.exported :=
    List.filter_congr fun a _ => by simp [Attribute.exported]
  rw [hfilter, Redactor.onEnd_eq, Span.redact, List.forall₂_map_right_iff, List.forall₂_same]
  intro a ha
  refine ⟨rfl, fun u hu => ?_⟩
  have hvalue : a.value.cut = .text u := hu
  cases htext : a.value with
  | text t =>
      rw [htext] at hvalue
      cases hvalue
      exact ⟨t, rfl, cutTo_take (hs a (List.mem_of_mem_filter ha) t htext) 512⟩
  | _ => rw [htext] at hvalue; cases hvalue

/-- A path of 511 bytes and a character of two bytes behind them. -/
def longPath : Text := Text.ofChars (List.replicate 511 'a' ++ ['é'])

/-- A span with this path. -/
def longSpan : Span := { name := "a", attrs := [⟨"file.path", .text longPath⟩] }

theorem longPath_valid : longPath.isValid = true := Text.isValid_iff.mpr ⟨_, rfl⟩

theorem longSpan_legible : longSpan.Legible := by
  intro a ha t ht
  obtain rfl := List.mem_singleton.mp ha
  cases ht
  exact longPath_valid

theorem cut_text_valid_iff_longSpan :
    longSpan.Legible ∧ List.Forall₂ (fun a b : Attribute => a.key = b.key ∧
        ∀ u, b.value = .text u → ∃ t, a.value = .text t ∧ CutTo 512 t u)
      (longSpan.attrs.filter (·.key ∈ Span.exportedKeys))
      ((Redactor.start true).onEnd longSpan).2.attrs :=
  ⟨longSpan_legible, cut_text_valid_iff (Redactor.start true) longSpan longSpan_legible⟩

/-- The path of a span is a valid text, and what is handed on of it is not: the second byte of its last
character is behind the cut. -/
theorem cut_text_not_always_valid :
    longSpan.Legible ∧ ∃ a ∈ ((Redactor.start true).onEnd longSpan).2.attrs,
      ∃ u, a.value = .text u ∧ u.isValid = false := by
  refine ⟨longSpan_legible, ⟨"file.path", .text (longPath.take 512)⟩, ?_, _, rfl, ?_⟩
  · rw [Redactor.onEnd_eq]
    exact List.mem_singleton.mpr rfl
  · have hbehind : longPath[512]? = some 0xa9 := by decide +kernel
    refine Bool.eq_false_iff.mpr fun h => ?_
    exact absurd ((Text.isValid_take_iff longPath_valid 512).mp h _ hbehind) (by decide)

end Lossless.Telemetry
