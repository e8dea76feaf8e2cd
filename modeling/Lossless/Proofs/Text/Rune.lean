import Lossless.Text.Rune
import Mathlib.Data.List.Basic

/-!
# Text — pieces and their bytes

A character is read from the bytes that encode it: `Encoded` lists the forms of one to four bytes with
the numbers that they stand for, `head?` finds such a form (`encoded_of_head?`), and encoding the
number gives the same bytes again (`Encoded.encode`).

So the pieces of a text have the text as their bytes (`flatMap_bytes`), and no two texts have the same
pieces (`pieces_injective`).  A stray byte is never an ASCII character (`le_of_stray_mem`).

A byte of ASCII stands for nothing but its character (`toNat_eq_of_mem_encode`), and different strings
have different bytes (`ofString_injective`).
-/

namespace Lossless

/-- The bytes that a piece is read from. -/
def Piece.bytes : Piece → Text
  | .char c => String.utf8EncodeChar c
  | .stray b => [b]

namespace Text

/-! ### Characters -/

/-- The number of a character whose bytes are `b` and those that follow it. -/
inductive Encoded : (b : UInt8) → (follow : Text) → (v : Nat) → Prop where
  | one {b : UInt8} (hb : b.toNat < 0x80) : Encoded b [] b.toNat
  | two {b c : UInt8} (hb : 0xc2 ≤ b.toNat) (hb' : b.toNat < 0xe0) (hc : isContinuation c = true) :
      Encoded b [c] (b.toNat % 0x20 * 0x40 + payload c)
  | three {b c d : UInt8} (hb : 0xe0 ≤ b.toNat) (hb' : b.toNat < 0xf0)
      (hc : isContinuation c = true) (hd : isContinuation d = true)
      (hlow : b.toNat = 0xe0 → 0xa0 ≤ c.toNat) (hhigh : b.toNat = 0xed → c.toNat ≤ 0x9f) :
      Encoded b [c, d] (b.toNat % 0x10 * 0x1000 + payload c * 0x40 + payload d)
  | four {b c d e : UInt8} (hb : 0xf0 ≤ b.toNat) (hb' : b.toNat < 0xf5)
      (hc : isContinuation c = true) (hd : isContinuation d = true) (he : isContinuation e = true)
      (hlow : b.toNat = 0xf0 → 0x90 ≤ c.toNat) (hhigh : b.toNat = 0xf4 → c.toNat ≤ 0x8f) :
      Encoded b [c, d, e]
        (b.toNat % 0x08 * 0x40000 + payload c * 0x1000 + payload d * 0x40 + payload e)

variable {b c : UInt8} {rest follow t u : Text} {n v : Nat}

/-- A continuation byte is its payload under the mark `10`. -/
theorem toNat_of_isContinuation (h : isContinuation c = true) :
    c.toNat = payload c + 0x80 ∧ payload c < 0x40 := by
  simp only [isContinuation, Bool.and_eq_true, decide_eq_true_eq] at h
  have hlow : 0x80 ≤ c.toNat := h.1
  have hhigh : c.toNat ≤ 0xbf := h.2
  unfold payload
  omega

/-- What is read as a character has one of the forms. -/
theorem encoded_of_head? {ch : Char} (h : head? b rest = some (ch, n)) :
    ∃ follow behind v, rest = follow ++ behind ∧ follow.length = n ∧ ch = Char.ofNat v ∧
      Encoded b follow v := by
  -- one case for each number of bytes, by the range of the first one
  unfold head? at h
  split at h
  · next hb =>
      cases h
      exact ⟨[], rest, _, rfl, rfl, rfl, .one hb⟩
  split at h
  · cases h
  next hb =>
  have hb : 0xc2 ≤ b.toNat := Nat.not_lt.mp hb
  split at h
  · next hb' =>
      split at h
      · next c behind =>
          split at h
          · next hc =>
              cases h
              exact ⟨[c], behind, _, rfl, rfl, rfl, .two hb hb' hc⟩
          · cases h
      · cases h
  next hb =>
  have hb : 0xe0 ≤ b.toNat := Nat.not_lt.mp hb
  split at h
  · next hb' =>
      split at h
      · next c d behind =>
          split at h
          · next hform =>
              cases h
              simp only [Bool.and_eq_true, Bool.or_eq_true, bne_iff_ne, decide_eq_true_eq] at hform
              obtain ⟨⟨⟨hc, hd⟩, hlow⟩, hhigh⟩ := hform
              exact ⟨[c, d], behind, _, rfl, rfl, rfl, .three hb hb' hc hd
                (fun he => hlow.resolve_left (not_not.mpr (UInt8.toNat_inj.mp he)))
                (fun he => hhigh.resolve_left (not_not.mpr (UInt8.toNat_inj.mp he)))⟩
          · cases h
      · cases h
  next hb =>
  have hb : 0xf0 ≤ b.toNat := Nat.not_lt.mp hb
  split at h
  · next hb' =>
      split at h
      · next c d e behind =>
          split at h
          · next hform =>
              cases h
              simp only [Bool.and_eq_true, Bool.or_eq_true, bne_iff_ne, decide_eq_true_eq] at hform
              obtain ⟨⟨⟨⟨hc, hd⟩, he⟩, hlow⟩, hhigh⟩ := hform
              exact ⟨[c, d, e], behind, _, rfl, rfl, rfl, .four hb hb' hc hd he
                (fun he => hlow.resolve_left (not_not.mpr (UInt8.toNat_inj.mp he)))
                (fun he => hhigh.resolve_left (not_not.mpr (UInt8.toNat_inj.mp he)))⟩
          · cases h
      · cases h
  · cases h

/-- The bytes that encode a number. -/
theorem encode_ofNat (hv : v.isValidChar) :
    String.utf8EncodeChar (Char.ofNat v) =
      if v ≤ 0x7f then [.ofNat v]
      else if v ≤ 0x7ff then [.ofNat (v / 0x40 % 0x20 + 0xc0), .ofNat (v % 0x40 + 0x80)]
      else if v ≤ 0xffff then [.ofNat (v / 0x1000 % 0x10 + 0xe0), .ofNat (v / 0x40 % 0x40 + 0x80),
        .ofNat (v % 0x40 + 0x80)]
      else [.ofNat (v / 0x40000 % 0x8 + 0xf0), .ofNat (v / 0x1000 % 0x40 + 0x80),
        .ofNat (v / 0x40 % 0x40 + 0x80), .ofNat (v % 0x40 + 0x80)] := by
  have hval : (Char.ofNat v).val.toNat = v := by
    rw [Char.ofNat, dif_pos hv]
    rfl
  simp only [String.utf8EncodeChar, hval]

theorem ofNat_eq (h : v = b.toNat) : UInt8.ofNat v = b := h ▸ UInt8.ofNat_toNat

/-- The number that some bytes stand for is encoded by these bytes. -/
theorem Encoded.encode (h : Encoded b follow v) :
    String.utf8EncodeChar (Char.ofNat v) = b :: follow := by
  cases h with
  | one hb => rw [encode_ofNat (.inl (by omega)), if_pos (by omega), UInt8.ofNat_toNat]
  | @two c hb hb' hc =>
      obtain ⟨hc, hc'⟩ := toNat_of_isContinuation hc
      rw [encode_ofNat (.inl (by omega)), if_neg (by omega), if_pos (by omega),
        ofNat_eq (b := b) (by omega), ofNat_eq (b := c) (by omega)]
  | @three c d hb hb' hc hd hlow hhigh =>
      obtain ⟨hc, hc'⟩ := toNat_of_isContinuation hc
      obtain ⟨hd, hd'⟩ := toNat_of_isContinuation hd
      rw [encode_ofNat (by unfold Nat.isValidChar; omega), if_neg (by omega), if_neg (by omega),
        if_pos (by omega), ofNat_eq (b := b) (by omega), ofNat_eq (b := c) (by omega),
        ofNat_eq (b := d) (by omega)]
  | @four c d e hb hb' hc hd he hlow hhigh =>
      obtain ⟨hc, hc'⟩ := toNat_of_isContinuation hc
      obtain ⟨hd, hd'⟩ := toNat_of_isContinuation hd
      obtain ⟨he, he'⟩ := toNat_of_isContinuation he
      rw [encode_ofNat (by unfold Nat.isValidChar; omega), if_neg (by omega), if_neg (by omega),
        if_neg (by omega), ofNat_eq (b := b) (by omega), ofNat_eq (b := c) (by omega),
        ofNat_eq (b := d) (by omega), ofNat_eq (b := e) (by omega)]

/-- A byte of ASCII belongs to the character with its number only. -/
theorem toNat_eq_of_mem_encode {ch : Char} (h : b ∈ String.utf8EncodeChar ch) (hb : b.toNat < 0x80) :
    ch.toNat = b.toNat := by
  -- the bytes of longer encodings are all 0x80 or above
  have hlow {n : Nat} (hmark : 0x80 ≤ n) (hn : n < 0x100) : b ≠ .ofNat n := by
    rintro rfl
    rw [UInt8.toNat_ofNat'] at hb
    omega
  have hvalid : ch.toNat.isValidChar := ch.valid
  rw [← Char.ofNat_toNat ch, encode_ofNat hvalid] at h
  split at h
  · next hch =>
      rw [List.mem_singleton.mp h, UInt8.toNat_ofNat']
      omega
  split at h
  · rcases List.mem_pair.mp h with h | h <;> exact absurd h (hlow (by omega) (by omega))
  split at h
  · simp only [List.mem_cons, List.not_mem_nil, or_false] at h
    rcases h with h | h | h <;> exact absurd h (hlow (by omega) (by omega))
  · simp only [List.mem_cons, List.not_mem_nil, or_false] at h
    rcases h with h | h | h | h <;> exact absurd h (hlow (by omega) (by omega))

/-! ### Pieces -/

/-- The pieces of a text have its bytes. -/
theorem flatMap_bytes (t : Text) : t.pieces.flatMap Piece.bytes = t := by
  fun_induction pieces t with
  | case1 => rfl
  | case2 b rest ch n hhead ih =>
      obtain ⟨follow, behind, v, rfl, rfl, rfl, hencoded⟩ := encoded_of_head? hhead
      rw [List.drop_left] at ih ⊢
      rw [List.flatMap_cons, ih, Piece.bytes, hencoded.encode, List.cons_append]
  | case3 b rest _ ih => rw [List.flatMap_cons, ih, Piece.bytes, List.singleton_append]

/-- **Different texts have different pieces.** -/
theorem pieces_injective (h : t.pieces = u.pieces) : t = u := by
  rw [← flatMap_bytes t, h, flatMap_bytes]

/-- A stray byte is no ASCII character. -/
theorem le_of_stray_mem (h : .stray b ∈ t.pieces) : 0x80 ≤ b.toNat := by
  fun_induction pieces t with
  | case1 => cases h
  | case2 _ _ _ _ _ ih =>
      rcases List.mem_cons.mp h with heq | h
      · cases heq
      · exact ih h
  | case3 b' rest hhead ih =>
      rcases List.mem_cons.mp h with heq | h
      · cases heq
        -- an ASCII character would have been read
        refine Nat.not_lt.mp fun hb => ?_
        unfold head? at hhead
        rw [if_pos (show b < 0x80 from hb)] at hhead
        cases hhead
      · exact ih h

/-! ### Strings -/

/-- Different strings have different bytes. -/
theorem ofString_injective : Function.Injective ofString := by
  intro a b h
  have hbytes : a.toList.utf8Encode = b.toList.utf8Encode := congrArg List.toByteArray h
  rw [String.utf8Encode_toList, String.utf8Encode_toList] at hbytes
  exact String.toByteArray_inj.mp hbytes

end Text

end Lossless
