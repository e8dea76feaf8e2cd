import Lossless.Proofs.Text.Rune

/-!
# Text — texts of whole characters

The bytes of a character have one of the forms (`encoded_of_encode`) and are read as this character
whatever comes behind them (`head?_of_encoded`).  So the pieces of the bytes of characters are these
characters (`pieces_ofChars`), and the valid texts are the bytes of characters (`isValid_iff`).

A text of characters that is cut anywhere is cut between two characters or within one: `Cut` says which.
A byte behind the cut tells (`Cut.isContinuation_iff`), and so does what is in front of it
(`Cut.isValid_iff`): **a cut text is valid** exactly when no byte continues a character behind the cut
(`isValid_take_iff`).
-/

namespace Lossless.Text

variable {b : UInt8} {follow t : Text} {v : Nat}

/-! ### Reading what was encoded -/

theorem isContinuation_ofNat (n : Nat) : isContinuation (.ofNat (n % 0x40 + 0x80)) = true := by
  have hn : (UInt8.ofNat (n % 0x40 + 0x80)).toNat = n % 0x40 + 0x80 := by
    rw [UInt8.toNat_ofNat']
    omega
  have hlow : 0x80 ≤ (UInt8.ofNat (n % 0x40 + 0x80)).toNat := by omega
  have hhigh : (UInt8.ofNat (n % 0x40 + 0x80)).toNat ≤ 0xbf := by omega
  exact Bool.and_eq_true_iff.mpr ⟨decide_eq_true hlow, decide_eq_true hhigh⟩

theorem payload_ofNat (n : Nat) : payload (.ofNat (n % 0x40 + 0x80)) = n % 0x40 := by
  rw [payload, UInt8.toNat_ofNat']
  omega

/-- The bytes of a character have one of the forms. -/
theorem encoded_of_encode (c : Char) :
    ∃ b follow, String.utf8EncodeChar c = b :: follow ∧ Encoded b follow c.toNat := by
  have hvalid : c.toNat.isValidChar := c.valid
  -- one case for each number of bytes, by the range of the character
  have hbytes := encode_ofNat hvalid
  rw [Char.ofNat_toNat] at hbytes
  generalize c.toNat = n at *
  have hbyte (m : Nat) (hm : m < 0x100) : (UInt8.ofNat m).toNat = m := by
    rw [UInt8.toNat_ofNat']
    omega
  have hcont := isContinuation_ofNat
  have hpay := payload_ofNat
  split at hbytes
  · next hn =>
      refine ⟨_, _, hbytes, ?_⟩
      convert Encoded.one (b := .ofNat n) (by rw [hbyte _ (by omega)]; omega)
      rw [hbyte _ (by omega)]
  split at hbytes
  · next hn =>
      have hb := hbyte (n / 0x40 % 0x20 + 0xc0) (by omega)
      refine ⟨_, _, hbytes, ?_⟩
      convert Encoded.two (b := .ofNat (n / 0x40 % 0x20 + 0xc0)) (by omega) (by omega) (hcont n) using 1
      rw [hb, hpay]
      omega
  split at hbytes
  · next hn =>
      have hb := hbyte (n / 0x1000 % 0x10 + 0xe0) (by omega)
      have hc := hbyte (n / 0x40 % 0x40 + 0x80) (by omega)
      have hv : n < 0xd800 ∨ 0xdfff < n := by unfold Nat.isValidChar at hvalid; omega
      refine ⟨_, _, hbytes, ?_⟩
      convert Encoded.three (b := .ofNat (n / 0x1000 % 0x10 + 0xe0)) (by omega) (by omega)
        (hcont (n / 0x40)) (hcont n) (by omega) (by omega) using 1
      rw [hb, hpay, hpay]
      omega
  · next hn =>
      have hb := hbyte (n / 0x40000 % 0x8 + 0xf0) (by omega)
      have hc := hbyte (n / 0x1000 % 0x40 + 0x80) (by omega)
      have hv : n < 0x110000 := by unfold Nat.isValidChar at hvalid; omega
      refine ⟨_, _, hbytes, ?_⟩
      convert Encoded.four (b := .ofNat (n / 0x40000 % 0x8 + 0xf0)) (by omega) (by omega)
        (hcont (n / 0x1000)) (hcont (n / 0x40)) (hcont n) (by omega) (by omega) using 1
      rw [hb, hpay, hpay, hpay]
      omega

/-- What has one of the forms is read as its character, whatever is behind it. -/
theorem head?_of_encoded (h : Encoded b follow v) (behind : Text) :
    head? b (follow ++ behind) = some (Char.ofNat v, follow.length) := by
  -- each case lies beyond the bounds of the cases before it
  have hneg (lo : UInt8) (h : lo.toNat ≤ b.toNat) : ¬b < lo := Nat.not_lt.mpr h
  unfold head?
  cases h with
  | one hb => exact if_pos hb
  | @two c hb hb' hc =>
      rw [if_neg (hneg 0x80 (Nat.le_trans (by decide) hb)), if_neg (hneg 0xc2 hb),
        if_pos (show b < 0xe0 from hb')]
      exact if_pos hc
  | @three c d hb hb' hc hd hlow hhigh =>
      rw [if_neg (hneg 0x80 (Nat.le_trans (by decide) hb)),
        if_neg (hneg 0xc2 (Nat.le_trans (by decide) hb)), if_neg (hneg 0xe0 hb),
        if_pos (show b < 0xf0 from hb')]
      have hlow : b = 0xe0 → 0xa0 ≤ c := fun h => hlow (congrArg UInt8.toNat h)
      have hhigh : b = 0xed → c ≤ 0x9f := fun h => hhigh (congrArg UInt8.toNat h)
      exact if_pos (by simpa [hc, hd, ← imp_iff_not_or] using ⟨hlow, hhigh⟩)
  | @four c d e hb hb' hc hd he hlow hhigh =>
      rw [if_neg (hneg 0x80 (Nat.le_trans (by decide) hb)),
        if_neg (hneg 0xc2 (Nat.le_trans (by decide) hb)),
        if_neg (hneg 0xe0 (Nat.le_trans (by decide) hb)), if_neg (hneg 0xf0 hb),
        if_pos (show b < 0xf5 from hb')]
      have hlow : b = 0xf0 → 0x90 ≤ c := fun h => hlow (congrArg UInt8.toNat h)
      have hhigh : b = 0xf4 → c ≤ 0x8f := fun h => hhigh (congrArg UInt8.toNat h)
      exact if_pos (by simpa [hc, hd, he, ← imp_iff_not_or] using ⟨hlow, hhigh⟩)

/-! ### Characters one after the other -/

theorem pieces_cons (b : UInt8) (rest : Text) :
    pieces (b :: rest) = match head? b rest with
      | some (c, n) => .char c :: pieces (rest.drop n)
      | none => .stray b :: pieces rest := by
  cases h : head? b rest with
  | none => simp only [pieces, h]
  | some r => simp only [pieces, h]

/-- A character in front of a text is a piece in front of its pieces. -/
theorem pieces_encode_append (c : Char) (t : Text) :
    pieces (String.utf8EncodeChar c ++ t) = .char c :: pieces t := by
  obtain ⟨b, follow, hbytes, hencoded⟩ := encoded_of_encode c
  rw [hbytes, List.cons_append, pieces_cons, head?_of_encoded hencoded]
  dsimp only
  rw [Char.ofNat_toNat, List.drop_left]

theorem pieces_ofChars_append (cs : List Char) (t : Text) :
    pieces (ofChars cs ++ t) = cs.map .char ++ pieces t := by
  induction cs with
  | nil => rfl
  | cons c cs ih =>
      rw [ofChars, List.flatMap_cons, List.append_assoc, pieces_encode_append, List.map_cons,
        List.cons_append, ← ih, ofChars]

theorem pieces_nil : pieces [] = [] := by rw [pieces]

/-- **The pieces of characters** are these characters. -/
theorem pieces_ofChars (cs : List Char) : pieces (ofChars cs) = cs.map .char := by
  have h := pieces_ofChars_append cs []
  rwa [List.append_nil, pieces_nil, List.append_nil] at h

theorem chars_ofChars (cs : List Char) : chars (ofChars cs) = cs := by
  rw [chars, pieces_ofChars, List.map_map]
  exact List.map_id _

theorem isValid_ofChars_append (cs : List Char) (t : Text) :
    isValid (ofChars cs ++ t) = isValid t := by
  rw [isValid, pieces_ofChars_append, List.all_append, List.all_map]
  exact Bool.and_eq_right_iff_imp.mpr fun _ => List.all_eq_true.mpr fun _ _ => rfl

theorem ofChars_chars (h : t.isValid = true) : ofChars t.chars = t := by
  obtain ⟨f, hchars, hchar⟩ : ∃ f : Piece → Char, t.chars = t.pieces.map f ∧ ∀ c, f (.char c) = c :=
    ⟨_, rfl, fun _ => rfl⟩
  have hpiece : ∀ p ∈ t.pieces, String.utf8EncodeChar (f p) = p.bytes := by
    intro p hp
    have hp := List.all_eq_true.mp h p hp
    cases p with
    | char c => rw [hchar, Piece.bytes]
    | stray b => cases hp
  have hbytes := flatMap_bytes t
  rwa [← List.flatMap_congr hpiece, ← List.flatMap_map, ← hchars] at hbytes

/-- The valid texts are the bytes of characters. -/
theorem isValid_iff : t.isValid = true ↔ ∃ cs, t = ofChars cs := by
  constructor
  · exact fun h => ⟨t.chars, (ofChars_chars h).symm⟩
  · rintro ⟨cs, rfl⟩
    have h := isValid_ofChars_append cs []
    rw [List.append_nil] at h
    rw [h, isValid, pieces_nil]
    rfl

theorem isValid_of_replacement (h : replacement ∉ t.chars) : t.isValid = true := by
  refine List.all_eq_true.mpr fun p hp => ?_
  cases p with
  | char c => rfl
  | stray b => exact absurd (List.mem_map_of_mem hp) h

theorem length_encode {c : Char} (h : c.toNat < 0x80) : (String.utf8EncodeChar c).length = 1 := by
  have hc : c.toNat ≤ 0x7f := Nat.le_of_lt_succ h
  simp [String.utf8EncodeChar, hc]

/-- Characters of ASCII have one byte each. -/
theorem length_ofChars {cs : List Char} (h : ∀ c ∈ cs, c.toNat < 0x80) :
    (ofChars cs).length = cs.length := by
  induction cs with
  | nil => rfl
  | cons c cs ih =>
      rw [ofChars, List.flatMap_cons, List.length_append, length_encode (h c (.head _)), ← ofChars,
        ih fun d hd => h d (.tail _ hd), List.length_cons, Nat.add_comm]

/-! ### Cuts -/

/-- The first byte of a character continues none. -/
theorem Encoded.not_isContinuation (h : Encoded b follow v) : isContinuation b = false := by
  refine Bool.eq_false_iff.mpr fun hb => ?_
  have hb : 0x80 ≤ b.toNat ∧ b.toNat ≤ 0xbf :=
    ⟨of_decide_eq_true (Bool.and_eq_true_iff.mp hb).1,
      of_decide_eq_true (Bool.and_eq_true_iff.mp hb).2⟩
  cases h <;> omega

/-- The others continue it, and there are no more than three of them. -/
theorem Encoded.follow_spec (h : Encoded b follow v) :
    (∀ c ∈ follow, isContinuation c = true) ∧ follow.length ≤ 3 := by
  cases h <;> simp [*]

/-- A character that is not there in full is not read as another one. -/
theorem head?_of_torn {left right : Text} (h : Encoded b (left ++ right) v) (hright : right ≠ []) :
    head? b left = none := by
  cases hhead : head? b left with
  | none => rfl
  | some read =>
      -- one text would be read as two characters of different lengths
      obtain ⟨follow, behind, v', rfl, -, -, hencoded⟩ := encoded_of_head? hhead
      have hshort := head?_of_encoded hencoded (behind ++ right)
      have hlong := head?_of_encoded h []
      rw [List.append_nil, List.append_assoc, hshort] at hlong
      have hlen := congrArg Prod.snd (Option.some.inj hlong)
      simp only [List.length_append] at hlen
      exact absurd (List.length_eq_zero_iff.mp (by omega)) hright

/-- How a text of characters falls apart into a front part and the rest: between two characters, or
behind the first byte of a character and some of those that follow it. -/
inductive Cut : List Char → (front rest : Text) → Prop where
  | between (cs ds : List Char) : Cut (cs ++ ds) (ofChars cs) (ofChars ds)
  | within {c : Char} {b : UInt8} {left right : Text} (cs ds : List Char)
      (hc : String.utf8EncodeChar c = b :: (left ++ right)) (hright : right ≠ []) :
      Cut (cs ++ c :: ds) (ofChars cs ++ b :: left) (right ++ ofChars ds)

variable {cs : List Char} {front rest : Text}

/-- A cut behind a character is one of the text behind it. -/
theorem Cut.cons (c : Char) (h : Cut cs front rest) :
    Cut (c :: cs) (String.utf8EncodeChar c ++ front) rest := by
  cases h with
  | between cs ds => exact .between (c :: cs) ds
  | within cs ds hc hright =>
      rw [← List.append_assoc]
      exact .within (c :: cs) ds hc hright

/-- A cut within the first character, or in front of it. -/
theorem cut_first (c : Char) (cs : List Char) {n : Nat} (hn : n < (String.utf8EncodeChar c).length) :
    Cut (c :: cs) ((String.utf8EncodeChar c).take n)
      ((String.utf8EncodeChar c).drop n ++ ofChars cs) := by
  cases n with
  | zero => exact .between [] (c :: cs)
  | succ k =>
      obtain ⟨b, follow, hc, -⟩ := encoded_of_encode c
      rw [hc, List.length_cons] at hn
      rw [hc, List.take_succ_cons, List.drop_succ_cons]
      have hright : follow.drop k ≠ [] := fun h => by
        have hlen := List.drop_eq_nil_iff.mp h
        omega
      exact .within [] cs (hc.trans (by rw [List.take_append_drop])) hright

/-- **Wherever a text of characters is cut.** -/
theorem cut_ofChars (cs : List Char) (n : Nat) :
    Cut cs ((ofChars cs).take n) ((ofChars cs).drop n) := by
  induction cs generalizing n with
  | nil =>
      rw [ofChars, List.flatMap_nil, List.take_nil, List.drop_nil]
      exact .between [] []
  | cons c cs ih =>
      rw [ofChars, List.flatMap_cons]
      rcases Nat.lt_or_ge n (String.utf8EncodeChar c).length with hn | hn
      · rw [List.take_append_of_le_length (Nat.le_of_lt hn),
          List.drop_append_of_le_length (Nat.le_of_lt hn)]
        exact cut_first c cs hn
      · have hcut := (ih (n - (String.utf8EncodeChar c).length)).cons c
        rw [List.take_append, List.drop_append, List.take_of_length_le hn,
          List.drop_of_length_le hn]
        exact hcut

theorem not_isValid_of_torn {left right : Text} (h : Encoded b (left ++ right) v)
    (hright : right ≠ []) : isValid (b :: left) = false := by
  rw [isValid, pieces_cons, head?_of_torn h hright]
  rfl

/-- The front part is valid exactly when the rest does not start within a character. -/
theorem Cut.isValid_iff (h : Cut cs front rest) :
    front.isValid = true ↔ ∀ b, List.head? rest = some b → isContinuation b = false := by
  cases h with
  | between cs ds =>
      refine iff_of_true (Text.isValid_iff.mpr ⟨cs, rfl⟩) fun b hb => ?_
      cases ds with
      | nil => cases hb
      | cons d ds =>
          obtain ⟨b', follow, hd, hencoded⟩ := encoded_of_encode d
          rw [ofChars, List.flatMap_cons, hd] at hb
          cases hb
          exact hencoded.not_isContinuation
  | @within c b left right cs ds hc hright =>
      obtain ⟨b', follow, hc', hencoded⟩ := encoded_of_encode c
      obtain ⟨rfl, rfl⟩ := List.cons.inj (hc'.symm.trans hc)
      rw [isValid_ofChars_append, not_isValid_of_torn hencoded hright]
      obtain ⟨d, right, rfl⟩ := List.exists_cons_of_ne_nil hright
      -- within a character the byte behind the cut is a continuation
      have hd := hencoded.follow_spec.1 d (List.mem_append_right left List.mem_cons_self)
      exact iff_of_false Bool.false_ne_true fun h => by simp [h d rfl] at hd

/-- The front part ends with the start of a character that goes on behind it, unless it is valid. -/
theorem Cut.exists_torn (h : Cut cs front rest) (hfront : front.isValid = false) :
    ∃ (whole part : Text) (c : Char), front = whole ++ part ∧ whole.isValid = true ∧
      (1 ≤ part.length ∧ part.length ≤ 3) ∧ part <+: String.utf8EncodeChar c ∧
      whole ++ String.utf8EncodeChar c <+: front ++ rest := by
  cases h with
  | between cs ds => exact absurd (Text.isValid_iff.mpr ⟨cs, rfl⟩) (Bool.eq_false_iff.mp hfront)
  | @within c b left right cs ds hc hright =>
      obtain ⟨b', follow, hc', hencoded⟩ := encoded_of_encode c
      obtain ⟨rfl, rfl⟩ := List.cons.inj (hc'.symm.trans hc)
      -- at most three bytes follow the first one of a character, and one of them is cut off
      have hlen := hencoded.follow_spec.2
      have hpos := List.length_pos_iff.mpr hright
      rw [List.length_append] at hlen
      refine ⟨ofChars cs, b' :: left, c, rfl, Text.isValid_iff.mpr ⟨cs, rfl⟩, ?_, ?_, ?_⟩
      · rw [List.length_cons]
        omega
      · rw [hc]
        exact ⟨right, rfl⟩
      · rw [hc]
        exact ⟨ofChars ds, by simp⟩

/-- **A cut text is valid** exactly when no byte continues a character behind the cut. -/
theorem isValid_take_iff (ht : t.isValid = true) (n : Nat) :
    isValid (t.take n) = true ↔ ∀ b, t[n]? = some b → isContinuation b = false := by
  obtain ⟨cs, rfl⟩ := isValid_iff.mp ht
  rw [(cut_ofChars cs n).isValid_iff, List.head?_drop]

end Lossless.Text
