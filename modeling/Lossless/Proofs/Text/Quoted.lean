import Lossless.Proofs.Text.Rune
import Lossless.Text.Quoted
import Mathlib.Algebra.Group.Nat.Defs

/-!
# Text — quoted texts can be read back

What is written for a piece between quotes tells the piece, whatever follows (`unquotePiece?_append`): a
backslash and the letter behind it say how many characters belong to it.  No piece starts with a
quote, so the quote that closes a text is the first one that does not belong to a piece, and **a
quoted text** tells the text and what stands behind it (`quote_append_inj`).  It is one line
(`newline_notMem_quote`).
-/

namespace Lossless.Text

variable {c l : Char} {p q : Piece} {ps qs : List Piece} {t u : Text} {xs ys : List Char}

/-! ### Reading a piece -/

/-- The value of a hexadecimal digit in lower case. -/
def hexValue (c : Char) : Nat := if c.toNat < 0x3a then c.toNat - 0x30 else c.toNat - 0x57

/-- The value of hexadecimal digits, most significant first. -/
def hexNumber (cs : List Char) : Nat := cs.foldl (fun n c => 16 * n + hexValue c) 0

/-- The control character that a letter behind a backslash stands for. -/
def lettered? (l : Char) : Option Char :=
  if l = 'a' then some '\x07' else if l = 'b' then some '\x08' else if l = 't' then some '\t'
  else if l = 'n' then some '\n' else if l = 'v' then some '\x0b' else if l = 'f' then some '\x0c'
  else if l = 'r' then some '\r' else none

/-- The piece that is written behind a backslash, and the characters behind it. -/
def unescape? : List Char → Option (Piece × List Char)
  | [] => none
  | l :: rest =>
    if l = '"' ∨ l = '\\' then some (.char l, rest)
    else if l = 'x' then
      let v := hexNumber (rest.take 2)
      some (if v < 0x80 then .char (.ofNat v) else .stray (.ofNat v), rest.drop 2)
    else if l = 'u' then some (.char (.ofNat (hexNumber (rest.take 4))), rest.drop 4)
    else if l = 'U' then some (.char (.ofNat (hexNumber (rest.take 8))), rest.drop 8)
    else (lettered? l).map fun c => (.char c, rest)

/-- The first piece that is written between quotes, and the characters behind it. -/
def unquotePiece? : List Char → Option (Piece × List Char)
  | [] => none
  | c :: rest => if c = '\\' then unescape? rest else some (.char c, rest)

theorem length_hexDigits (w n : Nat) : (hexDigits w n).length = w := by
  induction w generalizing n with
  | zero => rfl
  | succ w ih => rw [hexDigits, List.length_append, ih, List.length_singleton]

theorem hexValue_hexDigit (n : Nat) : hexValue (hexDigit n) = n % 16 := by
  have hall : ∀ m < 16, hexValue (Nat.digitChar m) = m := by decide
  exact hall _ (Nat.mod_lt _ (by decide))

theorem hexNumber_hexDigits (w n : Nat) : hexNumber (hexDigits w n) = n % 16 ^ w := by
  induction w generalizing n with
  | zero => rw [Nat.pow_zero, Nat.mod_one]; rfl
  | succ w ih =>
      have hstep : hexNumber (hexDigits (w + 1) n) = 16 * hexNumber (hexDigits w (n / 16)) + n % 16 := by
        simp [hexNumber, hexDigits, hexValue_hexDigit]
      rw [hstep, ih, Nat.pow_succ', Nat.mod_mul, Nat.add_comm]

/-- Digits in front of other characters are read. -/
theorem hexNumber_take {w n : Nat} (hn : n < 16 ^ w) (xs : List Char) :
    hexNumber ((hexDigits w n ++ xs).take w) = n ∧ (hexDigits w n ++ xs).drop w = xs := by
  have hlen := length_hexDigits w n
  rw [List.take_left' hlen, List.drop_left' hlen, hexNumber_hexDigits, Nat.mod_eq_of_lt hn]
  exact ⟨rfl, rfl⟩

theorem lettered?_of_escapeLetter? (h : escapeLetter? c = some l) : lettered? l = some c := by
  rw [← Char.ofNat_toNat c]
  unfold escapeLetter? at h
  split at h
  case h_8 => cases h
  all_goals next hc =>
    cases h
    rw [hc]
    rfl

/-- Letters that stand for control characters stand for nothing else. -/
theorem unescape?_letter (h : escapeLetter? c = some l) (xs : List Char) :
    unescape? (l :: xs) = some (.char c, xs) := by
  have hletter := lettered?_of_escapeLetter? h
  have hother : l ≠ '"' ∧ l ≠ '\\' ∧ l ≠ 'x' ∧ l ≠ 'u' ∧ l ≠ 'U' := by
    refine ⟨?_, ?_, ?_, ?_, ?_⟩ <;> rintro rfl <;> exact absurd hletter (by simp [lettered?])
  simp [unescape?, hother, hletter]

theorem toNat_lt (c : Char) : c.toNat < 0x110000 := by
  rcases c.valid with h | ⟨-, h⟩
  · exact Nat.lt_trans h (by decide)
  · exact h

/-- A character is read back. -/
theorem unquotePiece?_quoteChar (c : Char) (xs : List Char) :
    unquotePiece? (quoteChar c ++ xs) = some (.char c, xs) := by
  -- whatever follows a backslash is read as an escape
  have hesc (cs : List Char) : unquotePiece? ('\\' :: cs) = unescape? cs := by
    rw [unquotePiece?, if_pos rfl]
  unfold quoteChar
  split
  · next hc =>
      rw [List.cons_append, hesc, List.singleton_append, unescape?,
        if_pos (by simpa [Bool.or_eq_true] using hc)]
  next hc =>
  have hc : c ≠ '\\' := fun h => hc (by simp [h])
  split
  · rw [List.singleton_append, unquotePiece?, if_neg hc]
  split
  · next l hl => rw [List.cons_append, hesc, List.singleton_append, unescape?_letter hl]
  split
  · next hlt =>
      obtain ⟨hnumber, hrest⟩ := hexNumber_take (w := 2) (n := c.toNat) (by omega) xs
      rw [List.cons_append, hesc, List.cons_append, unescape?, hnumber, hrest]
      simp [hlt]
  split
  · next hlt =>
      obtain ⟨hnumber, hrest⟩ := hexNumber_take (w := 4) (n := c.toNat) hlt xs
      rw [List.cons_append, hesc, List.cons_append, unescape?, hnumber, hrest]
      simp
  · have hlt := toNat_lt c
    obtain ⟨hnumber, hrest⟩ := hexNumber_take (w := 8) (n := c.toNat) (by omega) xs
    rw [List.cons_append, hesc, List.cons_append, unescape?, hnumber, hrest]
    simp

/-- **A piece is read back**, whatever follows. A stray byte that an ASCII character is written for
would be read as this character. -/
theorem unquotePiece?_append (hp : ∀ b, p = .stray b → 0x80 ≤ b.toNat) (xs : List Char) :
    unquotePiece? (quotePiece p ++ xs) = some (p, xs) := by
  cases p with
  | char c => exact unquotePiece?_quoteChar c xs
  | stray b =>
      have hb := hp b rfl
      obtain ⟨hnumber, hrest⟩ := hexNumber_take (w := 2) (n := b.toNat) (by have := b.toNat_lt; omega) xs
      rw [quotePiece, List.cons_append, List.cons_append, unquotePiece?, if_pos rfl, unescape?,
        hnumber, hrest]
      simp [Nat.not_lt.mpr hb]

/-! ### Quoted texts -/

theorem hexDigits_plain (w n : Nat) : ∀ c ∈ hexDigits w n, c ≠ '\n' := by
  have hall : ∀ m < 16, Nat.digitChar m ≠ '\n' := by decide
  induction w generalizing n with
  | zero => exact nofun
  | succ w ih =>
      intro c hc
      rcases List.mem_append.mp hc with hc | hc
      · exact ih _ c hc
      · rw [List.mem_singleton.mp hc]
        exact hall _ (Nat.mod_lt _ (by decide))

theorem escapeLetter?_ne_newline (h : escapeLetter? c = some l) : l ≠ '\n' := by
  rintro rfl
  exact absurd (lettered?_of_escapeLetter? h) (by simp [lettered?])

/-- What is written for a character starts with no quote and has no newline. -/
theorem quoteChar_plain (c : Char) : (quoteChar c).head? ≠ some '"' ∧ '\n' ∉ quoteChar c := by
  have hprint : isPrintable '\n' = false := by rw [isPrintable, if_pos (by decide)]; decide
  have hdigits (w n : Nat) : '\n' ∉ hexDigits w n := fun h => hexDigits_plain w n _ h rfl
  unfold quoteChar
  split
  · next hc =>
      have hc : c = '"' ∨ c = '\\' := by simpa [Bool.or_eq_true] using hc
      rcases hc with rfl | rfl <;> decide
  next hc =>
  have hc : c ≠ '"' := fun h => hc (by simp [h])
  split
  · next hprints =>
      refine ⟨fun h => hc (Option.some.inj h), fun h => ?_⟩
      rw [← List.mem_singleton.mp h, hprint] at hprints
      cases hprints
  split
  · next l hl => simp [(escapeLetter?_ne_newline hl).symm]
  split
  · simp [hdigits]
  split
  · simp [hdigits]
  · simp [hdigits]

theorem quotePiece_plain (p : Piece) : (quotePiece p).head? ≠ some '"' ∧ '\n' ∉ quotePiece p := by
  cases p with
  | char c => exact quoteChar_plain c
  | stray b =>
      have hdigits : '\n' ∉ hexDigits 2 b.toNat := fun h => hexDigits_plain 2 _ _ h rfl
      simp [quotePiece, hdigits]

/-- A piece is no closing quote. -/
theorem quotePiece_append_ne (p : Piece) (xs ys : List Char) : quotePiece p ++ xs ≠ '"' :: ys := by
  intro h
  have hread : quotePiece p ≠ [] := by
    intro hnil
    cases p with
    | char c =>
        have hback := unquotePiece?_quoteChar c []
        rw [show quoteChar c = [] from hnil] at hback
        cases hback
    | stray b => cases hnil
  obtain ⟨d, ds, hp⟩ := List.exists_cons_of_ne_nil hread
  have hhead := (quotePiece_plain p).1
  rw [hp] at h hhead
  exact hhead (congrArg some (List.cons.inj h).1)

/-- Pieces up to a closing quote are told apart. -/
theorem quotePieces_inj (hps : ∀ b, .stray b ∈ ps → 0x80 ≤ b.toNat)
    (hqs : ∀ b, .stray b ∈ qs → 0x80 ≤ b.toNat)
    (h : ps.flatMap quotePiece ++ '"' :: xs = qs.flatMap quotePiece ++ '"' :: ys) :
    ps = qs ∧ xs = ys := by
  induction ps generalizing qs with
  | nil =>
      cases qs with
      | nil => exact ⟨rfl, (List.cons.inj h).2⟩
      | cons q qs =>
          rw [List.flatMap_cons, List.append_assoc] at h
          exact absurd h.symm (quotePiece_append_ne q _ _)
  | cons p ps ih =>
      cases qs with
      | nil =>
          rw [List.flatMap_cons, List.append_assoc] at h
          exact absurd h (quotePiece_append_ne p _ _)
      | cons q qs =>
          rw [List.flatMap_cons, List.flatMap_cons, List.append_assoc, List.append_assoc] at h
          -- reading the first piece back tells it, on both sides
          have hp := unquotePiece?_append (p := p) (fun b hb => hps b (hb ▸ .head _))
            (ps.flatMap quotePiece ++ '"' :: xs)
          rw [h, unquotePiece?_append (fun b hb => hqs b (hb ▸ .head _))] at hp
          obtain ⟨rfl, hrest⟩ := Prod.mk.inj (Option.some.inj hp)
          obtain ⟨rfl, rfl⟩ := ih (fun b hb => hps b (.tail _ hb)) (fun b hb => hqs b (.tail _ hb))
            hrest.symm
          exact ⟨rfl, rfl⟩

theorem toList_quote (t : Text) :
    (quote t).toList = '"' :: t.pieces.flatMap quotePiece ++ ['"'] := by
  rw [quote, String.toList_ofList]

/-- **A quoted text tells the text** and what stands behind it. -/
theorem quote_append_inj (h : (quote t).toList ++ xs = (quote u).toList ++ ys) : t = u ∧ xs = ys := by
  simp only [toList_quote, List.cons_append, List.append_assoc, List.nil_append, List.cons.injEq,
    true_and] at h
  obtain ⟨hpieces, hrest⟩ := quotePieces_inj (fun b => le_of_stray_mem) (fun b => le_of_stray_mem) h
  exact ⟨pieces_injective hpieces, hrest⟩

/-- A quoted text is one line. -/
theorem newline_notMem_quote (t : Text) : '\n' ∉ (quote t).toList := by
  have hpieces : '\n' ∉ t.pieces.flatMap quotePiece := by
    intro h
    obtain ⟨p, -, hp⟩ := List.mem_flatMap.mp h
    exact (quotePiece_plain p).2 hp
  simp [toList_quote, hpieces]

end Lossless.Text
