import Lossless.Command.Input
import Lossless.Proofs.Text.Case

/-!
# Command — the source of a document

The extension of a path is recognised up to case and cut by the number of bytes that it has in lower
case.  A path ends with its extension (`extension_spec`), and one that is `.lz4` up to case has four
bytes (`length_of_compressed`).  One that is `.json` up to case has five bytes, or six when its `s` is
the long one of two bytes (`length_of_documents`): then its dot is left behind.

**Sources** (`sourceName_eq_iff`): what is left of a path is the path without its whole extension for
compression and without the whole extension for documents of the rest, and a dot for a long spelling.
-/

namespace Lossless

namespace Path

/-- A path ends with its extension. An extension is empty, or starts with a dot. -/
theorem extension_spec (path : Text) :
    extension path <:+ path ∧ (extension path = [] ∨ ∃ tail, extension path = dot :: tail) := by
  have hlast : afterLastSlash path <:+ path := by
    have h := List.reverse_suffix.mpr (List.takeWhile_prefix (· != slash) (l := path.reverse))
    rwa [List.reverse_reverse] at h
  unfold extension
  dsimp only
  split
  · next hdot =>
      refine ⟨List.IsSuffix.trans ?_ hlast, .inr ⟨_, rfl⟩⟩
      -- the last dot is the first one from behind
      have hmem : dot ∈ (afterLastSlash path).reverse :=
        List.mem_reverse.mpr (List.contains_iff_mem.mp hdot)
      obtain ⟨behind, front, hsplit, hnone⟩ := List.eq_append_cons_of_mem hmem
      have hbehind : ∀ b ∈ behind, (b != dot) = true :=
        fun b hb => bne_iff_ne.mpr fun h => hnone (h ▸ hb)
      have hname : afterLastSlash path = front.reverse ++ dot :: behind.reverse := by
        rw [← List.reverse_reverse (afterLastSlash path), hsplit]
        simp
      rw [hsplit, List.takeWhile_append_of_pos hbehind, List.takeWhile_cons_of_neg (by simp),
        List.append_nil, hname]
      exact List.suffix_append _ _
  · exact ⟨List.nil_suffix, .inl rfl⟩

end Path

namespace Input

variable {path : Text} {ext : String}

/-! ### Whole extensions -/

/-- A path without its whole extension, when it has this extension in any case. -/
def withoutExtension (path : Text) (ext : String) : Text :=
  if hasExtension path ext then path.take (path.length - (Path.extension path).length) else path

theorem withoutExtension_append (h : hasExtension path ext = true) :
    withoutExtension path ext ++ Path.extension path = path := by
  rw [withoutExtension, if_pos h]
  exact List.suffix_iff_eq_append.mp (Path.extension_spec path).1

/-- What is cut of a path leaves as many bytes of an extension behind as it is longer in this path. -/
theorem dropExtension_eq (h : hasExtension path ext = true)
    (hlen : (Text.ofString ext).length ≤ (Path.extension path).length) :
    dropExtension path ext = withoutExtension path ext ++
      (Path.extension path).take ((Path.extension path).length - (Text.ofString ext).length) := by
  have hpath := withoutExtension_append h
  rw [dropExtension, if_pos h]
  generalize withoutExtension path ext = front at hpath ⊢
  generalize Path.extension path = e at hpath hlen ⊢
  subst hpath
  rw [List.length_append, Nat.add_sub_assoc hlen, List.take_length_add_append]

/-! ### Spellings -/

theorem extension_chars (h : hasExtension path ext = true) :
    (Path.extension path).chars.map Text.foldChar = ext.toList.map Text.foldChar := by
  have h := beq_iff_eq.mp h
  rwa [Text.toStr, String.toList_ofList] at h

/-- An extension for compression has four bytes. -/
theorem length_of_compressed (h : hasExtension path compressed = true) :
    (Path.extension path).length = 4 := by
  have hletters : compressed.toList.map Text.foldChar = ".lz4".toList := by decide +kernel
  have hfold := (extension_chars h).trans hletters
  rw [← Text.ofChars_chars_of_fold hfold (by decide)]
  exact (Text.length_ofChars_of_fold hfold (by decide)).1

/-- Whether a path has the extension of documents with the long `s`. -/
def SpelledLong (path : Text) : Prop :=
  hasExtension path documents = true ∧ 'ſ' ∈ (Path.extension path).chars

instance (path : Text) : Decidable (SpelledLong path) := instDecidableAnd

/-- An extension for documents has five bytes, or six. -/
theorem length_of_documents (h : hasExtension path documents = true) :
    (Path.extension path).length = if 'ſ' ∈ (Path.extension path).chars then 6 else 5 := by
  have hletters : documents.toList.map Text.foldChar = ".j".toList ++ 's' :: "on".toList := by
    decide +kernel
  have hfold := (extension_chars h).trans hletters
  have hbytes := Text.ofChars_chars_of_fold hfold (by decide)
  -- the s is the one letter of the extension that a longer character folds to
  obtain ⟨front, back, hchars, hfront, hback⟩ := List.map_eq_append_iff.mp hfold
  obtain ⟨c, back, rfl, hc, hback⟩ := List.map_eq_cons_iff.mp hback
  obtain ⟨hfront, hfront'⟩ := Text.length_ofChars_of_fold hfront (by decide)
  obtain ⟨hback, hback'⟩ := Text.length_ofChars_of_fold hback (by decide)
  have hlen : (Path.extension path).length = 2 + ((String.utf8EncodeChar c).length + 2) := by
    rw [← hbytes, hchars, Text.ofChars_append, List.length_append, hfront, Text.ofChars,
      List.flatMap_cons, List.length_append, ← Text.ofChars, hback]
    rfl
  rw [hlen, hchars]
  rcases Text.lt_or_eq_of_foldChar hc with hc | rfl
  · have hall : ∀ d ∈ front ++ c :: back, d.toNat < 0x80 := by
      simpa [or_imp, forall_and] using ⟨hfront', hc, hback'⟩
    rw [if_neg fun hlong => absurd (hall _ hlong) (by decide), Text.length_encode hc]
  · rw [if_pos (by simp)]
    rfl

/-! ### What is left -/

theorem dropExtension_compressed (path : Text) :
    dropExtension path compressed = withoutExtension path compressed := by
  by_cases h : hasExtension path compressed = true
  · have hlen : (Text.ofString compressed).length = (Path.extension path).length :=
      (length_of_compressed h).symm
    rw [dropExtension_eq h (Nat.le_of_eq hlen), hlen, Nat.sub_self, List.take_zero, List.append_nil]
  · rw [dropExtension, withoutExtension, if_neg h, if_neg h]

theorem dropExtension_documents (path : Text) :
    dropExtension path documents =
      withoutExtension path documents ++ if SpelledLong path then [Path.dot] else [] := by
  by_cases h : hasExtension path documents = true
  · have hlen := length_of_documents h
    have hbytes : (Text.ofString documents).length = 5 := rfl
    split
    · next hlong =>
        rw [if_pos hlong.2] at hlen
        rw [dropExtension_eq h (by omega), hlen, hbytes]
        -- one byte of the longer extension is left over: its first one, the dot
        obtain hnil | ⟨tail, hdot⟩ := (Path.extension_spec path).2
        · rw [hnil] at hlen
          cases hlen
        · rw [hdot]
          rfl
    · next hshort =>
        rw [if_neg fun hlong => hshort ⟨h, hlong⟩] at hlen
        rw [dropExtension_eq h (by omega), hlen, hbytes]
        rfl
  · rw [dropExtension, withoutExtension, if_neg h, if_neg h, if_neg fun hlong => h hlong.1,
      List.append_nil]

/-- For every path but that of standard input. The extensions of a path are where it ends. The source is
the path without its whole extension when this is `.lz4` in any case, and without the whole extension of
the rest when that is `.json` in any case, and nothing else is different, unless the latter is spelled
with the long `s`: then, and only then, its dot is left behind. -/
theorem sourceName_eq_iff (path : Text) (hpath : path ≠ stdinPath) :
    (∀ (p : Text) (ext : String), hasExtension p ext = true →
      withoutExtension p ext ++ Path.extension p = p) ∧
    sourceName path =
      withoutExtension (withoutExtension path compressed) documents ++
        (if SpelledLong (withoutExtension path compressed) then [Path.dot] else []) ∧
    (sourceName path = withoutExtension (withoutExtension path compressed) documents ↔
      ¬SpelledLong (withoutExtension path compressed)) := by
  have hsource : sourceName path =
      withoutExtension (withoutExtension path compressed) documents ++
        (if SpelledLong (withoutExtension path compressed) then [Path.dot] else []) := by
    rw [sourceName, if_neg hpath, dropExtension_compressed, dropExtension_documents]
  refine ⟨fun _ _ => withoutExtension_append, hsource, ?_⟩
  rw [hsource, List.append_right_eq_self]
  split <;> simp [*]

theorem sourceName_eq_iff_longSpelling :
    Text.ofString "a.jſon.lz4" ≠ stdinPath ∧
      SpelledLong (withoutExtension (Text.ofString "a.jſon.lz4") compressed) ∧
      sourceName (Text.ofString "a.jſon.lz4") ≠
        withoutExtension (withoutExtension (Text.ofString "a.jſon.lz4") compressed) documents := by
  have hpath : Text.ofString "a.jſon.lz4" ≠ stdinPath := by decide
  have hlong : SpelledLong (withoutExtension (Text.ofString "a.jſon.lz4") compressed) := by
    decide +kernel
  exact ⟨hpath, hlong, fun h => (sourceName_eq_iff _ hpath).2.2.mp h hlong⟩

/-- An extension that is recognised is not always left out in full. -/
theorem extension_left_behind :
    hasExtension (Text.ofString "a.jſon") documents = true ∧
      withoutExtension (withoutExtension (Text.ofString "a.jſon") compressed) documents =
        Text.ofString "a" ∧
      sourceName (Text.ofString "a.jſon") = Text.ofString "a." := by
  decide +kernel

end Input

end Lossless
