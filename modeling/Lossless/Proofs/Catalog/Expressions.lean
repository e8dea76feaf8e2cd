import Lossless.Catalog.Document
import Mathlib.Data.List.DropRight

/-!
# Catalog — variant expressions

A variant is written as an expression: `missing`, `list`, `token`, `token:` with a kind of tokens behind
it, or the name of a composite kind (`Variant.Expresses`).  White space around an expression is left
out first, and what is left has none around it (`Text.trim_trim`); white space inside stays.

Reading gives what the trimmed expression stands for (`parse_eq_ok_iff`), and the text of a variant is
that expression (`Expresses.text_eq`).  So what is read is written down again, and the texts of variants
are read back (`parse_roundtrip`).
-/

namespace Lossless

/-! ### White space around a text -/

namespace Text

/-- Neither end of the characters is white space. -/
def Bare (cs : List Char) : Prop :=
  (∀ h : 0 < cs.length, ¬isBlank cs[0]) ∧ ∀ h : cs ≠ [], ¬isBlank (cs.getLast h)

theorem trimChars_eq (cs : List Char) :
    trimChars cs = (cs.dropWhile isBlank).rdropWhile isBlank := rfl

theorem Bare.trimChars_eq {cs : List Char} (h : Bare cs) : trimChars cs = cs := by
  rw [Text.trimChars_eq, List.dropWhile_eq_self_iff.mpr h.1, List.rdropWhile_eq_self_iff.mpr h.2]

theorem bare_trimChars (cs : List Char) : Bare (trimChars cs) := by
  rw [Text.trimChars_eq]
  refine ⟨fun h => ?_, List.rdropWhile_last_not isBlank _⟩
  -- what is left out at the end does not change how the characters start
  have hsub := List.rdropWhile_prefix isBlank (cs.dropWhile isBlank)
  rw [hsub.getElem h]
  exact List.dropWhile_get_zero_not isBlank cs (Nat.lt_of_lt_of_le h hsub.length_le)

/-- **Trimming once is enough.** -/
theorem trim_trim (s : String) : trim (trim s) = trim s := by
  rw [trim, trim, String.toList_ofList, (bare_trimChars s.toList).trimChars_eq]

end Text

namespace Variant

/-- What an expression without white space around it stands for. -/
inductive Expresses : String → Variant → Prop where
  | missing : Expresses "missing" ⟨.missing, "missing"⟩
  | list : Expresses "list" ⟨.list, "list"⟩
  | anyToken : Expresses "token" ⟨.token, ""⟩
  | token {kind : String} (hkind : kind ≠ "") : Expresses ("token:" ++ kind) ⟨.token, kind⟩
  | composite {name : String} (hne : name ≠ "") (hfree : name ∉ reservedKinds)
      (hcolon : ':' ∉ name.toList) (hblank : ' ' ∉ name.toList) :
      Expresses name ⟨.composite, name⟩

/-- An expression that stands for nothing, though there is something in it: `token:` without a kind,
or a colon or a blank in what does not start with `token:`. -/
def Invalid (e : String) : Prop :=
  e = "token:" ∨ (¬∃ kind, e = "token:" ++ kind) ∧ (':' ∈ e.toList ∨ ' ' ∈ e.toList)

/-! ### Reading -/

theorem toList_token (kind : String) : ("token:" ++ kind).toList = tokenStem ++ kind.toList :=
  String.toList_append

theorem colon_mem_token (kind : String) : ':' ∈ ("token:" ++ kind).toList := by
  rw [toList_token]
  exact List.mem_append_left _ (by decide)

theorem isPrefixOf_tokenStem_iff {e : String} :
    tokenStem.isPrefixOf e.toList = true ↔ ∃ kind, e = "token:" ++ kind := by
  rw [List.isPrefixOf_iff_prefix]
  constructor
  · rintro ⟨rest, hrest⟩
    refine ⟨String.ofList rest, String.toList_inj.mp ?_⟩
    rw [toList_token, String.toList_ofList, hrest]
  · rintro ⟨kind, rfl⟩
    exact ⟨kind.toList, (toList_token kind).symm⟩

/-- What starts with `token:` is a token variant when something is behind it. -/
theorem ofTrimmed_token (kind : String) :
    ofTrimmed ("token:" ++ kind) =
      if kind = "" then .error (.invalid ("token:" ++ kind)) else .ok ⟨.token, kind⟩ := by
  have hne : ∀ e : String, ':' ∉ e.toList → "token:" ++ kind ≠ e := by
    rintro _ hcolon rfl
    exact hcolon (colon_mem_token kind)
  have hdrop : ("token:" ++ kind).toList.drop tokenStem.length = kind.toList := by
    rw [toList_token, List.drop_left]
  rw [ofTrimmed, if_neg (hne "" (by decide)), if_neg (hne "missing" (by decide)),
    if_neg (hne "list" (by decide)), if_neg (hne "token" (by decide)),
    if_pos (isPrefixOf_tokenStem_iff.mpr ⟨kind, rfl⟩), hdrop, String.ofList_toList]

/-- Any other expression that is no reserved name is that of a composite when it has neither a colon
nor a blank. -/
theorem ofTrimmed_name {e : String} (hne : e ≠ "") (hfree : e ∉ reservedKinds)
    (htoken : ¬∃ kind, e = "token:" ++ kind) :
    ofTrimmed e =
      if ':' ∈ e.toList ∨ ' ' ∈ e.toList then .error (.invalid e) else .ok ⟨.composite, e⟩ := by
  simp only [reservedKinds, List.mem_cons, List.not_mem_nil, or_false, not_or] at hfree
  rw [ofTrimmed, if_neg hne, if_neg hfree.2.2, if_neg hfree.2.1, if_neg hfree.1,
    if_neg (isPrefixOf_tokenStem_iff.not.mpr htoken)]
  refine if_congr ?_ rfl rfl
  simp only [List.any_eq_true, Bool.or_eq_true, decide_eq_true_eq]
  constructor
  · rintro ⟨c, hc, rfl | rfl⟩
    · exact .inl hc
    · exact .inr hc
  · rintro (h | h)
    · exact ⟨_, h, .inl rfl⟩
    · exact ⟨_, h, .inr rfl⟩

section

variable {e : String} {v : Variant}

theorem Expresses.ofTrimmed_eq (h : Expresses e v) : ofTrimmed e = .ok v := by
  cases h with
  | missing | list | anyToken => rfl
  | token hkind => rw [ofTrimmed_token, if_neg hkind]
  | composite hne hfree hcolon hblank =>
      have htoken : ¬∃ kind, e = "token:" ++ kind := by
        rintro ⟨kind, rfl⟩
        exact hcolon (colon_mem_token kind)
      rw [ofTrimmed_name hne hfree htoken, if_neg (not_or.mpr ⟨hcolon, hblank⟩)]

theorem Invalid.ofTrimmed_eq (h : Invalid e) : ofTrimmed e = .error (.invalid e) := by
  rcases h with rfl | ⟨htoken, hmark⟩
  · rfl
  · have hne : e ≠ "" := by
      rintro rfl
      simp at hmark
    have hfree : e ∉ reservedKinds := by
      intro hmem
      have hplain : ∀ name ∈ reservedKinds, ':' ∉ name.toList ∧ ' ' ∉ name.toList := by decide
      exact hmark.elim (hplain e hmem).1 (hplain e hmem).2
    rw [ofTrimmed_name hne hfree htoken, if_pos hmark]

/-- **Every expression** is empty, stands for nothing, or stands for a variant. -/
theorem expression_cases (e : String) : e = "" ∨ Invalid e ∨ ∃ v, Expresses e v := by
  by_cases hne : e = ""
  · exact .inl hne
  refine .inr ?_
  by_cases htoken : ∃ kind, e = "token:" ++ kind
  · obtain ⟨kind, rfl⟩ := htoken
    by_cases hkind : kind = ""
    · rw [hkind]
      exact .inl (.inl rfl)
    · exact .inr ⟨_, .token hkind⟩
  -- apart from `token:` in front neither a colon nor a blank is allowed
  by_cases hmark : ':' ∈ e.toList ∨ ' ' ∈ e.toList
  · exact .inl (.inr ⟨htoken, hmark⟩)
  obtain ⟨hcolon, hblank⟩ := not_or.mp hmark
  by_cases hfree : e ∈ reservedKinds
  · simp only [reservedKinds, List.mem_cons, List.not_mem_nil, or_false] at hfree
    rcases hfree with rfl | rfl | rfl
    · exact .inr ⟨_, .anyToken⟩
    · exact .inr ⟨_, .list⟩
    · exact .inr ⟨_, .missing⟩
  · exact .inr ⟨_, .composite hne hfree hcolon hblank⟩

theorem ofTrimmed_eq_ok_iff : ofTrimmed e = .ok v ↔ Expresses e v := by
  refine ⟨fun h => ?_, Expresses.ofTrimmed_eq⟩
  rcases expression_cases e with rfl | hinvalid | ⟨w, hw⟩
  · cases h
  · cases hinvalid.ofTrimmed_eq.symm.trans h
  · cases hw.ofTrimmed_eq.symm.trans h
    exact hw

theorem ofTrimmed_eq_error_iff {err : VariantError} :
    ofTrimmed e = .error err ↔ e = "" ∧ err = .empty ∨ Invalid e ∧ err = .invalid e := by
  constructor
  · intro h
    rcases expression_cases e with rfl | hinvalid | ⟨w, hw⟩
    · cases h
      exact .inl ⟨rfl, rfl⟩
    · cases hinvalid.ofTrimmed_eq.symm.trans h
      exact .inr ⟨hinvalid, rfl⟩
    · cases hw.ofTrimmed_eq.symm.trans h
  · rintro (⟨rfl, rfl⟩ | ⟨hinvalid, rfl⟩)
    · rfl
    · exact hinvalid.ofTrimmed_eq

/-- **Reading** gives what the trimmed expression stands for. -/
theorem parse_eq_ok_iff : parse e = .ok v ↔ Expresses (Text.trim e) v := ofTrimmed_eq_ok_iff

/-! ### Writing -/

/-- The text of a variant is the expression that stands for it. -/
theorem Expresses.text_eq (h : Expresses e v) : v.text = e := by
  cases h with
  | missing | list | anyToken | composite => rfl
  | token hkind => exact if_neg hkind

theorem matches?_iff {cls : NodeClass} {kind : String} :
    v.matches? cls kind = true ↔ v.nodeClass = cls ∧ (v = ⟨.token, ""⟩ ∨ v.kind = kind) := by
  obtain ⟨c, k⟩ := v
  simp [matches?]

end

/-- For every expression: a variant that is read from it is written as the trimmed expression, and is
read from its own text; it is read from exactly those expressions that agree but for the white space
around them; and it matches the nodes of its class that are of its kind, or all of them when it is the
variant of any token. Nothing is read exactly from what is empty when trimmed, from `token:`, and from
what does not start with `token:` and has a colon or a blank in it; the error tells which. -/
theorem parse_roundtrip (e : String) :
    (∀ v, parse e = .ok v →
      v.text = Text.trim e ∧ parse v.text = .ok v ∧
      (∀ e', parse e' = .ok v ↔ Text.trim e' = Text.trim e) ∧
      ∀ cls kind, v.matches? cls kind = true ↔
        v.nodeClass = cls ∧ (v = ⟨.token, ""⟩ ∨ v.kind = kind)) ∧
    (∀ err, parse e = .error err ↔
      Text.trim e = "" ∧ err = .empty ∨ Invalid (Text.trim e) ∧ err = .invalid (Text.trim e)) := by
  refine ⟨fun v hv => ?_, fun err => ofTrimmed_eq_error_iff⟩
  have htext : v.text = Text.trim e := (parse_eq_ok_iff.mp hv).text_eq
  refine ⟨htext, ?_, fun e' => ⟨fun hv' => ?_, fun htrim => ?_⟩, fun _ _ => matches?_iff⟩
  · rw [parse_eq_ok_iff, htext, Text.trim_trim]
    exact parse_eq_ok_iff.mp hv
  · rw [← (parse_eq_ok_iff.mp hv').text_eq, htext]
  · rw [parse, htrim]
    exact hv

/-- A token kind is read from between white space, and is read again from its own text. Without a kind
behind the colon nothing is read. -/
theorem parse_roundtrip_token :
    parse " token:name\n" = .ok ⟨.token, "name"⟩ ∧
      Variant.text ⟨.token, "name"⟩ = Text.trim " token:name\n" ∧
      parse (Variant.text ⟨.token, "name"⟩) = .ok ⟨.token, "name"⟩ ∧
      (∀ e, parse e = .ok ⟨.token, "name"⟩ ↔ Text.trim e = Text.trim " token:name\n") ∧
      parse "token: " = .error (.invalid "token:") := by
  have hread : parse " token:name\n" = .ok ⟨.token, "name"⟩ := by decide
  obtain ⟨htext, hagain, hsame, -⟩ := (parse_roundtrip " token:name\n").1 _ hread
  have htrim : Text.trim "token: " = "token:" := by decide
  have herror := ((parse_roundtrip "token: ").2 (.invalid "token:")).mpr
    (.inr ⟨.inl htrim, by rw [htrim]⟩)
  exact ⟨hread, htext, hagain, hsame, herror⟩

/-- White space inside an expression stays. -/
example : parse "\ttoken: a b\n" = .ok ⟨.token, " a b"⟩ := by decide

end Variant

end Lossless
