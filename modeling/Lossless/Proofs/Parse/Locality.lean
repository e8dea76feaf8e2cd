import Lossless.Proofs.Parse.Failure

/-!
# Parse — building is local

What is built depends on the texts that are read, and not on what stands around them.

* A tree is built again wherever its text stands (`exists_equal_of_at`), because what is read is what
  is allowed and stands there.
* A first deviation is one behind any text, too (`Deviates.behind`): a text stands behind `p` where it
  stands in the source, and as many bytes are left.

**Locality** (`fromJson_local`).  Behind a text `p`, an equal tree is built, or building fails with the
same error, as many bytes further on as `p` has; and a tree that is built is built from every source
that starts with its text.
-/

namespace Lossless

namespace Text

variable {p t u : Text} {o : Nat}

/-- Texts stand behind `p` where they stand without it. -/
theorem at_behind : (p ++ t).At (p.length + o) u ↔ t.At o u := by
  rw [at_iff, at_iff, List.length_append, Nat.add_assoc, Nat.add_le_add_iff_left,
    List.drop_length_add_append]

/-- Texts stand in front of `p` where they stand without it. -/
theorem at_front (h : t.At o u) : (t ++ p).At o u := by
  rw [at_iff] at h ⊢
  obtain ⟨hlength, hu⟩ := h
  have hfits : u.length ≤ (t.drop o).length := by
    rw [List.length_drop]
    omega
  rw [List.length_append, List.drop_append_of_le_length (by omega),
    List.take_append_of_le_length hfits]
  exact ⟨by omega, hu⟩

/-- What a text starts with stands at its start. -/
theorem at_zero : t.At 0 u ↔ u <+: t := by
  rw [at_iff, Nat.zero_add, List.drop_zero, List.prefix_iff_eq_take, eq_comm]
  refine ⟨fun h => h.2, fun h => ⟨?_, h⟩⟩
  exact (List.prefix_iff_eq_take.mpr h).length_le

end Text

namespace Parse

open Deviation (here)

variable {c : Catalog} {source : Text} {o : Nat} {d : Deviation}

/-! ### Trees -/

theorem Reads.allows {specs : List TextSpec} {texts : List Text} (h : Reads source o specs texts) :
    List.Forall₂ TextSpec.Allows specs texts := by
  induction h with
  | nil => exact .nil
  | cons hspec _ _ ih => exact .cons hspec ih

/-- A tree that is built is built again wherever its text stands. -/
theorem exists_equal_of_at {v : Json} {file : String} {start start' : Int} {source' : Text}
    {s t : Supply} {n : Node} (h : fromJson c v file start source s = .ok (n, t))
    (hstart' : 0 ≤ start') (hat : source'.At start'.toNat n.fullText) (s' : Supply) :
    ∃ m t', fromJson c v file start' source' s' = .ok (m, t') ∧ n.equal m = true := by
  obtain ⟨-, d, hd, hreal⟩ := fromJson_realizes h
  let ctx : Context := ⟨c, file, source'⟩
  have hd : Describes ctx.catalog v d := hd
  have hreads : Reads source' start'.toNat d.leaves n.description.leaves :=
    .of_at hreal.reads.allows (by rwa [Node.flatten_leaves])
  obtain ⟨m, t', hm, hreal', hleaves⟩ := nodeOf_of_describes hd hreads [] s'
  have hstart : 0 ≤ start' ∧ start' ≤ source'.length := by
    have := (Text.at_iff.mp hat).1
    omega
  have heq : n.description = m.description :=
    Description.eq_of_outline (hreal.outline.trans hreal'.outline.symm) hleaves.symm
  exact ⟨m, t', fromJson_eq_ok_iff.mpr ⟨hstart, hm⟩,
    (Node.alike_of_description heq).equal hreal.sound hreal'.sound⟩

/-! ### Deviations -/

section Behind

variable (p : Text)

theorem Reads.behind {specs : List TextSpec} {texts : List Text} (h : Reads source o specs texts) :
    Reads (p ++ source) (p.length + o) specs texts := by
  induction h with
  | nil => exact .nil
  | cons hspec hat _ ih => exact .cons hspec (Text.at_behind.mpr hat) (by rwa [Nat.add_assoc])

theorem TextDeviates.behind {members : List (String × Json)} {reason : MalformedReason}
    (h : TextDeviates source o members reason) :
    TextDeviates (p ++ source) (p.length + o) members reason := by
  cases h with
  | notString hv h => exact .notString hv h
  | differs ht h => exact .differs ht fun hat => h (Text.at_behind.mp hat)
  | noInteger ht h => exact .noInteger ht h
  | outside ht hw hx h =>
      refine .outside ht hw hx ?_
      rw [List.length_append]
      omega

theorem PieceDeviates.behind {v : Json} {reason : MalformedReason}
    (h : PieceDeviates c source o v reason) :
    PieceDeviates c (p ++ source) (p.length + o) v reason := by
  cases h with
  | notObject h => exact .notObject h
  | unknownKind h => exact .unknownKind h
  | text hkind hk h => exact .text hkind hk (h.behind p)

theorem PiecesDeviate.behind {kind : String} {i : Nat} {vs : List Json}
    (h : PiecesDeviate c source kind o i vs d) :
    PiecesDeviate c (p ++ source) kind (p.length + o) i vs d := by
  induction h with
  | head h => exact .head (h.behind p)
  | tail hv hspec hat _ ih =>
      exact .tail hv hspec (Text.at_behind.mpr hat) (by rwa [Nat.add_assoc])

theorem TriviaDeviates.behind {kind key : String} {body : List (String × Json)}
    (h : TriviaDeviates c source kind o body key d) :
    TriviaDeviates c (p ++ source) kind (p.length + o) body key d := by
  cases h with
  | notList hv hnull h => exact .notList hv hnull h
  | pieces hv h => exact .pieces hv (h.behind p)

theorem BodyDeviates.behind {kind : String} {body : List (String × Json)}
    (h : BodyDeviates c source kind o body d) :
    BodyDeviates c (p ++ source) kind (p.length + o) body d := by
  cases h with
  | leading h => exact .leading (h.behind p)
  | text hleading hreads h =>
      exact .text hleading (hreads.behind p) (by rw [Nat.add_assoc]; exact h.behind p)
  | trailing hleading hspec hreads h =>
      exact .trailing hleading hspec (hreads.behind p) (by rw [Nat.add_assoc]; exact h.behind p)

theorem TokenDeviates.behind {members : List (String × Json)}
    (h : TokenDeviates c source o members d) :
    TokenDeviates c (p ++ source) (p.length + o) members d := by
  cases h with
  | noToken h => exact .noToken h
  | unknownKind hbody h => exact .unknownKind hbody h
  | body hbody hkind hk h => exact .body hbody hkind hk (h.behind p)

mutual
/-- The first deviation of a value is also the first one behind a text. -/
theorem Deviates.behind : ∀ {o : Nat} {v : Json} {d : Deviation}, Deviates c source o v d →
    Deviates c (p ++ source) (p.length + o) v d
  | _, _, _, .misshapen h => .misshapen h
  | _, _, _, .token hkind h => .token hkind (h.behind p)
  | _, _, _, .element hkind hitems h => .element hkind hitems h.behind
  | _, _, _, .slot hkind hname hk h => .slot hkind hname hk h.behind

@[inherit_doc Deviates.behind]
theorem ElementsDeviate.behind : ∀ {o i : Nat} {vs : List Json} {d : Deviation},
    ElementsDeviate c source o i vs d → ElementsDeviate c (p ++ source) (p.length + o) i vs d
  | _, _, _, _, .head h => .head h.behind
  | _, _, _, _, .tail hv hreads h =>
      .tail hv (hreads.behind p) (by rw [Nat.add_assoc]; exact h.behind)

@[inherit_doc Deviates.behind]
theorem SlotsDeviate.behind : ∀ {kind : String} {members : List (String × Json)} {o : Nat}
    {slots : List Slot} {d : Deviation}, SlotsDeviate c source kind members o slots d →
    SlotsDeviate c (p ++ source) kind members (p.length + o) slots d
  | _, _, _, _, _, .absent hv => .absent hv
  | _, _, _, _, _, .head hv h => .head hv h.behind
  | _, _, _, _, _, .tail hv hn hreads h =>
      .tail hv hn (hreads.behind p) (by rw [Nat.add_assoc]; exact h.behind)
end

end Behind

/-! ### Locality -/

/-- Behind a text, an equal tree is built where one is built without it, and otherwise building fails
with the same error, further on by the length of the text. A tree that is built is built from every
source that starts with the text it covers. -/
theorem fromJson_local (c : Catalog) (v : Json) (file : String) (p source : Text)
    (s s' : Supply) :
    ((∃ n t n' t', fromJson c v file 0 source s = .ok (n, t) ∧
        fromJson c v file p.length (p ++ source) s' = .ok (n', t') ∧ n.equal n' = true) ∨
      ∃ e e', fromJson c v file 0 source s = .error e ∧
        fromJson c v file p.length (p ++ source) s' = .error e' ∧
        e'.path = e.path ∧ e'.kind = e.kind ∧ e'.reason = e.reason ∧
        e'.offset = e.offset + p.length) ∧
    ∀ n t, fromJson c v file 0 source s = .ok (n, t) → ∀ source', source.take n.width <+: source' →
      ∃ n' t', fromJson c v file 0 source' s' = .ok (n', t') ∧ n.equal n' = true := by
  refine ⟨?_, fun n t hn source' hstarts => ?_⟩
  · cases h : fromJson c v file 0 source s with
    | ok r =>
        obtain ⟨n, t⟩ := r
        have hat : source.At 0 n.fullText := (fromJson_stands h _ (Node.mem_placed _ n)).2
        have hbehind : (p ++ source).At (p.length : Int).toNat n.fullText := Text.at_behind.mpr hat
        obtain ⟨n', t', hn', heq⟩ := exists_equal_of_at h (by omega) hbehind s'
        exact .inl ⟨n, t, n', t', rfl, hn', heq⟩
    | error e =>
        obtain ⟨d, hd, rfl⟩ := (fromJson_eq_error_iff (by omega)).mp h
        have hin : 0 ≤ (p.length : Int) ∧ (p.length : Int) ≤ (p ++ source).length := by
          rw [List.length_append]
          omega
        have h' : fromJson c v file p.length (p ++ source) s' =
            .error (d.error file [] (p.length : Int).toNat) :=
          (fromJson_eq_error_iff hin).mpr ⟨d, hd.behind p, rfl⟩
        refine .inr ⟨_, _, rfl, h', rfl, rfl, rfl, ?_⟩
        simp only [Deviation.error]
        omega
  · -- the text of the tree is what the tree covers
    have hat : source.At 0 n.fullText := (fromJson_stands hn _ (Node.mem_placed _ n)).2
    have htext : source.take n.width = n.fullText := by
      rw [(fromJson_sound hn).width_eq]
      exact (List.prefix_iff_eq_take.mp (Text.at_zero.mp hat)).symm
    exact exists_equal_of_at hn (Int.le_refl 0) (Text.at_zero.mpr (htext ▸ hstarts)) s'

/-- A pair of words, whatever stands behind it. -/
theorem fromJson_local_pairOfWords :
    ∃ n t, fromJson pairCatalog (pairOfWords "abc" "d") "a.pair" 0 " abc d." Supply.start =
        .ok (n, t) ∧
      (Text.ofString " abc d.").take n.width <+: Text.ofString " abc d, e" ∧
      ∃ n' t', fromJson pairCatalog (pairOfWords "abc" "d") "a.pair" 0 " abc d, e" Supply.start =
        .ok (n', t') ∧ n.equal n' = true := by
  let ctx : Context := ⟨pairCatalog, "a.pair", " abc d."⟩
  have hd : Describes ctx.catalog (pairOfWords "abc" "d") _ := describes_pairOfWords "abc" "d"
  have hreads : Reads ctx.source 0 [.text " ", .text "abc", .text " ", .text "d"]
      [" ", "abc", " ", "d"] :=
    .of_at (.cons rfl (.cons rfl (.cons rfl (.cons rfl .nil)))) (by decide)
  obtain ⟨n, t, hn, hw⟩ := nodeOf_of_reads hd hreads [] Supply.start
  have hbuilt : fromJson pairCatalog (pairOfWords "abc" "d") "a.pair" 0 " abc d." Supply.start =
      .ok (n, t) := fromJson_eq_ok_iff.mpr ⟨by decide, hn⟩
  have hstarts : (Text.ofString " abc d.").take n.width <+: Text.ofString " abc d, e" := by
    rw [hw]
    decide
  exact ⟨n, t, hbuilt, hstarts, (fromJson_local pairCatalog (pairOfWords "abc" "d") "a.pair" "x "
    " abc d." Supply.start Supply.start).2 n t hbuilt _ hstarts⟩

end Parse

end Lossless
