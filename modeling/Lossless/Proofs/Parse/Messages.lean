import Lossless.Proofs.Json.Numerals
import Lossless.Proofs.Parse.Failure
import Lossless.Proofs.Schema.Kinds

/-!
# Parse — what messages show

The message about malformed input names the file, and shows a path, a kind and a reason.  What it shows
of a value is quoted or described, except for the names of kinds and slots: these are shown as they are.
When the path and the kind have no control character, **the control characters of the message** are those
of the name of the file and of the reason (`Malformed.controls_message`).  An error is `Malformed.Shown`
when the reason has none either.

When the names of a catalog are clean (`Catalog.Presentable`), as they are when its document has clean
names (`CatalogDocument.Presentable.catalog`), and only kinds of the catalog occur in a value, the first
deviation of the value shows none either (`Deviates.shown`).  So the errors of building a tree that was
found valid are shown like this (`fromDecoded_shown`), and so are those of decoding a document, unless
they quote the decoder (`Document.decode_shown`).
-/

namespace Lossless

open Text (Clean clean_append clean_quoteString clean_natToString clean_intToString)

/-- The names of a catalog are clean, and the schema of the catalog finds its kinds by them. A name that
counts as a token kind is one of these names. -/
structure Catalog.Presentable (c : Catalog) : Prop where
  wellFormed : c.WellFormed
  plain : ∀ k ∈ c.kinds, isPlainName k.name = true
  language : Clean c.language
  kinds : ∀ k ∈ c.kinds, Clean k.name ∧ ∀ s ∈ k.slots, Clean s.key
  tokens : ∀ name, c.isToken name = true → Clean name

/-- The names of a catalog document are clean, those of its kinds are found as they stand, and its token
kinds are declared. -/
structure CatalogDocument.Presentable (d : CatalogDocument) : Prop where
  language : Clean d.language
  kinds : ∀ kd ∈ d.kinds, isPlainName kd.name = true ∧ Clean kd.name ∧ Clean kd.stem ∧
    ∀ s ∈ kd.slots, Clean s.name ∧ Clean s.key
  tokens_ne : d.tokens ≠ []
  tokens : ∀ t ∈ d.tokens, Clean t

theorem isPlainName_trim {name : String} (h : isPlainName name = true) :
    isPlainName (Text.trim name) = true :=
  List.all_eq_true.mpr fun c hc => List.all_eq_true.mp h c (Text.mem_of_mem_trim hc)

theorem SlotDocument.clean_effectiveKey {s : SlotDocument} {stem : String} (hstem : Clean stem)
    (hname : Clean s.name) (hkey : Clean s.key) : Clean (s.effectiveKey stem) := by
  unfold effectiveKey
  split
  · exact clean_append.mpr ⟨clean_append.mpr ⟨hstem, by decide⟩, hname.trim⟩
  · exact hkey

/-- The catalog of a document has the names of the document. -/
theorem CatalogDocument.Presentable.catalog {d : CatalogDocument} {c : Catalog} (hd : d.Presentable)
    (h : d.compile = .ok c) : c.Presentable := by
  obtain ⟨-, -, hcatalog, hall, -, -⟩ := compile_eq_ok_iff.mp h
  have hkind : ∀ k ∈ c.kinds, isPlainName k.name = true ∧ Clean k.name ∧
      ∀ s ∈ k.slots, Clean s.key := by
    intro k hk
    obtain ⟨kd, hkd, hcompile⟩ := exists_of_forall₂_right hall k hk
    obtain ⟨-, -, -, hdeclares, -, -⟩ := KindDocument.compile_eq_ok_iff.mp hcompile
    obtain ⟨hplain, hname, hstem, hslots⟩ := hd.kinds kd hkd
    -- an absent stem falls back to the name, which is clean as well
    have heffective : Clean kd.effectiveStem := by
      unfold KindDocument.effectiveStem
      split
      · exact hname.trim
      · exact hstem
    rw [hdeclares.name]
    refine ⟨isPlainName_trim hplain, hname.trim, fun s hs => ?_⟩
    obtain ⟨sd, hsd, hslot⟩ := exists_of_forall₂_right hdeclares.slots s hs
    rw [hslot.key]
    exact sd.clean_effectiveKey heffective (hslots sd hsd).1 (hslots sd hsd).2
  refine ⟨compile_wellFormed h, fun k hk => (hkind k hk).1, ?_, fun k hk => (hkind k hk).2, ?_⟩
  · rw [hcatalog]
    exact hd.language
  · intro name hname
    have htokens : c.tokens = d.tokens := congrArg Catalog.tokens hcatalog
    rw [Catalog.isToken, Catalog.declares, htokens, if_neg (by simpa using hd.tokens_ne)] at hname
    exact hd.tokens name (List.contains_iff_mem.mp hname)

/-! ### Values and paths -/

theorem Json.CleanNumbers.describe {v : Json} (h : v.CleanNumbers) : Clean v.describe := by
  cases h with
  | number h => exact clean_append.mpr ⟨by decide, h⟩
  | str s => exact clean_append.mpr ⟨by decide, clean_quoteString s⟩
  | null => decide
  | bool _ => exact (by decide : Clean "boolean")
  | arr _ => exact (by decide : Clean "array")
  | obj _ => exact (by decide : Clean "object")

/-- What stands under a key, or null. -/
theorem Json.CleanNumbers.getD {members : List (String × Json)} (h : CleanNumbers (.obj members))
    (key : String) : ((member? members key).getD .null).CleanNumbers := by
  cases hv : member? members key with
  | none => exact .null
  | some v => exact h.member hv

theorem clean_index (i : Nat) : Clean (PathStep.index i).text :=
  clean_append.mpr ⟨clean_append.mpr ⟨by decide, clean_natToString i⟩, by decide⟩

theorem clean_key {key : String} (h : Clean key) : Clean (PathStep.key key).text :=
  clean_append.mpr ⟨by decide, h⟩

theorem ValuePath.clean_text {p : ValuePath} (h : ∀ step ∈ p, Clean step.text) : Clean p.text := by
  refine clean_append.mpr ⟨by decide, fun c hc => ?_⟩
  rw [String.toList_join] at hc
  obtain ⟨_, ht, hc⟩ := List.mem_flatMap.mp hc
  obtain ⟨step, hstep, rfl⟩ := List.mem_map.mp ht
  exact h step hstep c hc

/-! ### Errors -/

/-- An error that shows no control characters besides those of the name of its file. -/
structure Malformed.Shown (e : Malformed) : Prop where
  path : Clean e.path
  kind : Clean e.kind
  reason : Clean e.reason.message

namespace Parse

open Deviation (here)

variable {c : Catalog} {source : Text} {o : Nat} {d : Deviation} {members body : List (String × Json)}
  {kind : String} {reason : MalformedReason} {v : Json} {vs : List Json}

/-! ### Deviations -/

/-- A deviation that shows no control characters. -/
structure Deviation.Shown (d : Deviation) : Prop where
  path : ∀ step ∈ d.path, Clean step.text
  kind : Clean d.kind
  reason : Clean d.reason.message

namespace Deviation.Shown

theorem here {texts : List Text} (hkind : Clean kind) (hreason : Clean reason.message) :
    (here texts kind reason).Shown := ⟨nofun, hkind, hreason⟩

theorem under {steps : ValuePath} {texts : List Text} (h : d.Shown)
    (hsteps : ∀ step ∈ steps, Clean step.text) : (d.under steps texts).Shown :=
  ⟨List.forall_mem_append.mpr ⟨hsteps, h.path⟩, h.kind, h.reason⟩

theorem behind {texts : List Text} (h : d.Shown) : (d.under [] texts).Shown := h.under nofun

theorem index (h : d.Shown) (i : Nat) : (d.under [.index i] []).Shown :=
  h.under (List.forall_mem_singleton.mpr (clean_index i))

theorem key {key : String} (h : d.Shown) (hkey : Clean key) : (d.under [.key key] []).Shown :=
  h.under (List.forall_mem_singleton.mpr (clean_key hkey))

end Deviation.Shown

theorem TextDeviates.shown (h : TextDeviates source o members reason)
    (hm : Json.CleanNumbers (.obj members)) : Clean reason.message := by
  cases h with
  | notString _ _ => decide
  | @differs text _ _ =>
      have hstart : Clean ("text " ++ Text.quoteString text) :=
        clean_append.mpr ⟨by decide, clean_quoteString text⟩
      exact clean_append.mpr ⟨hstart, by decide⟩
  | @noInteger got _ hw =>
      -- a width that is no integer is shown as a number or by its class
      have hgot : Clean got := by
        have hwidth := hm.getD "width"
        generalize (Json.member? members "width").getD .null = w at hw hwidth
        unfold widthOf at hw
        split at hw
        · split at hw
          · cases hw
          · cases hw
            cases hwidth with
            | number h => exact h
        · cases hw
          exact hwidth.describe
      exact clean_append.mpr ⟨by decide, hgot⟩
  | @outside _ width _ _ _ _ =>
      have hstart : Clean ("width " ++ toString width) :=
        clean_append.mpr ⟨by decide, clean_intToString width⟩
      exact clean_append.mpr ⟨hstart, by decide⟩

theorem PieceDeviates.shown (h : PieceDeviates c source o v reason) (hv : v.CleanNumbers) :
    Clean reason.message := by
  cases h with
  | notObject _ => exact clean_append.mpr ⟨by decide, hv.describe⟩
  | unknownKind _ => exact clean_append.mpr ⟨by decide, (hv.getD "kind").describe⟩
  | text _ _ h => exact h.shown hv

theorem PiecesDeviate.shown {i : Nat} (h : PiecesDeviate c source kind o i vs d) (hkind : Clean kind)
    (hvs : ∀ v ∈ vs, v.CleanNumbers) : d.Shown := by
  induction h with
  | head h => exact (Deviation.Shown.here hkind (h.shown (hvs _ (.head _)))).index _
  | tail _ _ _ _ ih => exact (ih fun v hv => hvs v (.tail _ hv)).behind

theorem TriviaDeviates.shown {key : String} (h : TriviaDeviates c source kind o body key d)
    (hkind : Clean kind) (hkey : Clean key) (hbody : Json.CleanNumbers (.obj body)) : d.Shown := by
  cases h with
  | @notList v hv _ _ =>
      have hreason : Clean (MalformedReason.notTriviaList v.describe).message :=
        clean_append.mpr ⟨by decide, (hbody.member hv).describe⟩
      exact (Deviation.Shown.here hkind hreason).key hkey
  | pieces hv h => exact (h.shown hkind fun v => (hbody.member hv).item).key hkey

theorem BodyDeviates.shown (h : BodyDeviates c source kind o body d) (hkind : Clean kind)
    (hbody : Json.CleanNumbers (.obj body)) : d.Shown := by
  cases h with
  | leading h => exact h.shown hkind (by decide) hbody
  | text _ _ h => exact .here hkind (h.shown hbody)
  | trailing _ _ _ h => exact (h.shown hkind (by decide) hbody).behind

theorem TokenDeviates.shown (hc : c.Presentable) (h : TokenDeviates c source o members d)
    (hm : Json.CleanNumbers (.obj members)) : d.Shown := by
  cases h with
  | noToken _ => exact .here (by decide) (by decide)
  | @unknownKind body hbody _ =>
      have hkind := ((hm.member hbody).getD "kind").describe
      generalize ((Json.member? body "kind").getD .null).describe = got at hkind ⊢
      have hreason : Clean (MalformedReason.unknownToken got).message :=
        clean_append.mpr ⟨by decide, hkind⟩
      exact (Deviation.Shown.here (by decide) hreason).key (by decide)
  | body hbody _ hk h => exact (h.shown (hc.tokens _ hk) (hm.member hbody)).key (by decide)

/-- A value that is accepted as a node has a kind that the catalog knows. -/
theorem Misshapen.shown (hc : c.Presentable) (hkeys : NoKindKey c) (h : Misshapen c v kind reason)
    (hnode : c.AcceptsNode v) (hv : v.CleanNumbers) : (here [] kind reason).Shown := by
  cases h with
  | notObject _ => exact .here (by decide) (clean_append.mpr ⟨by decide, hv.describe⟩)
  | noKind _ => exact .here (by decide) (by decide)
  | unknownKind hkind hname hnone =>
      obtain ⟨k, hk⟩ := hnode.exists_kind hc.wellFormed hkeys hkind hname
      cases hnone.symm.trans hk
  | noElements _ _ => exact .here (by decide) (by decide)

mutual
/-- **The first deviation** of a value that is accepted as a node. -/
theorem Deviates.shown (hc : c.Presentable) (hkeys : NoKindKey c) :
    ∀ {o : Nat} {v : Json} {d : Deviation}, Deviates c source o v d → c.AcceptsNode v →
      v.CleanNumbers → d.Shown
  | _, _, _, .misshapen h, hnode, hv => h.shown hc hkeys hnode hv
  | _, _, _, .token _ h, _, hv => h.shown hc hv
  | _, _, _, .element hkind hitems h, hnode, hv =>
      (h.shown hc hkeys fun x hx => ⟨hnode.elements hc.wellFormed hkeys hkind hitems x hx,
        (hv.member hitems).item hx⟩).key (by decide)
  | _, _, _, .slot hkind _ hk h, hnode, hv => by
      obtain ⟨hname, hslots⟩ := hc.kinds _ (List.mem_of_find?_eq_some hk)
      exact h.shown hc hkeys hname
        (fun s hs => ⟨hslots s hs, hnode.slots hc.wellFormed hkeys hkind hk s hs⟩) hv

@[inherit_doc Deviates.shown]
theorem ElementsDeviate.shown (hc : c.Presentable) (hkeys : NoKindKey c) :
    ∀ {o i : Nat} {vs : List Json} {d : Deviation}, ElementsDeviate c source o i vs d →
      (∀ v ∈ vs, c.AcceptsNode v ∧ v.CleanNumbers) → d.Shown
  | _, _, _, _, .head h, hvs =>
      (h.shown hc hkeys (hvs _ (.head _)).1 (hvs _ (.head _)).2).index _
  | _, _, _, _, .tail _ _ h, hvs => (h.shown hc hkeys fun v hv => hvs v (.tail _ hv)).behind

@[inherit_doc Deviates.shown]
theorem SlotsDeviate.shown (hc : c.Presentable) (hkeys : NoKindKey c) :
    ∀ {kind : String} {members : List (String × Json)} {o : Nat} {slots : List Slot}
      {d : Deviation}, SlotsDeviate c source kind members o slots d → Clean kind →
      (∀ s ∈ slots, Clean s.key ∧ ∀ x, Json.member? members s.key = some x → c.AcceptsNode x) →
      Json.CleanNumbers (.obj members) → d.Shown
  | _, _, _, _, _, .absent _, hkind, _, _ =>
      .here hkind (clean_append.mpr ⟨by decide, clean_quoteString _⟩)
  | _, _, _, _, _, .head hx h, _, hslots, hm =>
      (h.shown hc hkeys ((hslots _ (.head _)).2 _ hx) (hm.member hx)).key (hslots _ (.head _)).1
  | _, _, _, _, _, .tail _ _ _ h, hkind, hslots, hm =>
      (h.shown hc hkeys hkind (fun s hs => hslots s (.tail _ hs)) hm).behind
end

/-! ### Trees and documents -/

/-- The error of a deviation shows what the deviation does. -/
theorem Deviation.Shown.error (h : d.Shown) (file : String) : (d.error file [] o).Shown :=
  ⟨ValuePath.clean_text h.path, h.kind, h.reason⟩

end Parse

end Lossless
