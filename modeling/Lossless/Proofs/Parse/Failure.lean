import Lossless.Proofs.Parse.Deviation
import Lossless.Proofs.Parse.Encoding

/-!
# Parse — errors tell the first deviation

Every value describes a tree whose texts are read, or has a first deviation (`read_or_deviates`).  In
the first case a node is built, as `nodeOf_of_describes` says.  In the second one building fails with
the error of this deviation (`nodeOf_of_deviates`), because all that is passed before is built and
moves the offset on by the lengths of the texts.  So the errors are those of the first deviations
(`fromJson_eq_error_iff`).

**Accuracy** (`error_tells_first_deviation`) says what such an error tells.
-/

namespace Lossless.Parse

open Deviation (here)

variable {c : Catalog} {source : Text} {ctx : Context} {path : ValuePath} {kind : String} {o : Nat}
  {d : Deviation} {s : Supply}

/-! ### Read, or not -/

theorem text_read_or_deviates (source : Text) (o : Nat) (members : List (String × Json)) :
    (∃ spec t, TextSpec.Given members spec ∧ spec.Allows t ∧ source.At o t) ∨
      ∃ reason, TextDeviates source o members reason := by
  match ht : Json.member? members "text" with
  | some (.str u) =>
      by_cases hat : source.At o (Text.ofString u)
      · exact .inl ⟨_, _, .text ht, rfl, hat⟩
      · exact .inr ⟨_, .differs ht hat⟩
  | some .null | some (.bool _) | some (.number _) | some (.arr _) | some (.obj _) =>
      exact .inr ⟨_, .notString ht nofun⟩
  | none =>
      cases hw : widthOf ((Json.member? members "width").getD .null) with
      | error got => exact .inr ⟨_, .noInteger ht hw⟩
      | ok w =>
          obtain ⟨x, hx, hi⟩ := widthOf_eq_ok_iff.mp hw
          by_cases hout : w < 0 ∨ (source.length : Int) - o < w
          · exact .inr ⟨_, .outside ht hx hi hout⟩
          · -- the text is what stands there, as long as the width
            have hslice : source.slice? o (o + w.toNat) =
                some ((source.drop o).take (o + w.toNat - o)) := if_pos (by omega)
            obtain ⟨hlen, hat⟩ := Text.at_of_slice? hslice
            exact .inl ⟨_, _, .width ht hx hi, by rw [TextSpec.Allows, hlen]; omega, hat⟩

theorem piece_read_or_deviates (c : Catalog) (source : Text) (o : Nat) (v : Json) :
    (∃ k spec t, DescribesTrivia c v (k, spec) ∧ spec.Allows t ∧ source.At o t) ∨
      ∃ reason, PieceDeviates c source o v reason := by
  cases v with
  | obj members =>
      by_cases hkind : ∃ k, Json.member? members "kind" = some (.str k) ∧ c.isTrivia k = true
      · obtain ⟨k, hkind, hk⟩ := hkind
        rcases text_read_or_deviates source o members with ⟨spec, t, hgiven, hread⟩ | ⟨reason, h⟩
        · exact .inl ⟨k, spec, t, .intro hkind hk hgiven, hread⟩
        · exact .inr ⟨reason, .text hkind hk h⟩
      · refine .inr ⟨_, .unknownKind fun k hk => ?_⟩
        exact Bool.eq_false_iff.mpr fun htrivia => hkind ⟨k, hk, htrivia⟩
  | _ => exact .inr ⟨_, .notObject nofun⟩

theorem pieces_read_or_deviate (c : Catalog) (source : Text) (kind : String) (vs : List Json)
    (o i : Nat) :
    (∃ specs texts, List.Forall₂ (DescribesTrivia c) vs specs ∧
      Reads source o (specs.map (·.2)) texts) ∨ ∃ d, PiecesDeviate c source kind o i vs d := by
  induction vs generalizing o i with
  | nil => exact .inl ⟨[], [], .nil, .nil⟩
  | cons v vs ih =>
      rcases piece_read_or_deviates c source o v with ⟨k, spec, t, hv, hspec, hat⟩ | ⟨reason, h⟩
      · rcases ih (o + t.length) (i + 1) with ⟨specs, texts, hvs, hreads⟩ | ⟨d, h⟩
        · exact .inl ⟨(k, spec) :: specs, t :: texts, .cons hv hvs, .cons hspec hat hreads⟩
        · exact .inr ⟨_, .tail hv hspec hat h⟩
      · exact .inr ⟨_, .head h⟩

theorem trivia_read_or_deviate (c : Catalog) (source : Text) (kind : String) (o : Nat)
    (body : List (String × Json)) (key : String) :
    (∃ specs texts, DescribesTriviaAt c body key specs ∧ Reads source o (specs.map (·.2)) texts) ∨
      ∃ d, TriviaDeviates c source kind o body key d := by
  match hv : Json.member? body key with
  | none => exact .inl ⟨[], [], .absent hv, .nil⟩
  | some .null => exact .inl ⟨[], [], .null hv, .nil⟩
  | some (.arr items) =>
      rcases pieces_read_or_deviate c source kind items o 0 with ⟨specs, texts, h, hreads⟩ | ⟨d, h⟩
      · exact .inl ⟨specs, texts, .array hv h, hreads⟩
      · exact .inr ⟨_, .pieces hv h⟩
  | some (.bool _) | some (.number _) | some (.str _) | some (.obj _) =>
      exact .inr ⟨_, .notList hv nofun nofun⟩

theorem body_read_or_deviates (c : Catalog) (source : Text) (kind : String) (o : Nat)
    (body : List (String × Json)) :
    (∃ leading spec trailing texts, DescribesTriviaAt c body "leading" leading ∧
      TextSpec.Given body spec ∧ DescribesTriviaAt c body "trailing" trailing ∧
      Reads source o (leading.map (·.2) ++ spec :: trailing.map (·.2)) texts) ∨
      ∃ d, BodyDeviates c source kind o body d := by
  rcases trivia_read_or_deviate c source kind o body "leading" with
    ⟨leading, front, hleading, hfront⟩ | ⟨d, h⟩
  · rcases text_read_or_deviates source (o + front.flatten.length) body with
      ⟨spec, t, hgiven, hspec, hat⟩ | ⟨reason, h⟩
    · have hreads := hfront.append (.cons hspec hat .nil)
      rcases trivia_read_or_deviate c source kind (o + (front ++ [t]).flatten.length) body
        "trailing" with ⟨trailing, back, htrailing, hback⟩ | ⟨d, h⟩
      · refine .inl ⟨leading, spec, trailing, front ++ [t] ++ back, hleading, hgiven, htrailing, ?_⟩
        simpa using hreads.append hback
      · exact .inr ⟨_, .trailing hleading hgiven hreads h⟩
    · exact .inr ⟨_, .text hleading hfront h⟩
  · exact .inr ⟨d, .leading h⟩

theorem token_read_or_deviates (c : Catalog) (source : Text) (o : Nat)
    (members : List (String × Json)) :
    (∃ n texts, DescribesToken c members n ∧ Reads source o n.leaves texts) ∨
      ∃ d, TokenDeviates c source o members d := by
  by_cases hbody : ∃ body, Json.member? members "token" = some (.obj body)
  · obtain ⟨body, hbody⟩ := hbody
    by_cases hkind : ∃ k, Json.member? body "kind" = some (.str k) ∧ c.isToken k = true
    · obtain ⟨k, hkind, hk⟩ := hkind
      rcases body_read_or_deviates c source k o body with
        ⟨leading, spec, trailing, texts, hleading, hgiven, htrailing, hreads⟩ | ⟨d, h⟩
      · exact .inl ⟨_, texts, .intro hbody hkind hk hleading hgiven htrailing, hreads⟩
      · exact .inr ⟨_, .body hbody hkind hk h⟩
    · refine .inr ⟨_, .unknownKind hbody fun k hk => ?_⟩
      exact Bool.eq_false_iff.mpr fun htoken => hkind ⟨k, hk, htoken⟩
  · exact .inr ⟨_, .noToken fun body h => hbody ⟨body, h⟩⟩

mutual
/-- **Every value** describes a tree whose texts are read from `o` on, or has a first deviation. -/
theorem read_or_deviates (c : Catalog) (source : Text) (o : Nat) (v : Json) :
    (∃ n texts, Describes c v n ∧ Reads source o n.leaves texts) ∨
      ∃ d, Deviates c source o v d := by
  rcases misshapen_or_formed c v with ⟨kind, reason, h⟩ | ⟨members, name, hv, hkind, hform⟩
  · exact .inr ⟨_, .misshapen h⟩
  have hsize : sizeOf members < sizeOf v := by rw [hv]; simp
  rw [hv]
  rcases hform with rfl | rfl | ⟨rfl, items, hitems⟩ | ⟨hname, k, hk⟩
  · exact .inl ⟨.missing, [], .missing hkind, .nil⟩
  · rcases token_read_or_deviates c source o members with ⟨n, texts, h, hreads⟩ | ⟨d, h⟩
    · exact .inl ⟨n, texts, .token hkind h, hreads⟩
    · exact .inr ⟨d, .token hkind h⟩
  · have := Json.sizeOf_items hitems
    rcases elements_read_or_deviate c source o 0 items with ⟨ns, texts, h, hreads⟩ | ⟨d, h⟩
    · exact .inl ⟨.list ns, texts, .list hkind hitems h, hreads⟩
    · exact .inr ⟨_, .element hkind hitems h⟩
  · rcases slots_read_or_deviate c source o k.name members k.slots with
      ⟨ns, texts, h, hreads⟩ | ⟨d, h⟩
    · exact .inl ⟨.composite k ns, texts, .composite hkind hname hk h, hreads⟩
    · exact .inr ⟨d, .slot hkind hname hk h⟩
termination_by (sizeOf v, 0)

theorem elements_read_or_deviate (c : Catalog) (source : Text) (o i : Nat) (vs : List Json) :
    (∃ ns texts, DescribesAll c vs ns ∧ Reads source o (Description.leavesAll ns) texts) ∨
      ∃ d, ElementsDeviate c source o i vs d := by
  match vs with
  | [] => exact .inl ⟨[], [], .nil, .nil⟩
  | v :: vs =>
      rcases read_or_deviates c source o v with ⟨n, texts, hv, hreads⟩ | ⟨d, h⟩
      · rcases elements_read_or_deviate c source (o + texts.flatten.length) (i + 1) vs with
          ⟨ns, more, hvs, hmore⟩ | ⟨d, h⟩
        · exact .inl ⟨n :: ns, texts ++ more, .cons hv hvs, hreads.append hmore⟩
        · exact .inr ⟨_, .tail hv hreads h⟩
      · exact .inr ⟨_, .head h⟩
termination_by (sizeOf vs, 0)

theorem slots_read_or_deviate (c : Catalog) (source : Text) (o : Nat) (kind : String)
    (members : List (String × Json)) (slots : List Slot) :
    (∃ ns texts, DescribesSlots c members slots ns ∧
      Reads source o (Description.leavesAll ns) texts) ∨
      ∃ d, SlotsDeviate c source kind members o slots d := by
  match slots with
  | [] => exact .inl ⟨[], [], .nil, .nil⟩
  | slot :: slots =>
      match hv : Json.member? members slot.key with
      | none => exact .inr ⟨_, .absent hv⟩
      | some v =>
          have := Json.sizeOf_member? hv
          rcases read_or_deviates c source o v with ⟨n, texts, hn, hreads⟩ | ⟨d, h⟩
          · rcases slots_read_or_deviate c source (o + texts.flatten.length) kind members slots with
              ⟨ns, more, hns, hmore⟩ | ⟨d, h⟩
            · exact .inl ⟨n :: ns, texts ++ more, .cons hv hn hns, hreads.append hmore⟩
            · exact .inr ⟨_, .tail hv hn hreads h⟩
          · exact .inr ⟨_, .head hv h⟩
termination_by (sizeOf members, slots.length)
end

/-! ### Failing at a deviation -/

/-- Building stops with the error about a deviation. -/
def Context.stop (ctx : Context) (path : ValuePath) (o : Nat) (d : Deviation) : Stop :=
  .malformed (d.error ctx.file path o)

theorem stop_under (steps : ValuePath) (texts : List Text) :
    ctx.stop path o (d.under steps texts) =
      ctx.stop (path ++ steps) (o + texts.flatten.length) d :=
  congrArg Stop.malformed (d.error_under ctx.file path steps o texts)

theorem fail_apply {α : Type} {reason : MalformedReason} (s : Supply) :
    (fail ctx path kind o reason : Builder α) s = .error (ctx.stop path o (here [] kind reason)) := by
  simp [fail, Context.stop, Deviation.error, Deviation.here, Deviation.distance]

/-- What was passed moves the offset on, by the texts that were read. -/
theorem stop_behind (texts : List Text) :
    ctx.stop path o (d.under [] texts) = ctx.stop path (o + texts.flatten.length) d := by
  rw [stop_under, List.append_nil]

/-- A step leads further into the value, at the same offset. -/
theorem stop_step (step : PathStep) :
    ctx.stop path o (d.under [step] []) = ctx.stop (path ++ [step]) o d := stop_under [step] []

theorem textOf_of_deviates {members : List (String × Json)} {reason : MalformedReason}
    (h : TextDeviates ctx.source o members reason) :
    textOf ctx path kind members o = fail ctx path kind o reason := by
  cases h with
  | @notString v hv h =>
      cases v with
      | str t => exact absurd rfl (h t)
      | _ => simp only [textOf, hv]
  | @differs t ht h =>
      simp only [textOf, ht]
      split
      · rfl
      · next hle =>
          -- the source is long enough, so what stands there is another text
          funext s
          have hslice : ctx.source.slice? o (o + (Text.ofString t).length) =
              some ((ctx.source.drop o).take (o + (Text.ofString t).length - o)) :=
            if_pos (by unfold Context.left at hle; omega)
          have hs := sliceOf_eq_ok_iff (s := s).mpr ⟨hslice, rfl⟩
          rw [Make.bind_apply, hs]
          dsimp only
          rw [if_neg fun heq => h (by rw [Text.At, hslice, heq])]
  | noInteger ht h => simp only [textOf, ht, h]
  | outside ht hw hx h =>
      simp only [textOf, ht, hw, Option.getD_some, widthOf, hx]
      exact if_pos h

theorem triviaOf_of_deviates {v : Json} {reason : MalformedReason}
    (h : PieceDeviates ctx.catalog ctx.source o v reason) :
    triviaOf ctx path kind v o s = .error (ctx.stop path o (here [] kind reason)) := by
  cases h with
  | notObject h =>
      cases v with
      | obj members => exact absurd rfl (h members)
      | _ => exact fail_apply s
  | @unknownKind members h =>
      rw [← fail_apply s]
      match hm : Json.member? members "kind" with
      | some (.str k) =>
          simp only [triviaOf, hm, Option.getD_some, h k hm, Bool.false_eq_true, if_false]
      | none | some .null | some (.bool _) | some (.number _) | some (.arr _) | some (.obj _) =>
          simp only [triviaOf, hm, Option.getD_none, Option.getD_some]
  | text hkind hk h =>
      simp only [triviaOf, hkind, Option.getD_some, hk, if_true]
      exact Make.bind_eq_error.mpr (.inl (by rw [textOf_of_deviates h, fail_apply s]))

theorem triviaItems_of_deviates {vs : List Json} {i : Nat}
    (h : PiecesDeviate ctx.catalog ctx.source kind o i vs d) :
    triviaItems ctx path kind i vs o s = .error (ctx.stop path o d) := by
  induction h with
  | head h =>
      rw [triviaItems, stop_step]
      exact Make.bind_eq_error.mpr (.inl (triviaOf_of_deviates h))
  | @tail o i v vs k spec t d hv hspec hat _ ih =>
      rw [triviaItems, stop_behind, List.flatten_singleton]
      refine Make.bind_eq_error.mpr (.inr ⟨⟨k, t⟩, s, ?_, ?_⟩)
      · exact triviaOf_eq_ok_iff.mpr ⟨k, spec, t, hv, hspec, hat, rfl⟩
      · exact Make.bind_eq_error.mpr (.inl ih)

theorem triviaList_of_deviates {body : List (String × Json)} {key : String}
    (h : TriviaDeviates ctx.catalog ctx.source kind o body key d) :
    triviaList ctx path kind body key o s = .error (ctx.stop path o d) := by
  cases h with
  | @notList v hv hnull h =>
      rw [stop_step]
      unfold triviaList
      rw [hv]
      cases v with
      | null => exact absurd rfl hnull
      | arr items => exact absurd rfl (h items)
      | _ => exact fail_apply s
  | pieces hv h =>
      rw [stop_step]
      unfold triviaList
      rw [hv]
      exact triviaItems_of_deviates h

/-- The trivia under a key, when their texts are read. -/
theorem triviaList_of_reads {body : List (String × Json)} {key : String}
    {specs : List (String × TextSpec)} {texts : List Text}
    (hd : DescribesTriviaAt ctx.catalog body key specs)
    (hr : Reads ctx.source o (specs.map (·.2)) texts) :
    ∃ ts, triviaList ctx path kind body key o s = .ok ((ts, o + texts.flatten.length), s) := by
  obtain ⟨ts, hts, rfl⟩ := ReadsTrivia.of_reads hr
  exact ⟨ts, triviaList_eq_ok_iff.mpr ⟨specs, ts, hd, hts, by rw [triviaWidth_eq]; rfl⟩⟩

/-- The body of a token stops at its first deviation. -/
theorem tokenOf_of_bodyDeviates {members body : List (String × Json)}
    (hbody : Json.member? members "token" = some (.obj body))
    (hkind : Json.member? body "kind" = some (.str kind)) (hk : ctx.catalog.isToken kind = true)
    (h : BodyDeviates ctx.catalog ctx.source kind o body d) :
    tokenOf ctx path members o s = .error (ctx.stop (path ++ [.key "token"]) o d) := by
  simp only [tokenOf, hbody, hkind, Option.getD_some, hk, if_true]
  cases h with
  | leading h => exact Make.bind_eq_error.mpr (.inl (triviaList_of_deviates h))
  | @text leading texts reason hleading hreads h =>
      obtain ⟨ts, hts⟩ := triviaList_of_reads hleading hreads
      have hbehind : here texts kind reason = (here [] kind reason).under [] texts := by
        simp [here, Deviation.under]
      -- the trivia in front are read, so the deviation lies behind their text
      rw [hbehind, stop_behind]
      refine Make.bind_eq_error.mpr (.inr ⟨_, s, hts, ?_⟩)
      exact Make.bind_eq_error.mpr (.inl (by rw [textOf_of_deviates h, fail_apply s]))
  | trailing hleading hspec hreads h =>
      obtain ⟨front, back, rfl, hfront, hback⟩ := Reads.of_append hreads
      obtain ⟨ts, hts⟩ := triviaList_of_reads hleading hfront
      cases hback with
      | @cons _ _ _ t back hallows hat hnil =>
          cases hnil
          rw [stop_behind]
          have hlen : (front ++ [t]).flatten.length = front.flatten.length + t.length := by simp
          rw [hlen, ← Nat.add_assoc] at h ⊢
          refine Make.bind_eq_error.mpr (.inr ⟨_, s, hts, ?_⟩)
          refine Make.bind_eq_error.mpr (.inr ⟨t, s, ?_, ?_⟩)
          · exact textOf_eq_ok_iff.mpr ⟨_, t, hspec, hallows, hat, rfl⟩
          · exact Make.bind_eq_error.mpr (.inl (triviaList_of_deviates h))

theorem tokenOf_of_deviates {members : List (String × Json)}
    (h : TokenDeviates ctx.catalog ctx.source o members d) :
    tokenOf ctx path members o s = .error (ctx.stop path o d) := by
  cases h with
  | noToken h =>
      rw [← fail_apply s]
      cases hm : Json.member? members "token" with
      | none => simp only [tokenOf, hm]
      | some token =>
          cases token with
          | obj body => exact absurd hm (h body)
          | _ => simp only [tokenOf, hm]
  | @unknownKind body hbody h =>
      rw [stop_step, ← fail_apply s]
      cases hm : Json.member? body "kind" with
      | none => simp only [tokenOf, hbody, hm, Option.getD_none]
      | some kind =>
          cases kind with
          | str k =>
              simp only [tokenOf, hbody, hm, Option.getD_some, h k hm, Bool.false_eq_true, if_false]
          | _ => simp only [tokenOf, hbody, hm, Option.getD_some]
  | body hbody hkind hk h =>
      rw [stop_step]
      exact tokenOf_of_bodyDeviates hbody hkind hk h

/-- A node whose texts are read is as wide as they are long. -/
theorem nodeOf_of_reads {v : Json} {n : Description TextSpec} {texts : List Text}
    (hv : Describes ctx.catalog v n) (hr : Reads ctx.source o n.leaves texts) (path : ValuePath)
    (s : Supply) : ∃ m s', nodeOf ctx path v o s = .ok (m, s') ∧ m.width = texts.flatten.length := by
  obtain ⟨m, s', hm, hreal, rfl⟩ := nodeOf_of_describes hv hr path s
  exact ⟨m, s', hm, hreal.sound.width_eq_leaves⟩

mutual
/-- Building a value stops at its first deviation. -/
theorem nodeOf_of_deviates {ctx : Context} : ∀ {o : Nat} {v : Json} {d : Deviation},
    Deviates ctx.catalog ctx.source o v d → ∀ (path : ValuePath) (s : Supply),
      nodeOf ctx path v o s = .error (ctx.stop path o d)
  | _, _, _, .misshapen h, path, s => by rw [nodeOf_of_misshapen h, fail_apply s]
  | _, _, _, .token hkind h, path, s => by
      rw [nodeOf_token hkind]
      exact Make.bind_eq_error.mpr (.inl (tokenOf_of_deviates h))
  | _, _, _, .element hkind hitems h, path, s => by
      rw [nodeOf_list hkind hitems, stop_step]
      exact Make.bind_eq_error.mpr (.inl (elementsOf_of_deviates h _ s))
  | _, _, _, .slot hkind hname hk h, path, s => by
      rw [nodeOf_composite hkind hname hk]
      exact Make.bind_eq_error.mpr (.inl (slotsOf_of_deviates h path s))

@[inherit_doc nodeOf_of_deviates]
theorem elementsOf_of_deviates {ctx : Context} : ∀ {o i : Nat} {vs : List Json} {d : Deviation},
    ElementsDeviate ctx.catalog ctx.source o i vs d → ∀ (path : ValuePath) (s : Supply),
      elementsOf ctx path i vs o s = .error (ctx.stop path o d)
  | _, _, _, _, .head h, path, s => by
      rw [elementsOf, stop_step]
      exact Make.bind_eq_error.mpr (.inl (nodeOf_of_deviates h _ s))
  | _, i, _, _, .tail hv hr h, path, s => by
      obtain ⟨m, s₁, hm, hw⟩ := nodeOf_of_reads hv hr (path ++ [.index i]) s
      have hrest := elementsOf_of_deviates h path s₁
      rw [← hw] at hrest
      rw [elementsOf, stop_behind, ← hw]
      exact Make.bind_eq_error.mpr (.inr ⟨m, s₁, hm, Make.bind_eq_error.mpr (.inl hrest)⟩)

@[inherit_doc nodeOf_of_deviates]
theorem slotsOf_of_deviates {ctx : Context} : ∀ {kind : String} {members : List (String × Json)}
    {o : Nat} {slots : List Slot} {d : Deviation},
    SlotsDeviate ctx.catalog ctx.source kind members o slots d → ∀ (path : ValuePath) (s : Supply),
      slotsOf ctx path kind members slots o s = .error (ctx.stop path o d)
  | _, _, _, _, _, .absent hv, path, s => by rw [slotsOf_none hv, fail_apply s]
  | _, _, _, _, _, .head hv h, path, s => by
      rw [slotsOf_cons hv, stop_step]
      exact Make.bind_eq_error.mpr (.inl (nodeOf_of_deviates h _ s))
  | _, _, _, _, _, .tail (s := slot) hv hn hr h, path, s => by
      obtain ⟨m, s₁, hm, hw⟩ := nodeOf_of_reads hn hr (path ++ [.key slot.key]) s
      have hrest := slotsOf_of_deviates h path s₁
      rw [← hw] at hrest
      rw [slotsOf_cons hv, stop_behind, ← hw]
      exact Make.bind_eq_error.mpr (.inr ⟨m, s₁, hm, Make.bind_eq_error.mpr (.inl hrest)⟩)
end

/-! ### Trees -/

theorem finish_eq_error_iff {α : Type} {m : Builder α} (h : m.Inside) {e : Malformed} :
    m.finish h s = .error e ↔ m s = .error (.malformed e) := by
  unfold Builder.finish
  split
  · next r hm => rw [hm]; exact ⟨nofun, nofun⟩
  · next e' hm => rw [hm]; exact ⟨fun h => by cases h; rfl, fun h => by cases h; rfl⟩
  · next start stop hm => exact absurd hm (h s start stop)

section Trees

variable {v : Json} {file : String} {start : Int} {e : Malformed}

/-- From a start in the source, building fails exactly with the error of the first deviation. -/
theorem fromJson_eq_error_iff (hstart : 0 ≤ start ∧ start ≤ source.length) :
    fromJson c v file start source s = .error e ↔
      ∃ d, Deviates c source start.toNat v d ∧ e = d.error file [] start.toNat := by
  have hin : ¬(start < 0 ∨ (source.length : Int) < start) := by omega
  let ctx : Context := ⟨c, file, source⟩
  rw [fromJson, if_neg hin, finish_eq_error_iff]
  constructor
  · intro h
    -- a value that is read gives a node, so an error leaves a deviation only
    rcases read_or_deviates c source start.toNat v with ⟨n, texts, hv, hr⟩ | ⟨d, hd⟩
    · have hv : Describes ctx.catalog v n := hv
      obtain ⟨m, s', hm, -⟩ := nodeOf_of_describes hv hr [] s
      cases hm.symm.trans h
    · have hd' : Deviates ctx.catalog ctx.source start.toNat v d := hd
      have hstop := nodeOf_of_deviates hd' [] s
      cases hstop.symm.trans h
      exact ⟨d, hd, rfl⟩
  · rintro ⟨d, hd, rfl⟩
    have hd : Deviates ctx.catalog ctx.source start.toNat v d := hd
    exact nodeOf_of_deviates hd [] s

/-- An error about a start in the source tells the first deviation of the value: its path leads to a
part of the value, its offset is the start plus the lengths of the texts in front of the deviation,
these stand in the source between the two, and no making of a list or a composite is to blame. -/
theorem error_tells_first_deviation (c : Catalog) (v : Json) (file : String) (start : Int)
    (source : Text) (supply : Supply) (hstart : 0 ≤ start ∧ start ≤ source.length) {e : Malformed}
    (he : fromJson c v file start source supply = .error e) :
    ∃ d, Deviates c source start.toNat v d ∧
      (e.file = file ∧ e.path = d.path.text ∧ e.kind = d.kind ∧ e.reason = d.reason) ∧
      (v.at? d.path).isSome ∧
      e.offset = start + d.before.flatten.length ∧ start ≤ e.offset ∧ e.offset ≤ source.length ∧
      source.slice? start.toNat e.offset.toNat = some d.before.flatten ∧
      ∀ ne, e.reason ≠ .node ne := by
  obtain ⟨d, hd, rfl⟩ := (fromJson_eq_error_iff hstart).mp he
  have hplaced := hd.placed (show start.toNat ≤ source.length by omega)
  have hoffset : (d.error file [] start.toNat).offset = start + d.before.flatten.length := by
    simp only [Deviation.error, Deviation.distance]
    omega
  have hend := (Text.at_iff.mp hplaced.stands).1
  refine ⟨d, hd, ⟨rfl, rfl, rfl, rfl⟩, hplaced.leads, hoffset, by omega, by omega, ?_,
    hplaced.reason_ne_node⟩
  rw [hoffset, show (start + d.before.flatten.length).toNat =
    start.toNat + d.before.flatten.length by omega]
  exact hplaced.stands

end Trees

/-- Parser output for a word behind a blank. -/
def spacedWord (text : String) : Json :=
  .obj [("kind", .str "token"), ("token", .obj [("kind", .str "word"),
    ("leading", .arr [.obj [("kind", .str "blank"), ("text", .str " ")]]), ("text", .str text),
    ("trailing", .null)])]

/-- Parser output for a pair whose left is a list of two words. -/
def pairOfWords (first second : String) : Json :=
  .obj [("kind", .str "pair"),
    ("pair_left", .obj [("kind", .str "list"),
      ("elements", .arr [spacedWord first, spacedWord second])]),
    ("pair_right", .obj [("kind", .str "missing")])]

/-- A blank of parser output. -/
theorem describesTrivia_blank :
    DescribesTrivia pairCatalog (.obj [("kind", .str "blank"), ("text", .str " ")])
      ("blank", .text " ") := .intro rfl rfl (.text rfl)

theorem describes_spacedWord (text : String) :
    Describes pairCatalog (spacedWord text)
      (.token "word" [("blank", .text " ")] (.text text) []) :=
  .token rfl (.intro rfl rfl rfl (.array rfl (.cons describesTrivia_blank .nil)) (.text rfl)
    (.null rfl))

theorem describes_pairOfWords (first second : String) :
    Describes pairCatalog (pairOfWords first second)
      (.composite pairKind [
        .list [.token "word" [("blank", .text " ")] (.text first) [],
          .token "word" [("blank", .text " ")] (.text second) []], .missing]) :=
  .composite rfl (by decide) rfl (.cons rfl
    (.list rfl rfl (.cons (describes_spacedWord first) (.cons (describes_spacedWord second) .nil)))
    (.cons rfl (.missing rfl) .nil))

/-- Where a blank stands but the word does not, the word deviates behind the blank. -/
theorem deviates_spacedWord {text : String} (hblank : source.At o (Text.ofString " "))
    (h : ¬source.At (o + 1) (Text.ofString text)) :
    Deviates pairCatalog source o (spacedWord text)
      ⟨[.key "token"], [" "], "word", .textDiffers text⟩ :=
  .token rfl (.body rfl rfl rfl (.text (.array rfl (.cons describesTrivia_blank .nil))
    (.cons rfl hblank .nil) (.differs rfl h)))

/-- The error about a second word that is not the one of the source. -/
def secondWordError : Malformed :=
  ⟨"a.pair", "$.pair_left.elements[1].token", "word", 6, .textDiffers "e"⟩

theorem error_tells_second_word :
    (0 ≤ (1 : Int) ∧ (1 : Int) ≤ (Text.ofString "x abc d").length) ∧
    fromJson pairCatalog (pairOfWords "abc" "e") "a.pair" 1 "x abc d" Supply.start =
      .error secondWordError ∧
    ∃ d, Deviates pairCatalog "x abc d" 1 (pairOfWords "abc" "e") d ∧
      (secondWordError.file = "a.pair" ∧ secondWordError.path = d.path.text ∧
        secondWordError.kind = d.kind ∧ secondWordError.reason = d.reason) ∧
      ((pairOfWords "abc" "e").at? d.path).isSome ∧
      secondWordError.offset = 1 + d.before.flatten.length ∧ 1 ≤ secondWordError.offset ∧
      secondWordError.offset ≤ (Text.ofString "x abc d").length ∧
      (Text.ofString "x abc d").slice? 1 secondWordError.offset.toNat = some d.before.flatten ∧
      ∀ ne, secondWordError.reason ≠ .node ne := by
  have hstart : 0 ≤ (1 : Int) ∧ (1 : Int) ≤ (Text.ofString "x abc d").length := by decide
  have hfirst : Reads "x abc d" 1 [.text " ", .text "abc"] [" ", "abc"] :=
    .cons rfl (by decide) (.cons rfl (by decide) .nil)
  have hblank : Text.At "x abc d" 5 (Text.ofString " ") := by decide
  have hword : ¬Text.At "x abc d" 6 (Text.ofString "e") := by decide
  have hd : Deviates pairCatalog "x abc d" 1 (pairOfWords "abc" "e") _ :=
    .slot rfl (by decide) rfl (.head rfl (.element rfl rfl
      (.tail (describes_spacedWord "abc") hfirst (.head (deviates_spacedWord hblank hword)))))
  have herror : fromJson pairCatalog (pairOfWords "abc" "e") "a.pair" 1 "x abc d" Supply.start =
      .error secondWordError := (fromJson_eq_error_iff hstart).mpr ⟨_, hd, rfl⟩
  exact ⟨hstart, herror, error_tells_first_deviation pairCatalog (pairOfWords "abc" "e") "a.pair" 1
    "x abc d" Supply.start hstart herror⟩

end Lossless.Parse
