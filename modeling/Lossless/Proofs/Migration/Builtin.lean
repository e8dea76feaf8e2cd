import Lossless.Migration.Builtin
import Lossless.Proofs.Catalog.Hack
import Lossless.Proofs.Node.Built
import Lossless.Proofs.Pass.Among

/-!
# Migration — what the built-in steps do with a node

Each of the built-in steps looks at composites of one kind, and what it does with one is decided by
its view: it keeps the composite, changes one slot of it, or refuses it (`Builtin.judge`).  A change
puts a known face into the slot (`Builtin.settle`), and then the step has nothing left to do there
(`judge_settle_self`), while the other steps look at other kinds (`judge_settle_of_ne`).

One call follows the verdict: a composite that is kept is returned as it is (`Builtin.call_keep`),
one that is refused makes the step fail (`Builtin.call_refuse`), and one that is changed becomes an
object with the settled view, whose children look as they did below (`Builtin.call_change`).  For a
shape field this takes moving trivia from the first token of the name to the new question mark, which
is a pass of its own (`moveLeadingTrivia_moves`).
-/

namespace Lossless

open Catalog (fieldKind defaultKind caseKind)

/-! ### Slots among objects -/

namespace Node

/-- Putting a tree with the same views in the place of another one changes no view below. -/
theorem viewsAll_set {cs : List Node} {i : Nat} {m n : Node} (hm : cs[i]? = some m)
    (h : n.views = m.views) : viewsAll (cs.set i n) = viewsAll cs := by
  induction cs generalizing i with
  | nil => rfl
  | cons c cs ih =>
      cases i with
      | zero =>
          cases hm
          simp [h]
      | succ i => simp [ih hm]

end Node

namespace Composite

variable {S : Set Node} {s : Supply} {c c' : Composite} {slot : String} {i : Nat} {sl : Slot}
  {n : Node}

/-- A slot of an object is filled with another one: the children change at one position. -/
theorem withSlot_objects (hS : Objects S s) (hc : c.toNode ∈ S) (hn : n ∈ S)
    (hslot : c.kind.slot? slot = some (i, sl)) :
    ∃ c' s' S', c.withSlot slot (some n) s = .ok (c', s') ∧ S ⊆ S' ∧ Objects S' s' ∧
      c'.toNode ∈ S' ∧ c'.kind = c.kind ∧ c'.children = c.children.set i n := by
  obtain ⟨-, hk, -, -⟩ := Node.sound_composite_iff.mp (hS.sound _ hc)
  have hi : i < c.children.length := hk ▸ Kind.slot?_lt hslot
  have hcurrent : c.children.getD i .missing = c.children[i] := by simp [hi]
  by_cases hsame : (c.children.getD i .missing).same n = true
  · -- the slot holds the object already
    have hmem : c.children[i] ∈ S := hS.child _ hc _ (List.getElem_mem hi)
    obtain rfl := hS.eq_of_same hmem hn (hcurrent ▸ hsame)
    refine ⟨c, s, S, withSlot_eq_ok_iff.mpr ⟨i, sl, _, hslot, rfl, .inl ⟨hsame, rfl⟩⟩, subset_rfl,
      hS, hc, rfl, ?_⟩
    rw [List.set_getElem_self]
  · have hrun : c.withSlot slot (some n) s = .ok (_, s + 1) :=
      withSlot_eq_ok_iff.mpr ⟨i, sl, n, hslot, rfl, .inr ⟨hsame, rfl⟩⟩
    have hnode : (Operation.withSlot c slot (some n)).run s = .ok (_, s + 1) :=
      Make.bind_eq_ok.mpr ⟨_, _, hrun, rfl⟩
    obtain ⟨S', hsub, hS', hmem⟩ := Operation.run_objects hS
      (fun m hm => by cases hm; exact hc)
      (fun m hm => by cases List.mem_singleton.mp hm; exact hn) hnode
    exact ⟨_, _, S', hrun, hsub, hS', hmem, rfl, rfl⟩

/-- Filling a slot with what it holds changes nothing. -/
theorem withSlot_self (h : c.untyped slot = .ok n) (s : Supply) :
    c.withSlot slot (some n) s = .ok (c, s) := by
  unfold untyped at h
  split at h
  · cases h
  · next i sl hslot =>
      cases h
      exact withSlot_eq_ok_iff.mpr
        ⟨i, sl, _, hslot, rfl, .inl ⟨by simp [Node.same], rfl⟩⟩

/-- The view of a composite whose children changed at one position. -/
theorem view_of_set (hslot : c.kind.slot? slot = some (i, sl)) (hkind : c'.kind = c.kind)
    (hchildren : c'.children = c.children.set i n) : c'.view = c.view.put slot n.face := by
  simp only [view, View.put, hkind, hchildren, hslot, List.map_set]

end Composite

namespace Migration

theorem orFail_eq_ok_iff {α : Type} {m : Make NodeError α} {s : Supply} {r : α × Supply} :
    orFail m s = .ok r ↔ m s = .ok r := by
  unfold orFail
  cases m s with
  | error e => exact ⟨nofun, nofun⟩
  | ok p => exact ⟨fun h => by cases h; rfl, fun h => by cases h; rfl⟩

theorem looking_eq_ok_iff {α : Type} {x : Except NodeError α} {s : Supply} {r : α × Supply} :
    looking x s = .ok r ↔ x = .ok r.1 ∧ r.2 = s := by
  obtain ⟨a, s'⟩ := r
  unfold looking
  cases x with
  | error e => exact ⟨nofun, nofun⟩
  | ok b =>
      exact ⟨fun h => by cases h; exact ⟨rfl, rfl⟩, fun ⟨h, hs⟩ => by cases h; cases hs; rfl⟩

/-! ### Verdicts -/

/-- What a step does with a composite. -/
inductive Verdict where
  | keep
  | change
  | refuse
  deriving DecidableEq, Repr

/-- The steps of the built-in migrations. -/
inductive Builtin where
  | optionalField
  | defaultColon
  | caseColon
  deriving DecidableEq, Repr

/-- What `optionalField` does with a composite. -/
def judgeField (v : View) : Verdict :=
  if v.kind.name ≠ fieldKind.name ∨ v.has "question" then .keep
  else if ¬v.accepts "type" then .refuse
  else if (v.face "type").kind ≠ "nullable_type_specifier" then .keep
  else if v.accepts "name" ∧ (v.face "name").nodeClass = .composite then .change
  else .refuse

/-- A colon as the parent sees it. -/
def colonFace : Face := ⟨.token, "colon", some (Text.ofString ":")⟩

/-- A question mark as the parent sees it. -/
def questionFace : Face := ⟨.token, "question", some (Text.ofString "?")⟩

/-- What `labelColon` does with a composite. -/
def judgeLabel (kind : String) (v : View) : Verdict :=
  if v.kind.name ≠ kind ∨ ¬v.has "colon" then .keep
  else if ¬(v.accepts "colon" ∧ (v.face "colon").nodeClass = .token) then .refuse
  else if v.face "colon" = colonFace then .keep
  else .change

namespace Builtin

/-- The kind of the composites that a step looks at. -/
def kind : Builtin → Kind
  | .optionalField => fieldKind
  | .defaultColon => defaultKind
  | .caseColon => caseKind

/-- The slot that a step changes. -/
def slot : Builtin → String
  | .optionalField => "question"
  | .defaultColon | .caseColon => "colon"

/-- What a step puts into its slot. -/
def filling : Builtin → Face
  | .optionalField => questionFace
  | .defaultColon | .caseColon => colonFace

/-- The step itself. -/
def step : Builtin → Step
  | .optionalField => ⟨"make-nullable-fields-optional", Migration.optionalField⟩
  | .defaultColon => ⟨"default-label-colon", labelColon "default_label"⟩
  | .caseColon => ⟨"case-label-colon", labelColon "case_label"⟩

/-- What a step does with a composite. -/
def judge : Builtin → View → Verdict
  | .optionalField => judgeField
  | .defaultColon => judgeLabel defaultKind.name
  | .caseColon => judgeLabel caseKind.name

/-- A composite after a step. -/
def settle (b : Builtin) (v : View) : View :=
  if b.judge v = .change then v.put b.slot b.filling else v

theorem kind_mem (b : Builtin) : b.kind ∈ Catalog.migratedKinds := by
  cases b <;> decide

/-- The slot of a step, in the kind that it looks at. -/
theorem exists_slot (b : Builtin) : ∃ i s, b.kind.slot? b.slot = some (i, s) ∧
    s.variants.accepts b.filling.nodeClass b.filling.kind = true := by
  cases b <;> exact ⟨_, _, rfl, by decide⟩

theorem kind_name_inj {b b' : Builtin} (h : b.kind.name = b'.kind.name) : b = b' := by
  revert h
  cases b <;> cases b' <;> decide

variable {b b' : Builtin} {v : View}

theorem judge_of_name_ne (h : v.kind.name ≠ b.kind.name) : b.judge v = .keep := by
  cases b with
  | optionalField => exact if_pos (.inl h)
  | defaultColon | caseColon => exact if_pos (.inl h)

/-- A step changes and refuses composites of its kind only. -/
theorem kind_of_judge (hv : v.kind ∈ Catalog.hack.kinds) (h : b.judge v ≠ .keep) :
    v.kind = b.kind :=
  Catalog.eq_of_mem_hack hv b.kind_mem (Decidable.by_contra fun hne => h (judge_of_name_ne hne))

theorem settle_of_keep (h : b.judge v = .keep) : b.settle v = v := by
  rw [settle, h]
  rfl

theorem settle_of_change (h : b.judge v = .change) : b.settle v = v.put b.slot b.filling :=
  if_pos h

@[simp] theorem settle_kind (b : Builtin) (v : View) : (b.settle v).kind = v.kind := by
  unfold settle
  split
  · exact View.put_kind _ _ _
  · rfl

@[simp] theorem settle_length (b : Builtin) (v : View) :
    (b.settle v).faces.length = v.faces.length := by
  unfold settle
  split
  · exact View.length_put _ _ _
  · rfl

/-- **A step leaves nothing to do for itself.** -/
theorem judge_settle_self (hv : v.kind ∈ Catalog.hack.kinds)
    (hlen : v.faces.length = v.kind.arity) (h : b.judge v ≠ .refuse) :
    b.judge (b.settle v) = .keep := by
  by_cases hchange : b.judge v = .change
  · obtain ⟨i, s, hs, hvariants⟩ := b.exists_slot
    rw [← kind_of_judge hv (by rw [hchange]; decide)] at hs
    -- the filling is put where the verdict looks
    have hface : (v.put b.slot b.filling).face b.slot = b.filling := View.face_put hlen hs _
    have hhas : (v.put b.slot b.filling).has b.slot = true := by
      rw [View.has, View.put_kind, hs]
      dsimp only
      rw [hface]
      cases b <;> rfl
    have haccepts : (v.put b.slot b.filling).accepts b.slot = true := by
      rw [View.accepts, View.put_kind, hs]
      dsimp only
      rw [hface]
      exact hvariants
    rw [settle_of_change hchange]
    cases b with
    | optionalField => exact if_pos (.inr hhas)
    | defaultColon | caseColon =>
        have hhas : (v.put "colon" colonFace).has "colon" = true := hhas
        have haccepts : (v.put "colon" colonFace).accepts "colon" = true := haccepts
        have hface : (v.put "colon" colonFace).face "colon" = colonFace := hface
        show judgeLabel _ (v.put "colon" colonFace) = .keep
        have hclass : colonFace.nodeClass = .token := rfl
        simp [judgeLabel, hhas, haccepts, hface, hclass]
  · have hkeep : b.judge v = .keep := by
      cases hj : b.judge v with
      | keep => rfl
      | change => exact absurd hj hchange
      | refuse => exact absurd hj h
    rw [settle_of_keep hkeep, hkeep]

/-- **A step leaves the verdicts of the others as they are**: they look at other kinds. -/
theorem judge_settle_of_ne (hv : v.kind ∈ Catalog.hack.kinds) (hne : b' ≠ b) :
    b'.judge (b.settle v) = b'.judge v := by
  by_cases hkeep : b.judge v = .keep
  · rw [settle_of_keep hkeep]
  · have hname : v.kind.name ≠ b'.kind.name := by
      rw [kind_of_judge hv hkeep]
      exact fun h => hne (kind_name_inj h.symm)
    rw [judge_of_name_ne hname, judge_of_name_ne (by rwa [settle_kind])]

end Builtin

/-! ### Moving trivia -/

section Trivia

variable {S : Set Node} {s : Supply}

/-- The text of the trivia in front of the first token of a tree. -/
def frontText (n : Node) : Text := (n.firstToken.map Token.leadingText).getD []

/-- What moving the trivia in front of `n` to `t` gives: nothing changes when there is none.
Otherwise a bare token stands in the place of the first one, and a new token in the place of `t`. -/
inductive Moved (S : Set Node) (n : Node) (t : Token) : Node → Token → Prop where
  | kept (h : frontText n = []) : Moved S n t n t
  | moved {first : Token} {n' : Node} {id id' w w' : Nat} (hfirst : n.firstToken = some first)
      (hlead : first.leadingText ≠ [])
      (hbare : .token ⟨id, first.kind, [], first.text, first.trailing, w⟩ ∉ S)
      (hnew : .token ⟨id', t.kind, first.leading ++ t.leading, t.text, t.trailing, w'⟩ ∉ S)
      (hne : id ≠ id')
      (hswap : Pass.Swapped first ⟨id, first.kind, [], first.text, first.trailing, w⟩ n n') :
      Moved S n t n' ⟨id', t.kind, first.leading ++ t.leading, t.text, t.trailing, w'⟩

theorem token_objects (hS : Objects S s) (kind : String) (leading : List Trivia) (text : Text)
    (trailing : List Trivia) :
    ∃ w, (∀ ε, (Token.make kind leading text trailing : Make ε Token) s =
        .ok (⟨s, kind, leading, text, trailing, w⟩, s + 1)) ∧
      .token ⟨s, kind, leading, text, trailing, w⟩ ∉ S ∧
      Objects (insert (.token ⟨s, kind, leading, text, trailing, w⟩) S) (s + 1) := by
  refine ⟨_, fun ε => rfl, fun hmem => ?_, hS.insert rfl nofun (.token ?_)⟩
  · exact absurd (hS.below _ hmem) (Nat.lt_irrefl s)
  · simp only [Token.fullText, Token.leadingText, Token.trailingText, triviaWidth_eq,
      List.length_append]

/-- **Moving trivia** among objects: it never fails. -/
theorem moveLeadingTrivia_moves (hS : Objects S s) {n : Node} {t : Token} (hn : n ∈ S)
    (ht : .token t ∈ S) :
    ∃ n' t' s' S', moveLeadingTrivia n t s = .ok ((n', t'), s') ∧ S ⊆ S' ∧ Objects S' s' ∧
      n' ∈ S' ∧ .token t' ∈ S' ∧ Moved S n t n' t' := by
  unfold moveLeadingTrivia
  cases hfirst : n.firstToken with
  | none => exact ⟨n, t, s, S, rfl, subset_rfl, hS, hn, ht, .kept (by simp [frontText, hfirst])⟩
  | some first =>
      dsimp only
      by_cases hlead : first.leadingText = []
      · rw [if_pos hlead]
        exact ⟨n, t, s, S, rfl, subset_rfl, hS, hn, ht, .kept (by simp [frontText, hfirst, hlead])⟩
      rw [if_neg hlead]
      have hleading : first.leading ≠ [] := fun h => hlead (by simp [Token.leadingText, h, triviaText])
      -- the bare token, the tree with it, and the token that takes the trivia over
      obtain ⟨w, hmake, hbare, hS₁⟩ := token_objects hS first.kind [] first.text first.trailing
      have hsub₁ := Set.subset_insert (.token ⟨s, first.kind, [], first.text, first.trailing, w⟩) S
      have hfirst' : .token first ∈ S := by
        rw [Node.firstToken_eq] at hfirst
        exact Node.token_mem_of_mem_frontier hS.child hn (List.mem_of_head? hfirst)
      obtain ⟨n', s₂, S₂, hreplace, hsub₂, hS₂, hn', hswap⟩ := Pass.replace_token hS₁ (hsub₁ hfirst')
        (Set.mem_insert _ _) rfl rfl (hsub₁ hn)
      obtain ⟨w', hmake', hnew, hS₃⟩ :=
        token_objects hS₂ t.kind (first.leading ++ t.leading) t.text t.trailing
      have hbare₂ := hS₂.below _ (hsub₂ (Set.mem_insert _ _))
      refine ⟨n', _, s₂ + 1, _, ?_, (hsub₁.trans hsub₂).trans (Set.subset_insert _ _), hS₃,
        .inr hn', Set.mem_insert _ _,
        .moved hfirst hlead hbare (fun h => hnew (hsub₂ (hsub₁ h))) (Nat.ne_of_lt hbare₂) hswap⟩
      have hstrip : (first.withLeading [] : Make Failure Token) =
          Token.make first.kind [] first.text first.trailing := if_neg (Ne.symm hleading)
      have htake : (t.withLeading (first.leading ++ t.leading) : Make Failure Token) =
          Token.make t.kind (first.leading ++ t.leading) t.text t.trailing :=
        if_neg (by simpa using hleading)
      rw [hstrip, htake]
      refine Make.bind_eq_ok.mpr ⟨_, s + 1, hmake _, Make.bind_eq_ok.mpr ⟨n', s₂, ?_, ?_⟩⟩
      · show Except.mapError _ _ = _
        rw [hreplace]
        rfl
      · exact Make.bind_eq_ok.mpr ⟨_, s₂ + 1, hmake' _, rfl⟩

end Trivia

/-! ### One call -/

section Calls

variable {c : Composite}

/-- The label `c` with a colon in the place of the token that ends it. -/
def endLabel (c : Composite) (stop : Token) : Make Failure (Option Node) := do
  let colon ← Token.make "colon" stop.leading ":" stop.trailing
  let label ← orFail (c.withSlot "colon" (some (.token colon)))
  return some label.toNode

/-- The field `c` with a question mark in front of its name. -/
def markField (c : Composite) (name : Node) : Make Failure (Option Node) := do
  let mark ← Token.make "question" [] "?" []
  let (name, mark) ← moveLeadingTrivia name mark
  let field ← orFail (c.withSlot "question" (some (.token mark)))
  let field ← orFail (field.withSlot "name" (some name))
  return some field.toNode

/-- What comes out of a call for a composite, by the verdict on it. -/
def Follows (c : Composite) (s : Supply) (o : Except Failure (Option Node × Supply))
    (Changed : Prop) : Verdict → Prop
  | .keep => o = .ok (some c.toNode, s)
  | .refuse => ∃ e, o = .error e
  | .change => Changed

/-- `labelColon` follows its verdict. -/
theorem labelColon_follows {kind : String} {verdict : Verdict}
    (hverdict : judgeLabel kind c.view = verdict) (a : Ancestors) (s : Supply) :
    Follows c s (labelColon kind c.toNode a s)
      (∃ t : Token, c.untyped "colon" = .ok (.token t) ∧
        labelColon kind c.toNode a s = endLabel c t s) verdict := by
  subst hverdict
  have heq : labelColon kind c.toNode a =
      if c.kind.name ≠ kind || !c.has "colon" then pure (some c.toNode)
      else do
        let stop ← looking (c.getToken "colon")
        let colon ← stop.withKindAndText "colon" ":"
        let label ← orFail (c.withSlot "colon" (some (.token colon)))
        return some label.toNode := rfl
  by_cases hskip : c.kind.name ≠ kind ∨ ¬c.has "colon" = true
  · have hjudge : judgeLabel kind c.view = .keep := if_pos (by rwa [← c.has_eq_view])
    rw [hjudge, heq, if_pos (by simpa using hskip)]
    rfl
  rw [heq, if_neg (by simpa using hskip)]
  have hskip : ¬(c.view.kind.name ≠ kind ∨ ¬c.view.has "colon" = true) := by
    rwa [← c.has_eq_view]
  by_cases hlook : c.view.accepts "colon" = true ∧ (c.view.face "colon").nodeClass = .token
  · obtain ⟨t, hget⟩ := Composite.exists_getToken_iff.mpr hlook
    have hm := (Composite.get_eq_ok_iff.mp (Composite.getToken_eq_ok_iff.mp hget)).2
    have hface := Composite.face_view hm
    rw [Make.bind_apply, looking_eq_ok_iff (r := (t, s)).mpr ⟨hget, rfl⟩]
    dsimp only
    by_cases hcolon : t.kind = "colon" ∧ t.text = Text.ofString ":"
    · have hjudge : judgeLabel kind c.view = .keep := by
        rw [judgeLabel, if_neg hskip, if_neg (not_not_intro hlook), if_pos]
        rw [hface, Node.face, colonFace]
        simp [Node.nodeClass, Node.kind, Node.token?, hcolon]
      rw [hjudge, Token.withKindAndText, if_pos hcolon]
      -- a colon is put into its slot again, which gives the label itself
      refine Make.bind_eq_ok.mpr ⟨t, s, rfl, Make.bind_eq_ok.mpr ⟨c, s, ?_, rfl⟩⟩
      exact orFail_eq_ok_iff.mpr (Composite.withSlot_self hm s)
    · have hjudge : judgeLabel kind c.view = .change := by
        rw [judgeLabel, if_neg hskip, if_neg (not_not_intro hlook), if_neg]
        rw [hface, Node.face, colonFace]
        simpa [Node.nodeClass, Node.kind, Node.token?] using hcolon
      rw [hjudge, Token.withKindAndText, if_neg hcolon]
      exact ⟨t, hm, rfl⟩
  · have hjudge : judgeLabel kind c.view = .refuse := by
      rw [judgeLabel, if_neg hskip, if_pos hlook]
    rw [hjudge]
    cases hget : c.getToken "colon" with
    | error e => exact ⟨_, rfl⟩
    | ok t => exact absurd (Composite.exists_getToken_iff.mp ⟨t, hget⟩) hlook

/-- `optionalField` follows its verdict. -/
theorem optionalField_follows {verdict : Verdict} (hverdict : judgeField c.view = verdict)
    (a : Ancestors) (s : Supply) :
    Follows c s (optionalField c.toNode a s)
      (∃ name : Composite, c.untyped "name" = .ok name.toNode ∧
        optionalField c.toNode a s = markField c name.toNode s) verdict := by
  subst hverdict
  have heq : optionalField c.toNode a =
      if c.kind.name ≠ "field_specifier" || c.has "question" then pure (some c.toNode)
      else (do
        let type ← looking (c.get "type")
        if type.kind ≠ "nullable_type_specifier" then return some c.toNode
        let name ← looking (c.getComposite "name")
        markField c name.toNode) := rfl
  by_cases hskip : c.kind.name ≠ "field_specifier" ∨ c.has "question" = true
  · have hjudge : judgeField c.view = .keep := if_pos (by rwa [← c.has_eq_view])
    rw [hjudge, heq, if_pos (by simpa using hskip)]
    rfl
  rw [heq, if_neg (by simpa using hskip)]
  have hskip : ¬(c.view.kind.name ≠ fieldKind.name ∨ c.view.has "question" = true) := by
    rwa [← c.has_eq_view]
  by_cases htype : c.view.accepts "type" = true
  · obtain ⟨type, hm, hget⟩ := Composite.get_of_accepts htype
    have hkind : (c.view.face "type").kind = type.kind := by rw [Composite.face_view hm]; rfl
    rw [Make.bind_apply, looking_eq_ok_iff (r := (type, s)).mpr ⟨hget, rfl⟩]
    dsimp only
    by_cases hnullable : type.kind ≠ "nullable_type_specifier"
    · have hjudge : judgeField c.view = .keep := by
        rw [judgeField, if_neg hskip, if_neg (not_not_intro htype), if_pos (by rwa [hkind])]
      rw [hjudge, if_pos hnullable]
      rfl
    rw [if_neg hnullable]
    have hjudge : judgeField c.view =
        if c.view.accepts "name" ∧ (c.view.face "name").nodeClass = .composite then .change
        else .refuse := by
      rw [judgeField, if_neg hskip, if_neg (not_not_intro htype), if_neg (by rwa [hkind])]
    rw [hjudge]
    by_cases hname : c.view.accepts "name" = true ∧ (c.view.face "name").nodeClass = .composite
    · obtain ⟨name, hget⟩ := Composite.exists_getComposite_iff.mpr hname
      have hm := (Composite.get_eq_ok_iff.mp (Composite.getComposite_eq_ok_iff.mp hget)).2
      rw [if_pos hname]
      refine ⟨name, hm, ?_⟩
      rw [Make.bind_apply, looking_eq_ok_iff (r := (name, s)).mpr ⟨hget, rfl⟩]
    · rw [if_neg hname]
      cases hget : c.getComposite "name" with
      | error e => exact ⟨_, rfl⟩
      | ok name => exact absurd (Composite.exists_getComposite_iff.mp ⟨name, hget⟩) hname
  · have hjudge : judgeField c.view = .refuse := by
      rw [judgeField, if_neg hskip, if_pos htype]
    rw [hjudge]
    cases hget : c.get "type" with
    | error e => exact ⟨_, rfl⟩
    | ok type => exact absurd (Composite.get_eq_ok_iff.mp hget).1 htype

variable {S : Set Node} {s : Supply}

/-- A new colon, with the trivia of the token that it takes the place of. -/
def Ends (S : Set Node) (stop colon : Token) : Prop :=
  ∃ id w, colon = ⟨id, "colon", stop.leading, ":", stop.trailing, w⟩ ∧ .token colon ∉ S

/-- A label among objects gets its colon. -/
theorem endLabel_ends (hS : Objects S s) (hc : c.toNode ∈ S) {i : Nat} {sl : Slot}
    (hslot : c.kind.slot? "colon" = some (i, sl)) (stop : Token) :
    ∃ (c' : Composite) (s' : Supply) (S' : Set Node) (colon : Token),
      endLabel c stop s = .ok (some c'.toNode, s') ∧ S ⊆ S' ∧ Objects S' s' ∧ c'.toNode ∈ S' ∧
        Ends S stop colon ∧ c'.kind = c.kind ∧
        c'.children = c.children.set i (.token colon) := by
  obtain ⟨w, hmake, hnew, hS₁⟩ := token_objects hS "colon" stop.leading ":" stop.trailing
  have hsub := Set.subset_insert (.token ⟨s, "colon", stop.leading, ":", stop.trailing, w⟩) S
  obtain ⟨c', s', S', hwith, hsub', hS', hmem, hkind, hchildren⟩ :=
    Composite.withSlot_objects hS₁ (hsub hc) (Set.mem_insert _ _) hslot
  refine ⟨c', s', S', _, ?_, hsub.trans hsub', hS', hmem, ⟨s, w, rfl, hnew⟩, hkind, hchildren⟩
  refine Make.bind_eq_ok.mpr ⟨_, s + 1, hmake _, Make.bind_eq_ok.mpr ⟨c', s', ?_, rfl⟩⟩
  exact orFail_eq_ok_iff.mpr hwith

/-- `mark` is a new question mark, which has taken over the trivia in front of `name`. -/
def Marks (S : Set Node) (name : Node) (mark : Token) (name' : Node) : Prop :=
  ∃ id w S₁, S ⊆ S₁ ∧ .token ⟨id, "question", [], "?", [], w⟩ ∉ S ∧
    Moved S₁ name ⟨id, "question", [], "?", [], w⟩ name' mark

/-- A field among objects gets its question mark. -/
theorem markField_marks (hS : Objects S s) (hc : c.toNode ∈ S) (hk : c.kind = fieldKind)
    {q name arrow type : Node} (hcs : c.children = [q, name, arrow, type]) :
    ∃ (c' : Composite) (s' : Supply) (S' : Set Node) (mark : Token) (name' : Node),
      markField c name s = .ok (some c'.toNode, s') ∧ S ⊆ S' ∧ Objects S' s' ∧ c'.toNode ∈ S' ∧
        c'.kind = fieldKind ∧ c'.children = [.token mark, name', arrow, type] ∧
        Marks S name mark name' := by
  have hname : name ∈ S := hS.child _ hc name (by simp [Composite.toNode, Node.children, hcs])
  obtain ⟨w, hmake, hnew, hS₁⟩ := token_objects hS "question" [] "?" []
  have hsub₁ := Set.subset_insert (.token ⟨s, "question", [], "?", [], w⟩) S
  obtain ⟨name', mark, s₂, S₂, hmove, hsub₂, hS₂, hname', hmark, hmoved⟩ :=
    moveLeadingTrivia_moves hS₁ (hsub₁ hname) (Set.mem_insert _ _)
  -- the mark is put into its slot first, then the name without its trivia
  obtain ⟨sl₁, hslot₁⟩ : ∃ sl, c.kind.slot? "question" = some (0, sl) := by
    rw [hk]
    exact ⟨_, rfl⟩
  obtain ⟨c₁, s₃, S₃, hfirst, hsub₃, hS₃, hc₁, hkind₁, hcs₁⟩ :=
    Composite.withSlot_objects hS₂ (hsub₂ (hsub₁ hc)) hmark hslot₁
  obtain ⟨sl₂, hslot₂⟩ : ∃ sl, c₁.kind.slot? "name" = some (1, sl) := by
    rw [hkind₁, hk]
    exact ⟨_, rfl⟩
  obtain ⟨c₂, s₄, S₄, hsecond, hsub₄, hS₄, hc₂, hkind₂, hcs₂⟩ :=
    Composite.withSlot_objects hS₃ hc₁ (hsub₃ hname') hslot₂
  refine ⟨c₂, s₄, S₄, mark, name', ?_, ((hsub₁.trans hsub₂).trans hsub₃).trans hsub₄, hS₄, hc₂,
    by rw [hkind₂, hkind₁, hk], by rw [hcs₂, hcs₁, hcs]; rfl, s, w, _, hsub₁, hnew, hmoved⟩
  refine Make.bind_eq_ok.mpr ⟨_, s + 1, hmake _, Make.bind_eq_ok.mpr ⟨_, s₂, hmove, ?_⟩⟩
  refine Make.bind_eq_ok.mpr ⟨c₁, s₃, orFail_eq_ok_iff.mpr hfirst, ?_⟩
  exact Make.bind_eq_ok.mpr ⟨c₂, s₄, orFail_eq_ok_iff.mpr hsecond, rfl⟩

/-- A node that a step keeps is returned as it is. -/
theorem Builtin.call_keep {b : Builtin} {n : Node} (h : ∀ v, n.view? = some v → b.judge v = .keep)
    (a : Ancestors) (s : Supply) : b.step.transform n a s = .ok (some n, s) := by
  cases n with
  | missing | token _ | list _ _ _ => cases b <;> rfl
  | composite id k cs w =>
      have hjudge : b.judge (Composite.view ⟨id, k, cs, w⟩) = .keep := h _ rfl
      cases b with
      | optionalField => exact optionalField_follows hjudge a s
      | defaultColon | caseColon => exact labelColon_follows hjudge a s

/-- A composite that a step refuses makes it fail. -/
theorem Builtin.call_refuse {b : Builtin} (h : b.judge c.view = .refuse) (a : Ancestors)
    (s : Supply) : ∃ e, b.step.transform c.toNode a s = .error e := by
  cases b with
  | optionalField => exact optionalField_follows h a s
  | defaultColon | caseColon => exact labelColon_follows h a s

theorem Moved.same {S : Set Node} {n n' : Node} {t t' : Token} (h : Moved S n t n' t') :
    (n'.face = n.face ∧ n'.views = n.views) ∧ (Node.token t').face = (Node.token t).face := by
  cases h with
  | kept _ => exact ⟨⟨rfl, rfl⟩, rfl⟩
  | moved _ _ _ _ _ hswap => exact ⟨⟨hswap.face, hswap.views⟩, rfl⟩

/-- The children of a field. -/
theorem field_children {K : Kind → Prop} (hsound : c.toNode.Sound K) (hk : c.kind = fieldKind) :
    ∃ q name arrow type, c.children = [q, name, arrow, type] := by
  obtain ⟨-, hlen, -, -⟩ := Node.sound_composite_iff.mp hsound
  rw [hk] at hlen
  exact List.length_eq_four.mp hlen

/-- What a field looks like that gets a question mark. -/
theorem field_of_change (hsound : c.toNode.Sound fun _ => True)
    (hk : c.kind ∈ Catalog.hack.kinds) (h : judgeField c.view = .change) :
    c.kind = fieldKind ∧ ∃ name arrow type, c.children = [.missing, name, arrow, type] := by
  have hkind : c.kind = fieldKind :=
    Builtin.kind_of_judge (b := .optionalField) (v := c.view) hk (by rw [Builtin.judge, h]; decide)
  obtain ⟨q, name, arrow, type, hcs⟩ := field_children hsound hkind
  have hquestion : c.has "question" = false := by
    rw [c.has_eq_view]
    by_contra hhas
    rw [judgeField, if_pos (.inr (by simpa using hhas))] at h
    cases h
  have hhas : c.has "question" = !q.isMissing := by
    unfold Composite.has
    rw [hkind, hcs]
    rfl
  cases q with
  | missing => exact ⟨hkind, name, arrow, type, hcs⟩
  | token _ | list _ _ _ | composite _ _ _ _ => cases hhas.symm.trans hquestion

/-- **A field that is changed** gets a question mark in front of its name. -/
theorem optionalField_change (hS : Objects S s) (hc : c.toNode ∈ S) (hk : c.kind = fieldKind)
    {name arrow type : Node} (hcs : c.children = [.missing, name, arrow, type])
    (h : judgeField c.view = .change) (a : Ancestors) :
    ∃ (c' : Composite) (s' : Supply) (S' : Set Node) (mark : Token) (name' : Node),
      optionalField c.toNode a s = .ok (some c'.toNode, s') ∧ S ⊆ S' ∧ Objects S' s' ∧
        c'.toNode ∈ S' ∧ c'.kind = fieldKind ∧ c'.children = [.token mark, name', arrow, type] ∧
        Marks S name mark name' := by
  obtain ⟨n, hn, hcall⟩ := optionalField_follows h a s
  have hname : c.untyped "name" = .ok name := by
    unfold Composite.untyped
    rw [hk, hcs]
    rfl
  obtain rfl : name = n.toNode := Except.ok.inj (hname.symm.trans hn)
  rw [hcall]
  exact markField_marks hS hc hk hcs

/-- What a step makes of a composite that it changes: an object with the settled view, below which
nothing looks different. -/
def Builtin.Settles (b : Builtin) (S : Set Node) (c : Composite)
    (o : Except Failure (Option Node × Supply)) : Prop :=
  ∃ (c' : Composite) (s' : Supply) (S' : Set Node), o = .ok (some c'.toNode, s') ∧ S ⊆ S' ∧
    Objects S' s' ∧ c'.toNode ∈ S' ∧ c'.kind = c.kind ∧ c'.view = b.settle c.view ∧
    Node.viewsAll c'.children = Node.viewsAll c.children

/-- **A label that is changed** gets a colon in the place of the token that ends it. -/
theorem labelColon_change {kind : String} (hS : Objects S s) (hc : c.toNode ∈ S) {i : Nat}
    {sl : Slot} (hslot : c.kind.slot? "colon" = some (i, sl))
    (h : judgeLabel kind c.view = .change) (a : Ancestors) :
    ∃ (c' : Composite) (s' : Supply) (S' : Set Node) (stop colon : Token),
      labelColon kind c.toNode a s = .ok (some c'.toNode, s') ∧ S ⊆ S' ∧ Objects S' s' ∧
        c'.toNode ∈ S' ∧ c'.kind = c.kind ∧ c'.children = c.children.set i (.token colon) ∧
        c.children[i]? = some (.token stop) ∧ Ends S stop colon := by
  obtain ⟨stop, hstop, hcall⟩ := labelColon_follows h a s
  obtain ⟨c', s', S', colon, hend, hsub, hS', hmem, hcolon, hkind, hcs⟩ :=
    endLabel_ends hS hc hslot stop
  refine ⟨c', s', S', stop, colon, hcall.trans hend, hsub, hS', hmem, hkind, hcs, ?_, hcolon⟩
  -- the slot holds a token, so there is a child at its position
  rw [Composite.untyped_of_slot hslot, List.getD_eq_getElem?_getD] at hstop
  cases hi : c.children[i]? with
  | none => rw [hi] at hstop; cases hstop
  | some m => rw [hi] at hstop; cases hstop; rfl

theorem labelColon_settles {b : Builtin} {kind : String} (hslot : b.slot = "colon")
    (hfilling : b.filling = colonFace) (hjudge : b.judge = judgeLabel kind) (hS : Objects S s)
    (hc : c.toNode ∈ S) (hk : c.kind = b.kind) (h : b.judge c.view = .change) (a : Ancestors) :
    b.Settles S c (labelColon kind c.toNode a s) := by
  obtain ⟨i, sl, hs, -⟩ := b.exists_slot
  rw [← hk, hslot] at hs
  obtain ⟨c', s', S', stop, colon, hcall, hsub, hS', hmem, hkind, hcs, hstop, _, _, rfl, -⟩ :=
    labelColon_change hS hc hs (hjudge ▸ h) a
  refine ⟨c', s', S', hcall, hsub, hS', hmem, hkind, ?_, ?_⟩
  · rw [Composite.view_of_set hs hkind hcs, Builtin.settle_of_change h, hslot, hfilling]
    rfl
  · rw [hcs]
    exact Node.viewsAll_set hstop rfl

theorem optionalField_settles (hS : Objects S s) (hc : c.toNode ∈ S)
    (hk : c.kind ∈ Catalog.hack.kinds) (h : judgeField c.view = .change) (a : Ancestors) :
    Builtin.optionalField.Settles S c (optionalField c.toNode a s) := by
  obtain ⟨hkind, name, arrow, type, hcs⟩ := field_of_change (hS.sound _ hc) hk h
  obtain ⟨c', s', S', mark, name', hcall, hsub, hS', hmem, hkind', hcs', hmarks⟩ :=
    optionalField_change hS hc hkind hcs h a
  obtain ⟨_, _, _, -, -, hmoved⟩ := hmarks
  obtain ⟨⟨hface, hviews⟩, hmark⟩ := hmoved.same
  refine ⟨c', s', S', hcall, hsub, hS', hmem, hkind'.trans hkind.symm, ?_, ?_⟩
  · have hview : c.view = ⟨fieldKind, [Node.missing.face, name.face, arrow.face, type.face]⟩ := by
      simp [Composite.view, hkind, hcs]
    have hview' : c'.view =
        ⟨fieldKind, [(Node.token mark).face, name'.face, arrow.face, type.face]⟩ := by
      simp [Composite.view, hkind', hcs']
    rw [Builtin.settle_of_change (b := .optionalField) h, hview', hview, hface, hmark]
    rfl
  · rw [hcs, hcs']
    simp only [Node.viewsAll_cons, hviews]
    rfl

/-- **A composite that a step changes** becomes one with the settled view. -/
theorem Builtin.call_change {b : Builtin} (hS : Objects S s) (hc : c.toNode ∈ S)
    (hk : c.kind ∈ Catalog.hack.kinds) (h : b.judge c.view = .change) (a : Ancestors) :
    b.Settles S c (b.step.transform c.toNode a s) := by
  have hkind : c.kind = b.kind := kind_of_judge (v := c.view) hk (by rw [h]; decide)
  cases b with
  | optionalField => exact optionalField_settles hS hc hk h a
  | defaultColon | caseColon => exact labelColon_settles rfl rfl rfl hS hc hkind h a

end Calls

end Migration

end Lossless
