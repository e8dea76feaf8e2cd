import Lossless.Proofs.Migration.Settling
import Lossless.Proofs.Pass.Rewriting

/-!
# Migration — what ending labels with colons does

A step that ends the labels of a kind follows a rule on descriptions: the token in the colon slot of a
label becomes a colon, with the same trivia around it (`labelRule`, `Builtin.pass_rewrites`).  The rule
of the migration is that of both kinds at once (`labelColons_rewrites`), and it changes what stands at
a position only when that is the colon slot of a label (`at?_labelRule`).

**Effect** (`labelColons_effect`).  The migration succeeds exactly when no label ends with something
else than a colon or a semicolon.  Its result has the shape of the tree, and only tokens that end a
label differ.
-/

namespace Lossless

namespace Migration

open Catalog (defaultKind caseKind)

/-! ### The rule -/

/-- A token as a colon with the same trivia. What is no token stays as it is. -/
def toColon : Description Text → Description Text
  | .token _ leading _ trailing => .token "colon" leading ":" trailing
  | d => d

/-- The rule that ends the labels of the given kinds with a colon. -/
def labelRule (kinds : List String) : Description.Rule Text := fun k ds =>
  if k.name ∈ kinds then
    match k.slot? "colon" with
    | some (i, _) => ds.modify i toColon
    | none => ds
  else ds

/-- Whether a child with this number ends a label of one of the given kinds. -/
def isEnd (kinds : List String) (k : Kind) (i : Nat) : Bool :=
  decide (k.name ∈ kinds) && (k.slot? "colon").map (·.1) == some i

variable {kinds : List String} {k : Kind} {ds : List (Description Text)} {f : Description.Rule Text}

theorem labelRule_of_not_mem (h : k.name ∉ kinds) : labelRule kinds k ds = ds := if_neg h

theorem rewrite_toColon (f : Description.Rule Text) (d : Description Text) :
    (toColon d).rewrite f = toColon (d.rewrite f) := by
  cases d <;> rfl

theorem toColon_children (d : Description Text) : (toColon d).children = d.children := by
  cases d <;> rfl

/-- The rule does not mind whether the children were rewritten before. -/
theorem map_labelRule (f : Description.Rule Text) (kinds : List String) (k : Kind)
    (ds : List (Description Text)) :
    (labelRule kinds k ds).map (·.rewrite f) = labelRule kinds k (ds.map (·.rewrite f)) := by
  unfold labelRule
  split
  · split
    · refine List.ext_getElem? fun j => ?_
      simp only [List.getElem?_map, List.getElem?_modify]
      cases ds[j]? with
      | none => rfl
      | some d =>
          simp only [Option.map_some, Option.map_eq_map]
          split
          · rw [rewrite_toColon]
          · rfl
    · rfl
  · rfl

theorem getElem?_labelRule (i : Nat) :
    (labelRule kinds k ds)[i]? = ds[i]?.map (if isEnd kinds k i then toColon else id) := by
  unfold labelRule isEnd
  by_cases hk : k.name ∈ kinds
  · rw [if_pos hk]
    cases hs : k.slot? "colon" with
    | none => simp
    | some p =>
        dsimp only
        rw [List.getElem?_modify]
        by_cases hi : p.1 = i <;> simp [hk, hi]
  · simp [hk]

/-- Labels of one kind after those of another are labels of both kinds. -/
theorem labelRule_labelRule {a b : String} (hne : a ≠ b) :
    (fun k ds => labelRule [b] k (labelRule [a] k ds)) = labelRule [a, b] := by
  funext k ds
  by_cases ha : k.name = a
  · rw [labelRule_of_not_mem (by simp [ha, hne] : k.name ∉ [b])]
    simp [labelRule, ha]
  · rw [labelRule_of_not_mem (by simp [ha] : k.name ∉ [a])]
    simp [labelRule, ha]

/-! ### Positions -/

/-- Whether a position is that of the end of a label of one of the given kinds. -/
def endsLabel (kinds : List String) (n : Node) (p : Position) : Bool :=
  match n.at? p.dropLast, p.getLast? with
  | some (.composite _ k _ _), some i => isEnd kinds k i
  | _, _ => false

theorem endsLabel_cons {n c : Node} {i j : Nat} (hc : n.children[i]? = some c) (p : Position) :
    endsLabel kinds n (i :: j :: p) = endsLabel kinds c (j :: p) := by
  rw [endsLabel, endsLabel, List.dropLast_cons_cons, Node.at?_cons hc, List.getLast?_cons_cons]

/-- The children of a tree whose labels are ended. -/
theorem children_labelRule (n : Node) (i : Nat) :
    (n.description.rewrite (labelRule kinds)).children[i]? =
      n.children[i]?.map fun c => (if endsLabel kinds n [i] then toColon else id)
        (c.description.rewrite (labelRule kinds)) := by
  cases n with
  | missing | token _ => rfl
  | list id items w =>
      rw [Node.description, Node.descriptionAll_eq_map, Description.rewrite_list,
        Description.children, List.map_map, List.getElem?_map]
      rfl
  | composite id k cs w =>
      rw [Node.description_composite, Description.rewrite_composite, Description.children,
        getElem?_labelRule, List.map_map, List.getElem?_map, Option.map_map]
      rfl

/-- **What stands at a position** of a tree whose labels are ended: only what ends a label became a
colon. -/
theorem at?_labelRule (kinds : List String) (n : Node) (p : Position) :
    (n.description.rewrite (labelRule kinds)).at? p =
      (n.at? p).map fun m => (if endsLabel kinds n p then toColon else id)
        (m.description.rewrite (labelRule kinds)) := by
  induction p generalizing n with
  | nil => simp [Description.at?, endsLabel]
  | cons i p ih =>
      rw [Description.at?, Node.at?, children_labelRule]
      cases hc : n.children[i]? with
      | none => rfl
      | some c =>
          cases p with
          | nil => rfl
          | cons j p =>
              rw [endsLabel_cons hc]
              refine Eq.trans ?_ (ih c)
              -- the children of what became a colon are none, before and after
              show Description.at? _ (j :: p) = Description.at? _ (j :: p)
              split
              · rw [Description.at?, Description.at?, toColon_children]
              · rfl

/-! ### The pass -/

section Calls

variable {S : Set Node} {s s' : Supply} {c : Composite} {kind : String} {n r : Node} {a : Ancestors}

/-- A label that is changed is of the kind, and has a slot for its end. -/
theorem slot_of_change (h : judgeLabel kind c.view = .change) :
    c.kind.name = kind ∧ ∃ i sl, c.kind.slot? "colon" = some (i, sl) := by
  have hlabel : c.kind.name = kind ∧ c.view.has "colon" = true := by
    unfold judgeLabel at h
    split at h
    · cases h
    · next hskip =>
        rw [not_or, not_not, not_not] at hskip
        exact hskip
  refine ⟨hlabel.1, ?_⟩
  cases hslot : c.kind.slot? "colon" with
  | none =>
      have hnone : c.view.has "colon" = false := by simp only [View.has, Composite.view, hslot]
      cases hnone.symm.trans hlabel.2
  | some p => exact ⟨p.1, p.2, rfl⟩

theorem face_of_judgeLabel {v : View} (h : judgeLabel kind v = .keep) (hname : v.kind.name = kind)
    (hhas : v.has "colon" = true) : v.face "colon" = colonFace := by
  unfold judgeLabel at h
  grind

/-- A label that is kept ends with a colon, or with nothing. -/
theorem labelRule_of_keep (h : judgeLabel kind c.view = .keep) :
    labelRule [kind] c.kind (c.children.map Node.description) = c.children.map Node.description := by
  refine List.ext_getElem? fun i => ?_
  rw [getElem?_labelRule, List.getElem?_map]
  cases hm : c.children[i]? with
  | none => rfl
  | some m =>
      rw [Option.map_some, Option.map_some, Option.some.injEq]
      split
      · next hend =>
          simp only [isEnd, List.mem_singleton, Bool.and_eq_true, decide_eq_true_eq, beq_iff_eq,
            Option.map_eq_some_iff] at hend
          obtain ⟨hname, ⟨_, sl⟩, hslot, rfl⟩ := hend
          have hface : c.view.face "colon" = m.face := by
            refine Composite.face_view ?_
            rw [Composite.untyped_of_slot hslot, List.getD_eq_getElem?_getD, hm]
            rfl
          have hhas : c.view.has "colon" = decide (m.nodeClass ≠ .missing) := by
            rw [View.has, show c.view.kind.slot? "colon" = _ from hslot]
            dsimp only
            rw [hface]
            rfl
          cases m with
          | missing | list _ _ _ | composite _ _ _ _ => rfl
          | token t =>
              have hcolon := face_of_judgeLabel h hname hhas
              rw [hface] at hcolon
              have hkind : t.kind = "colon" := congrArg Face.kind hcolon
              have htext : t.text = Text.ofString ":" := Option.some.inj (congrArg Face.text hcolon)
              simp only [Node.description, toColon, hkind, htext]
      · rfl

/-- A composite with another child in a slot. -/
theorem labelRule_of_change {i : Nat} {sl : Slot} {stop : Node} (hname : c.kind.name = kind)
    (hslot : c.kind.slot? "colon" = some (i, sl)) (hstop : c.children[i]? = some stop) :
    labelRule [kind] c.kind (c.children.map Node.description) =
      (c.children.map Node.description).set i (toColon stop.description) := by
  have hold : (c.children.map Node.description)[i]? = some stop.description := by
    rw [List.getElem?_map, hstop]
    rfl
  rw [labelRule, if_pos (List.mem_singleton.mpr hname), hslot]
  dsimp only
  rw [List.modify_eq_set_getElem?, hold]
  rfl

theorem labelColon_rewrites_composite (hS : Objects S s) (hc : c.toNode ∈ S)
    (h : labelColon kind c.toNode a s = .ok (some r, s')) :
    r.description = .composite c.kind (labelRule [kind] c.kind (c.children.map Node.description)) := by
  cases hverdict : judgeLabel kind c.view with
  | keep =>
      have hcall : labelColon kind c.toNode a s = .ok (some c.toNode, s) :=
        labelColon_follows hverdict a s
      cases hcall.symm.trans h
      rw [labelRule_of_keep hverdict]
      exact Node.description_composite _ _ _ _
  | refuse =>
      obtain ⟨e, he⟩ := labelColon_follows hverdict a s
      cases he.symm.trans h
  | change =>
      obtain ⟨hname, _, _, hslot⟩ := slot_of_change hverdict
      obtain ⟨c', _, _, stop, _, hcall, -, -, -, hkind, hcs, hstop, _, _, rfl, -⟩ :=
        labelColon_change hS hc hslot hverdict a
      cases hcall.symm.trans h
      rw [Composite.toNode, Node.description_composite, hkind, hcs, List.map_set,
        labelRule_of_change hname hslot hstop]
      rfl

/-- **A call for a label** follows the rule. -/
theorem labelColon_rewrites (hS : Objects S s) (hn : n ∈ S)
    (h : labelColon kind n a s = .ok (some r, s')) :
    r.description = n.description.atTop (labelRule [kind]) := by
  cases n with
  | missing | token _ | list _ _ _ =>
      cases h
      rfl
  | composite id k cs w =>
      rw [labelColon_rewrites_composite (c := ⟨id, k, cs, w⟩) hS hn h, Node.description_composite]
      rfl

/-- **A pass that ends the labels of a kind** follows the rule, on top of what every built-in step
does. -/
theorem labelColon_pass {b : Builtin} (hb : b.step.transform = labelColon kind) (h : Ready S s n) :
    (∃ e, b.step.apply n s = .error e ∧ ¬b.Admits n) ∨
      ∃ r s' S', b.step.apply n s = .ok (r, s') ∧ Ready S' s' r ∧ Settled b n r ∧
        r.description = n.description.rewrite (labelRule [kind]) := by
  have hmakes := (b.makes h.views).rewriting (f := labelRule [kind])
    fun _ _ _ _ hmem hobjects hcall => labelColon_rewrites hobjects hmem (hb ▸ hcall)
  obtain ⟨S', -, hS', ⟨e, he, v, hv, hrefuse⟩ | ⟨r, hr, hmem, hsettled, hrewrite⟩⟩ :=
    applyWithStats_makes hmakes h.objects h.mem
  · exact .inl ⟨e, step_apply_error he, fun hadmits => hadmits v hv hrefuse⟩
  · exact .inr ⟨r, _, S', step_apply_ok hr, hsettled.ready h hS' hmem, hsettled, hrewrite⟩

end Calls

/-! ### The migration -/

/-- The kinds of labels. -/
def labelKinds : List String := [defaultKind.name, caseKind.name]

/-- What may stand at the end of a label: nothing, a colon, or a semicolon. -/
inductive LabelEnd : Node → Prop where
  | missing : LabelEnd .missing
  | token {t : Token} (h : t.kind = "colon" ∨ t.kind = "semicolon") : LabelEnd (.token t)

/-- Every label of a tree ends with nothing, a colon, or a semicolon. -/
def LabelsEnd (n : Node) : Prop :=
  ∀ m ∈ n.postOrder, ∀ c ∈ m.composite?, c.kind.name ∈ labelKinds →
    ∃ e, c.untyped "colon" = .ok e ∧ LabelEnd e

variable {S : Set Node} {s : Supply} {n : Node} {c : Composite} {kind : String}

theorem judgeLabel_ne_refuse {v : View} (hname : v.kind.name = kind) :
    judgeLabel kind v ≠ .refuse ↔ (v.has "colon" = true →
      v.accepts "colon" = true ∧ (v.face "colon").nodeClass = .token) := by
  unfold judgeLabel
  grind

theorem labelEnds_accepts (cls : NodeClass) (kind : String) :
    Catalog.labelEnds.accepts cls kind = true ↔
      cls = .token ∧ (kind = "colon" ∨ kind = "semicolon") := by
  simp [VariantSet.accepts, Catalog.labelEnds, Variant.matches?]
  grind

/-- A label is not refused exactly when it ends with nothing, a colon, or a semicolon. -/
theorem judgeLabel_ne_refuse_iff {i : Nat} {key : String} (hname : c.kind.name = kind)
    (hslot : c.kind.slot? "colon" = some (i, ⟨"colon", key, Catalog.labelEnds⟩)) :
    judgeLabel kind c.view ≠ .refuse ↔ ∃ e, c.untyped "colon" = .ok e ∧ LabelEnd e := by
  have hview : c.view.kind.slot? "colon" = some (i, ⟨"colon", key, Catalog.labelEnds⟩) := hslot
  have huntyped := Composite.untyped_of_slot hslot
  generalize c.children.getD i .missing = e at huntyped
  have hface := Composite.face_view huntyped
  have hhas : c.view.has "colon" = decide (e.nodeClass ≠ .missing) := by
    rw [View.has, hview]
    dsimp only
    rw [hface]
    rfl
  have haccepts : c.view.accepts "colon" = Catalog.labelEnds.accepts e.nodeClass e.kind := by
    rw [View.accepts, hview]
    dsimp only
    rw [hface]
    rfl
  -- the verdict depends on the child in the slot only
  have hend : judgeLabel kind c.view ≠ .refuse ↔ LabelEnd e := by
    rw [judgeLabel_ne_refuse hname, hhas, haccepts, hface, labelEnds_accepts, decide_eq_true_eq]
    constructor
    · intro h
      cases e with
      | missing => exact .missing
      | token t => exact .token (h (by rintro ⟨⟩)).1.2
      | list _ _ _ | composite _ _ _ _ => cases (h (by rintro ⟨⟩)).2
    · rintro h hpresent
      cases h with
      | missing => exact absurd rfl hpresent
      | token h => exact ⟨⟨rfl, h⟩, rfl⟩
  rw [hend]
  constructor
  · intro h
    exact ⟨e, huntyped, h⟩
  · rintro ⟨e', he', h⟩
    cases huntyped.symm.trans he'
    exact h

theorem label_admits_iff {b : Builtin} {i : Nat} {key : String}
    (hjudge : b.judge = judgeLabel b.kind.name)
    (hslot : b.kind.slot? "colon" = some (i, ⟨"colon", key, Catalog.labelEnds⟩)) (h : OfHack n) :
    b.Admits n ↔ ∀ m ∈ n.postOrder, ∀ c ∈ m.composite?, c.kind.name = b.kind.name →
      ∃ e, c.untyped "colon" = .ok e ∧ LabelEnd e := by
  have hlabel : ∀ c : Composite, c.view ∈ n.views → c.kind.name = b.kind.name →
      (b.judge c.view ≠ .refuse ↔ ∃ e, c.untyped "colon" = .ok e ∧ LabelEnd e) := by
    intro c hc hname
    have hkind : c.kind = b.kind := Catalog.eq_of_mem_hack (h _ hc).1 b.kind_mem hname
    rw [hjudge]
    exact judgeLabel_ne_refuse_iff hname (hkind ▸ hslot)
  constructor
  · intro hadmits m hm c hc hname
    cases m with
    | composite id k cs w =>
        cases hc
        have hview : (Composite.view ⟨id, k, cs, w⟩) ∈ n.views := List.mem_filterMap.mpr ⟨_, hm, rfl⟩
        exact (hlabel ⟨id, k, cs, w⟩ hview hname).mp (hadmits _ hview)
    | _ => cases hc
  · intro hends v hv
    obtain ⟨m, hm, hmv⟩ := List.mem_filterMap.mp hv
    obtain ⟨c, rfl, rfl⟩ := exists_composite hmv
    by_cases hname : c.kind.name = b.kind.name
    · exact (hlabel c hv hname).mpr (hends _ hm c rfl hname)
    · rw [Builtin.judge_of_name_ne hname]
      decide

theorem labelsEnd_iff (h : OfHack n) :
    (∀ b ∈ [Builtin.defaultColon, .caseColon], b.Admits n) ↔ LabelsEnd n := by
  rw [List.forall_mem_cons, List.forall_mem_singleton, label_admits_iff rfl rfl h,
    label_admits_iff rfl rfl h]
  simp only [LabelsEnd, labelKinds, List.mem_cons, List.not_mem_nil, or_false, or_imp]
  constructor
  · exact fun ⟨hdefault, hcase⟩ m hm c hc => ⟨hdefault m hm c hc, hcase m hm c hc⟩
  · exact fun hends => ⟨fun m hm c hc => (hends m hm c hc).1, fun m hm c hc => (hends m hm c hc).2⟩

/-- **The migration** succeeds when all labels end well, and then follows the rule of both kinds of
labels at once. -/
theorem labelColons_rewrites (h : Ready S s n) :
    (∃ e, labelColons.apply n s = .error e ∧ ¬LabelsEnd n) ∨
      ∃ r s', labelColons.apply n s = .ok (r, s') ∧ LabelsEnd n ∧
        r.description = n.description.rewrite (labelRule labelKinds) := by
  have happly : labelColons.apply n s =
      ((Builtin.defaultColon.step.apply n >>= Builtin.caseColon.step.apply) s).mapError
        (⟨labelColons.name, ·⟩) := by
    have hsteps : applySteps labelColons.steps n =
        Builtin.defaultColon.step.apply n >>= fun m => Builtin.caseColon.step.apply m >>= pure := rfl
    rw [Migration.apply, hsteps]
    simp only [bind_pure]
  rw [happly, Make.bind_apply, ← labelsEnd_iff h.views]
  obtain ⟨e, he, hnot⟩ | ⟨m, s₁, S₁, hm, hready, hsettled, hfirst⟩ :=
    labelColon_pass (b := .defaultColon) rfl h
  · rw [he]
    exact .inl ⟨_, rfl, fun hall => hnot (hall _ (.head _))⟩
  rw [hm]
  -- the first pass does not change what the second one admits
  have hiff : Builtin.caseColon.Admits m ↔ Builtin.caseColon.Admits n := hsettled.admits_iff h
  obtain ⟨e, he, hnot⟩ | ⟨r, s₂, S₂, hr, -, hsettled₂, hsecond⟩ :=
    labelColon_pass (b := .caseColon) rfl hready
  · refine .inl ⟨⟨labelColons.name, e⟩, ?_, fun hall => hnot (hiff.mpr (hall _ (.tail _ (.head _))))⟩
    show Except.mapError _ (Builtin.caseColon.step.apply m s₁) = _
    rw [he]
    rfl
  · refine .inr ⟨r, s₂, ?_, ?_, ?_⟩
    · show Except.mapError _ (Builtin.caseColon.step.apply m s₁) = _
      rw [hr]
      rfl
    · exact List.forall_mem_cons.mpr
        ⟨hsettled.admits, List.forall_mem_singleton.mpr (hiff.mp hsettled₂.admits)⟩
    · rw [hsecond, hfirst, Description.rewrite_rewrite (map_labelRule _ _)]
      rw [labelRule_labelRule (by decide)]
      rfl

/-! ### Effect -/

/-- What the migration may do at one place of a tree, where a label ends or not: classes, kinds and
numbers of children stay, tokens keep their trivia, and a token is another one only at the end of a
label, where it is a colon. -/
inductive Ended (atEnd : Prop) : Option Node → Option Node → Prop where
  | none : Ended atEnd none none
  | missing : Ended atEnd (some .missing) (some .missing)
  | token {t u : Token} (hleading : u.leading = t.leading) (htrailing : u.trailing = t.trailing)
      (hend : atEnd → u.kind = "colon" ∧ u.text = ":")
      (hother : ¬atEnd → u.kind = t.kind ∧ u.text = t.text) :
      Ended atEnd (some (.token t)) (some (.token u))
  | list {id id' w w' : Nat} {items items' : List Node} (h : items'.length = items.length) :
      Ended atEnd (some (.list id items w)) (some (.list id' items' w'))
  | composite {id id' w w' : Nat} {k : Kind} {cs cs' : List Node} (h : cs'.length = cs.length) :
      Ended atEnd (some (.composite id k cs w)) (some (.composite id' k cs' w'))

theorem length_labelRule (kinds : List String) (k : Kind) (ds : List (Description Text)) :
    (labelRule kinds k ds).length = ds.length := by
  unfold labelRule
  split
  · split
    · exact List.length_modify _ _ _
    · rfl
  · rfl

theorem ended_of_description {kinds : List String} {m x : Node} {atEnd : Bool}
    (h : x.description = (if atEnd then toColon else id) (m.description.rewrite (labelRule kinds))) :
    Ended (atEnd = true) (some m) (some x) := by
  -- the rule keeps the form of a node, so the other node has the same one
  cases m with
  | missing =>
      have h : x.description = .missing := h.trans (by cases atEnd <;> rfl)
      cases x with
      | missing => exact .missing
      | _ => cases h
  | token t =>
      cases x with
      | token u =>
          cases atEnd with
          | true =>
              simp only [Node.description, Description.rewrite, if_true, toColon,
                Description.token.injEq] at h
              obtain ⟨hkind, hleading, htext, htrailing⟩ := h
              exact .token (Trivia.pair_injective.list_map hleading)
                (Trivia.pair_injective.list_map htrailing) (fun _ => ⟨hkind, htext⟩)
                fun hnot => absurd rfl hnot
          | false =>
              simp only [Node.description, Description.rewrite, Bool.false_eq_true, if_false, id,
                Description.token.injEq] at h
              obtain ⟨hkind, hleading, htext, htrailing⟩ := h
              exact .token (Trivia.pair_injective.list_map hleading)
                (Trivia.pair_injective.list_map htrailing)
                (fun hyes => absurd hyes Bool.false_ne_true) fun _ => ⟨hkind, htext⟩
      | _ => cases atEnd <;> cases h
  | list id items w =>
      have h : x.description =
          .list ((items.map Node.description).map (·.rewrite (labelRule kinds))) := by
        rw [h, Node.description, Node.descriptionAll_eq_map, Description.rewrite_list]
        cases atEnd <;> rfl
      cases x with
      | list id' items' w' =>
          rw [Node.description, Node.descriptionAll_eq_map, Description.list.injEq] at h
          exact .list (by simpa using congrArg List.length h)
      | _ => cases h
  | composite id k cs w =>
      have h : x.description = .composite k
          (labelRule kinds k ((cs.map Node.description).map (·.rewrite (labelRule kinds)))) := by
        rw [h, Node.description_composite, Description.rewrite_composite]
        cases atEnd <;> rfl
      cases x with
      | composite id' k' cs' w' =>
          rw [Node.description_composite, Description.composite.injEq] at h
          obtain ⟨rfl, hcs⟩ := h
          exact .composite (by simpa [length_labelRule] using congrArg List.length hcs)
      | _ => cases h

/-- A semicolon. -/
def semicolon : Node := .token ⟨1, "semicolon", [⟨"whitespace", " "⟩], ";", [], 2⟩

/-- A label that ends with the semicolon. -/
def semicolonLabel : Node := .composite 2 defaultKind [.missing, semicolon] 2

/-- The label, and the semicolon once more. -/
def semicolonTree : Node := .list 3 [semicolonLabel, semicolon] 4

/-- The objects that are there with it. -/
def semicolonObjects : Set Node :=
  insert semicolonTree (insert semicolonLabel (insert semicolon {.missing}))

/-- For every tree of Hack kinds among the objects that are there: ending its labels with colons
succeeds exactly when the colon slot of every label holds nothing, a colon or a semicolon. Then the
result has the shape of the tree, position by position, all tokens keep their trivia, and a token
differs only where it ends a label, by being a colon. -/
theorem labelColons_effect {S : Set Node} {supply : Supply} {tree : Node} (hS : Objects S supply)
    (htree : tree ∈ S) (hkinds : tree.Sound (· ∈ Catalog.hack.kinds)) :
    ((∃ p, labelColons.apply tree supply = .ok p) ↔ LabelsEnd tree) ∧
    ∀ (result : Node) (supply' : Supply), labelColons.apply tree supply = .ok (result, supply') →
      ∀ p : Position, Ended (endsLabel labelKinds tree p = true) (tree.at? p) (result.at? p) := by
  obtain ⟨e, he, hnot⟩ | ⟨r, s', hr, hends, hrewrite⟩ :=
    labelColons_rewrites (.of_sound hS htree hkinds)
  · refine ⟨⟨fun ⟨p, hp⟩ => ?_, fun hends => absurd hends hnot⟩, fun result supply' hp => ?_⟩
    · cases he.symm.trans hp
    · cases he.symm.trans hp
  · refine ⟨⟨fun _ => hends, fun _ => ⟨_, hr⟩⟩, fun result supply' hp p => ?_⟩
    cases hr.symm.trans hp
    have hat := at?_labelRule labelKinds tree p
    rw [← hrewrite, Node.at?_description] at hat
    cases hm : tree.at? p with
    | none =>
        rw [hm] at hat
        rw [Option.map_eq_none_iff.mp hat]
        exact .none
    | some m =>
        rw [hm] at hat
        obtain ⟨x, hx, hdescription⟩ := Option.map_eq_some_iff.mp hat
        rw [hx]
        exact ended_of_description hdescription

theorem labelColons_effect_semicolonTree :
    (Objects semicolonObjects 4 ∧ semicolonTree ∈ semicolonObjects ∧
        semicolonTree.Sound (· ∈ Catalog.hack.kinds)) ∧
      LabelsEnd semicolonTree ∧
      ∃ result supply', labelColons.apply semicolonTree 4 = .ok (result, supply') ∧
        Ended True (some semicolon) (result.at? [0, 1]) ∧
        Ended False (some semicolon) (result.at? [1]) := by
  have hsemicolon : semicolon.Sound (· ∈ Catalog.hack.kinds) := .token rfl
  have hlabel : semicolonLabel.Sound (· ∈ Catalog.hack.kinds) :=
    .composite (Catalog.mem_hack (by decide)) rfl (by simp [hsemicolon, Node.Sound.missing])
  have htree : semicolonTree.Sound (· ∈ Catalog.hack.kinds) := .list (by simp [hsemicolon, hlabel])
  have hS : Objects semicolonObjects 4 := by
    have h₁ := Objects.start.insert (n := semicolon) rfl nofun (.token rfl)
    have h₂ := h₁.insert (n := semicolonLabel) rfl (by simp [Node.children, semicolonLabel])
      (hlabel.mono fun _ _ => trivial)
    exact h₂.insert (n := semicolonTree) rfl (by simp [Node.children, semicolonTree])
      (htree.mono fun _ _ => trivial)
  obtain ⟨hiff, hplaces⟩ := labelColons_effect hS (Set.mem_insert _ _) htree
  have hends : LabelsEnd semicolonTree := by
    intro m hm c hc _
    have hm : m ∈ [.missing, semicolon, semicolonLabel, semicolon, semicolonTree] := hm
    simp only [List.mem_cons, List.not_mem_nil, or_false] at hm
    rcases hm with rfl | rfl | rfl | rfl | rfl
    · cases hc
    · cases hc
    · cases hc
      exact ⟨semicolon, rfl, .token (.inr rfl)⟩
    · cases hc
    · cases hc
  obtain ⟨⟨result, supply'⟩, hresult⟩ := hiff.mpr hends
  have hpositions : endsLabel labelKinds semicolonTree [0, 1] = true ∧
      endsLabel labelKinds semicolonTree [1] = false := by decide
  have hfirst := hplaces result supply' hresult [0, 1]
  have hsecond := hplaces result supply' hresult [1]
  simp only [hpositions, eq_self, Bool.false_eq_true] at hfirst hsecond
  exact ⟨⟨hS, Set.mem_insert _ _, htree⟩, hends, result, supply', hresult, hfirst,
    hsecond⟩

end Migration

end Lossless
