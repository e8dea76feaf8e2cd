import Lossless.Proofs.Migration.LabelColons
import Lossless.Proofs.Migration.OptionalFields
import Lossless.Proofs.Parse.Locality

/-!
# Migration — built-in migrations commute

Making fields optional follows a rule on descriptions as ending labels does (`fieldRule`): the trivia
in front of the name of a field go to the new question mark, and the name is left bare.  For this no
token may stand twice in the tree, which holds of parser output and stays so (`Drawn`).

The two rules do not mind each other: ending labels changes no trivia, so it does not matter whether
a label ends before or after the trivia in front of it are moved (`bare_rewrite`), and the rules look
at different kinds (`Builtin.rewrite_comm`).  Whether a step is admitted does not depend on the others
either.

**Commutation** (`builtins_commute`).  Runs of the same built-in migrations in two orders, over a tree
from parser output, succeed together, and give trees that are structurally equal.
-/

namespace Lossless

namespace Migration

open Catalog (fieldKind defaultKind caseKind)

/-! ### The rule for fields -/

/-- The trivia in front of the first token, when there is any text in them. -/
def frontTrivia (d : Description Text) : List (String × Text) :=
  let front := d.leads.head?.getD []
  if front.flatMap (·.2) = [] then [] else front

/-- The question mark in front of a name. -/
def markBefore (name : Description Text) : Description Text :=
  .token "question" (frontTrivia name) "?" []

/-- The name behind its question mark. -/
def nameBehind (name : Description Text) : Description Text :=
  if frontTrivia name = [] then name else name.bare

/-- Whether a description is that of the missing node. -/
def describesMissing : Description Text → Bool
  | .missing => true
  | _ => false

/-- Whether a description is that of a nullable type. -/
def describesNullable : Description Text → Bool
  | .composite k _ => k.name == "nullable_type_specifier"
  | _ => false

/-- The rule that puts question marks in front of fields of a nullable type that have none. -/
def fieldRule : Description.Rule Text := fun k ds =>
  if k.name = fieldKind.name then
    match ds with
    | [q, name, arrow, type] =>
      if describesMissing q && describesNullable type then
        [markBefore name, nameBehind name, arrow, type]
      else [q, name, arrow, type]
    | ds => ds
  else ds

/-! ### The rules do not mind each other -/

section Rules

variable {kinds : List String} {f : Description.Rule Text} {d : Description Text}

theorem leads_toColon (d : Description Text) : (toColon d).leads = d.leads := by
  cases d <;> rfl

theorem bare_toColon (d : Description Text) : (toColon d).bare = toColon d.bare := by
  cases d <;> rfl

theorem leadsAll_modify (i : Nat) (ds : List (Description Text)) :
    Description.leadsAll (ds.modify i toColon) = Description.leadsAll ds := by
  induction ds generalizing i with
  | nil => simp
  | cons d ds ih =>
      cases i with
      | zero => simp [Description.leadsAll, leads_toColon]
      | succ i => simp [Description.leadsAll, ih]

theorem leadsAll_labelRule (k : Kind) (ds : List (Description Text)) :
    Description.leadsAll (labelRule kinds k ds) = Description.leadsAll ds := by
  unfold labelRule
  split
  · split
    · exact leadsAll_modify _ _
    · rfl
  · rfl

theorem bareAll_modify (i : Nat) (ds : List (Description Text)) :
    Description.bareAll (ds.modify i toColon) = (Description.bareAll ds).modify i toColon := by
  induction ds generalizing i with
  | nil => simp [Description.bareAll]
  | cons d ds ih =>
      cases i with
      | zero =>
          simp only [List.modify_zero_cons, Description.bareAll, leads_toColon]
          split
          · rfl
          · rw [bare_toColon]
            rfl
      | succ i =>
          simp only [List.modify_succ_cons, Description.bareAll]
          split
          · rw [ih]
            rfl
          · rfl

theorem bareAll_labelRule (k : Kind) (ds : List (Description Text)) :
    Description.bareAll (labelRule kinds k ds) = labelRule kinds k (Description.bareAll ds) := by
  unfold labelRule
  split
  · split
    · exact bareAll_modify _ _
    · rfl
  · rfl

/-- Ending labels changes no trivia. -/
theorem leads_rewrite (d : Description Text) : (d.rewrite (labelRule kinds)).leads = d.leads := by
  have hall : ∀ ds : List (Description Text),
      (∀ d ∈ ds, (d.rewrite (labelRule kinds)).leads = d.leads) →
      Description.leadsAll (ds.map (·.rewrite (labelRule kinds))) = Description.leadsAll ds := by
    intro ds h
    induction ds with
    | nil => rfl
    | cons d ds ih =>
        rw [List.map_cons, Description.leadsAll, Description.leadsAll, h d (.head _),
          ih fun e he => h e (.tail _ he)]
  induction d using Description.induct with
  | missing => rfl
  | token _ _ _ _ => rfl
  | list items ih =>
      rw [Description.rewrite_list]
      exact hall items ih
  | composite k cs ih =>
      rw [Description.rewrite_composite]
      exact (leadsAll_labelRule k _).trans (hall cs ih)

/-- **Labels end** in the same way before and after the trivia in front of the first token are taken
off. -/
theorem bare_rewrite (d : Description Text) :
    (d.rewrite (labelRule kinds)).bare = d.bare.rewrite (labelRule kinds) := by
  have hall : ∀ ds : List (Description Text),
      (∀ d ∈ ds, (d.rewrite (labelRule kinds)).bare = d.bare.rewrite (labelRule kinds)) →
      Description.bareAll (ds.map (·.rewrite (labelRule kinds))) =
        (Description.bareAll ds).map (·.rewrite (labelRule kinds)) := by
    intro ds h
    induction ds with
    | nil => rfl
    | cons d ds ih =>
        rw [List.map_cons, Description.bareAll, Description.bareAll, leads_rewrite]
        split
        · rw [List.map_cons, ih fun e he => h e (.tail _ he)]
        · rw [List.map_cons, h d (.head _)]
  induction d using Description.induct with
  | missing => rfl
  | token _ _ _ _ => rfl
  | list items ih =>
      rw [Description.rewrite_list]
      show Description.list _ = (Description.list (Description.bareAll items)).rewrite _
      rw [hall items ih, Description.rewrite_list]
  | composite k cs ih =>
      rw [Description.rewrite_composite]
      show Description.composite k _ = (Description.composite k (Description.bareAll cs)).rewrite _
      rw [bareAll_labelRule, hall cs ih, Description.rewrite_composite]

theorem frontTrivia_rewrite (d : Description Text) :
    frontTrivia (d.rewrite (labelRule kinds)) = frontTrivia d := by
  rw [frontTrivia, frontTrivia, leads_rewrite]

theorem markBefore_rewrite (name : Description Text) :
    (markBefore name).rewrite (labelRule kinds) = markBefore (name.rewrite (labelRule kinds)) := by
  rw [markBefore, markBefore, frontTrivia_rewrite]
  rfl

theorem nameBehind_rewrite (name : Description Text) :
    (nameBehind name).rewrite (labelRule kinds) = nameBehind (name.rewrite (labelRule kinds)) := by
  rw [nameBehind, nameBehind, frontTrivia_rewrite]
  split
  · rfl
  · rw [bare_rewrite]

theorem describesMissing_rewrite (d : Description Text) :
    describesMissing (d.rewrite f) = describesMissing d := by
  cases d <;> rfl

theorem describesNullable_rewrite (d : Description Text) :
    describesNullable (d.rewrite f) = describesNullable d := by
  cases d <;> rfl

/-- The rule for fields does not mind whether the labels below ended before. -/
theorem map_fieldRule (k : Kind) (ds : List (Description Text)) :
    (fieldRule k ds).map (·.rewrite (labelRule kinds)) =
      fieldRule k (ds.map (·.rewrite (labelRule kinds))) := by
  unfold fieldRule
  split
  · match ds with
    | [q, name, arrow, type] =>
        simp only [List.map_cons, List.map_nil, describesMissing_rewrite, describesNullable_rewrite]
        split
        · simp only [List.map_cons, List.map_nil, nameBehind_rewrite, markBefore_rewrite]
        · rfl
    | [] | [_] | [_, _] | [_, _, _] | _ :: _ :: _ :: _ :: _ :: _ => rfl
  · rfl

theorem fieldRule_of_ne {k : Kind} {ds : List (Description Text)} (h : k.name ≠ fieldKind.name) :
    fieldRule k ds = ds := if_neg h

theorem labelRule_comm (kinds kinds' : List String) (k : Kind) (ds : List (Description Text)) :
    labelRule kinds k (labelRule kinds' k ds) = labelRule kinds' k (labelRule kinds k ds) := by
  by_cases h : k.name ∈ kinds
  · by_cases h' : k.name ∈ kinds'
    · simp only [labelRule, if_pos h, if_pos h']
    · rw [labelRule_of_not_mem h', labelRule_of_not_mem h']
  · rw [labelRule_of_not_mem h, labelRule_of_not_mem h]

theorem fieldRule_labelRule (h : fieldKind.name ∉ kinds) (k : Kind) (ds : List (Description Text)) :
    fieldRule k (labelRule kinds k ds) = labelRule kinds k (fieldRule k ds) := by
  by_cases hk : k.name = fieldKind.name
  · have hnot : k.name ∉ kinds := hk ▸ h
    rw [labelRule_of_not_mem hnot, labelRule_of_not_mem hnot]
  · rw [fieldRule_of_ne hk, fieldRule_of_ne hk]

end Rules

/-- The rule of a step. -/
def Builtin.rule : Builtin → Description.Rule Text
  | .optionalField => fieldRule
  | .defaultColon => labelRule [defaultKind.name]
  | .caseColon => labelRule [caseKind.name]

/-- **Two steps commute** on descriptions. -/
theorem Builtin.rewrite_comm (b b' : Builtin) (d : Description Text) :
    (d.rewrite b.rule).rewrite b'.rule = (d.rewrite b'.rule).rewrite b.rule := by
  have hlabels : ∀ kinds kinds' : List String, (d.rewrite (labelRule kinds)).rewrite (labelRule kinds') =
      (d.rewrite (labelRule kinds')).rewrite (labelRule kinds) := fun kinds kinds' =>
    Description.rewrite_comm (map_labelRule _ _) (map_labelRule _ _) (labelRule_comm kinds' kinds) d
  have hfield : ∀ kinds : List String, fieldKind.name ∉ kinds →
      (d.rewrite fieldRule).rewrite (labelRule kinds) = (d.rewrite (labelRule kinds)).rewrite fieldRule :=
    fun kinds h => Description.rewrite_comm (map_labelRule _ _) map_fieldRule
      (fun k ds => (fieldRule_labelRule h k ds).symm) d
  cases b <;> cases b' <;> first
    | rfl
    | exact hlabels _ _
    | exact hfield _ (by decide)
    | exact (hfield _ (by decide)).symm

/-! ### The pass that marks fields -/

section Fields

variable {S : Set Node} {s s' : Supply} {n r : Node} {c : Composite}

theorem text_leads (n : Node) :
    (n.description.leads.head?.getD []).flatMap (·.2) = frontText n := by
  rw [Node.leads_description, frontText, Node.firstToken_eq, List.head?_map]
  cases n.frontier.head? with
  | none => rfl
  | some t => simp [Token.leadingText, triviaText, List.flatMap_map]

/-- A question mark and the name behind it are described by the trivia of the name. -/
theorem Marks.description {name name' : Node} {mark : Token} (h : Marks S name mark name')
    (hS : Objects S s) (hname : name ∈ S) (hnodup : name.frontier.Nodup) :
    (Node.token mark).description = markBefore name.description ∧
      name'.description = nameBehind name.description := by
  obtain ⟨id₀, w₀, S₁, -, -, hmoved⟩ := h
  cases hmoved with
  | kept hfront =>
      have hnone : frontTrivia name.description = [] := by
        rw [frontTrivia, text_leads, if_pos hfront]
      rw [markBefore, nameBehind, hnone, if_pos rfl]
      exact ⟨rfl, rfl⟩
  | @moved first _ _ _ _ _ hfirst hlead _ _ _ hswap =>
      have hsome := hfirst
      rw [Node.firstToken_eq] at hfirst
      obtain ⟨ts, hts⟩ := List.head?_eq_some_iff.mp hfirst
      have hfront : frontText name ≠ [] := by
        rw [frontText, hsome]
        exact hlead
      have htrivia : frontTrivia name.description =
          first.leading.map fun x => (x.kind, x.text) := by
        rw [frontTrivia, text_leads, if_neg hfront, Node.leads_description, hts]
        rfl
      have hne : frontTrivia name.description ≠ [] := by
        intro hnil
        rw [frontTrivia, text_leads, if_neg hfront] at hnil
        rw [← text_leads, hnil] at hfront
        exact hfront rfl
      refine ⟨?_, ?_⟩
      · rw [markBefore, htrivia]
        simp [Node.description]
      · rw [nameBehind, if_neg hne]
        -- no other token of the name has the number of the first one
        have hids := ids_of_nodup hS (fun x hx => Node.token_mem_of_mem_frontier hS.child hname
          (hts ▸ hx)) (hts ▸ hnodup)
        refine hswap.shape.description_bare hts ?_ fun x hx => if_neg (hids x hx)
        rw [Pass.swap, if_pos rfl]
        exact ⟨rfl, rfl, rfl, rfl⟩

theorem describesMissing_description (n : Node) : describesMissing n.description = n.isMissing := by
  cases n <;> rfl

theorem describesNullable_description (n : Node) : describesNullable n.description = isNullable n := by
  cases n <;> rfl

/-- The rule for the children of a field. -/
theorem fieldRule_field (q name arrow type : Node) :
    fieldRule fieldKind ([q, name, arrow, type].map Node.description) =
      if q.isMissing && isNullable type then [markBefore name.description,
        nameBehind name.description, arrow.description, type.description]
      else [q, name, arrow, type].map Node.description := by
  rw [← describesMissing_description, ← describesNullable_description]
  rfl

/-- A composite that is kept is no field that lacks a question mark. -/
theorem fieldRule_of_keep (hsound : c.toNode.Sound fun _ => True)
    (hk : c.kind ∈ Catalog.hack.kinds) (h : judgeField c.view = .keep) :
    fieldRule c.kind (c.children.map Node.description) = c.children.map Node.description := by
  by_cases hname : c.kind.name = fieldKind.name
  · have hlacks := (lacksMark_iff hsound hk (by rw [h]; decide)).not.mpr (by rw [h]; decide)
    have hkind : c.kind = fieldKind := Catalog.eq_of_mem_hack hk (by decide) hname
    obtain ⟨q, name, arrow, type, hcs⟩ := field_children hsound hkind
    obtain ⟨id, k, cs, w⟩ := c
    obtain rfl : k = fieldKind := hkind
    obtain rfl : cs = [q, name, arrow, type] := hcs
    have hrule : lacksMark (.composite id fieldKind [q, name, arrow, type] w) =
        (q.isMissing && isNullable type) := rfl
    rw [Composite.toNode, hrule] at hlacks
    show fieldRule fieldKind ([q, name, arrow, type].map Node.description) = _
    rw [fieldRule_field, if_neg hlacks]
  · exact fieldRule_of_ne hname

/-- **A call for a field** follows the rule, when the tokens of the field are different ones. -/
theorem optionalField_rewrites_composite {a : Ancestors} (hS : Objects S s) (hc : c.toNode ∈ S)
    (hk : c.kind ∈ Catalog.hack.kinds) (hnodup : (Node.frontierAll c.children).Nodup)
    (h : optionalField c.toNode a s = .ok (some r, s')) :
    r.description = .composite c.kind (fieldRule c.kind (c.children.map Node.description)) := by
  have hsound := hS.sound _ hc
  cases hverdict : judgeField c.view with
  | keep =>
      have hcall : optionalField c.toNode a s = .ok (some c.toNode, s) :=
        optionalField_follows hverdict a s
      cases hcall.symm.trans h
      rw [fieldRule_of_keep hsound hk hverdict]
      exact Node.description_composite _ _ _ _
  | refuse =>
      obtain ⟨e, he⟩ := optionalField_follows hverdict a s
      cases he.symm.trans h
  | change =>
      obtain ⟨hkind, name, arrow, type, hcs⟩ := field_of_change hsound hk hverdict
      obtain ⟨c', _, _, mark, name', hcall, -, -, -, hkind', hcs', hmarks⟩ :=
        optionalField_change hS hc hkind hcs hverdict a
      cases hcall.symm.trans h
      have hname : name ∈ S := hS.child _ hc name (by simp [Composite.toNode, Node.children, hcs])
      have hlacks : isNullable type = true := by
        have hmark := (lacksMark_iff hsound hk (by rw [hverdict]; decide)).mpr hverdict
        obtain ⟨id, k, cs, w⟩ := c
        obtain rfl : k = fieldKind := hkind
        obtain rfl : cs = [.missing, name, arrow, type] := hcs
        exact hmark
      rw [hcs, Node.frontierAll_cons, Node.frontierAll_cons] at hnodup
      obtain ⟨hmark, hbehind⟩ := hmarks.description hS hname
        (List.nodup_append.mp (List.nodup_append.mp hnodup).2.1).1
      rw [Composite.toNode, Node.description_composite, hkind', hkind, hcs, hcs', fieldRule_field,
        if_pos (by rw [hlacks]; rfl), ← hmark, ← hbehind]
      rfl

/-- **One call of the step** within the pass over a tree in which no token stands twice. -/
theorem optionalField_rewrites (hnodup : n.frontier.Nodup) (hviews : OfHack n) :
    optionalField.Makes {m | m ∈ n.postOrder}
      (fun S S' n r => Marked S S' n r ∧ r.description = n.description.rewrite fieldRule)
      fun _ => True := by
  refine (optionalField_marks hnodup hviews).rewriting ?_
  intro S S₁ S₂ x m r rs a s s' hsub hx hchain hm hmem hobjects hcall
  have hx₂ : x ∈ S₂ := hm.subset (hchain.subset (hsub hx))
  have hall := markedAll_of_part hnodup hsub hx (hobjects.sound x hx₂) hchain
  have hview : m.view? = x.view? := hm.view? hall.faces
  cases m with
  | missing | token _ | list _ _ _ =>
      cases hcall
      rfl
  | composite id k cs w =>
      have hk : k ∈ Catalog.hack.kinds :=
        (hviews _ (List.mem_filterMap.mpr ⟨x, hx, hview.symm⟩)).1
      have hrs : cs = rs := hm.children
      rw [optionalField_rewrites_composite (c := ⟨id, k, cs, w⟩) hobjects hmem hk
        (hrs ▸ hall.grown.nodup) hcall, Node.description_composite]
      rfl

end Fields

/-! ### Tokens of labels -/

section Labels

variable {S S₁ S₂ S' : Set Node} {s : Supply} {n m : Node} {ts front back : List Token}
  {stop colon : Token} {kind : String}

theorem drawnAll_of_chain {cs rs : List Node}
    (h : Chain (fun S S' n r => Drawn S S' n.frontier r.frontier) S cs rs S')
    (hold : ∀ t ∈ Node.frontierAll cs, .token t ∈ S) (hnodup : (Node.frontierAll cs).Nodup) :
    Drawn S S' (Node.frontierAll cs) (Node.frontierAll rs) := by
  induction h with
  | nil => exact .refl subset_rfl nofun .nil
  | cons hsub _ h _ ih =>
      rw [Node.frontierAll_cons] at hold hnodup
      rw [Node.frontierAll_cons, Node.frontierAll_cons]
      exact h.append (ih (fun t ht => hsub (hold t (List.mem_append_right _ ht)))
        (List.nodup_append.mp hnodup).2.1) (fun t ht => hold t (List.mem_append_right _ ht)) hnodup

/-- The tokens of a node whose children are done. -/
theorem Drawn.regrown {rs : List Node}
    (h : Drawn S S₁ (Node.frontierAll n.children) (Node.frontierAll rs))
    (hm : RegrownIn S₁ n rs m S₂) (hold : ∀ t ∈ n.frontier, .token t ∈ S)
    (hnodup : n.frontier.Nodup) : Drawn S S₂ n.frontier m.frontier := by
  rw [Node.frontier_eq] at hold hnodup
  rw [hm.frontier, Node.frontier_eq n]
  have hold : ∀ t ∈ n.token?.toList, .token t ∈ S := fun t ht => hold t (List.mem_append_right _ ht)
  have hown : Drawn S₁ S₂ n.token?.toList n.token?.toList :=
    .refl hm.subset (fun t ht => h.subset (hold t ht)) (List.nodup_append.mp hnodup).2.1
  exact h.append hown hold hnodup

/-- A new token in the place of another one. -/
theorem Drawn.replace (h : Drawn S S₁ ts (front ++ stop :: back)) (hsub : S₁ ⊆ S')
    (hnew : .token colon ∉ S₁) (hthere : .token colon ∈ S') :
    Drawn S S' ts (front ++ colon :: back) := by
  have hmem : ∀ t ∈ front ++ colon :: back, t = colon ∨ t ∈ front ++ stop :: back := by
    intro t ht
    simp only [List.mem_append, List.mem_cons] at ht ⊢
    tauto
  refine ⟨h.subset.trans hsub, fun t ht => ?_, fun t ht => ?_, ?_⟩
  · rcases hmem t ht with rfl | ht
    · exact hthere
    · exact hsub (h.there t ht)
  · rcases hmem t ht with rfl | ht
    · exact .inr fun hin => hnew (h.subset hin)
    · exact h.origin t ht
  · -- the new token is none of those before
    have hcolon : ∀ t ∈ front ++ stop :: back, t ≠ colon := by
      rintro t ht rfl
      exact hnew (h.there t ht)
    have hnodup := h.nodup
    rw [List.nodup_append, List.nodup_cons] at hnodup ⊢
    obtain ⟨hfront, ⟨-, hback⟩, hdisjoint⟩ := hnodup
    refine ⟨hfront, ⟨fun hin => hcolon _ (by simp [hin]) rfl, hback⟩, ?_⟩
    intro x hx y hy
    rcases List.mem_cons.mp hy with rfl | hy
    · exact hcolon x (by simp [hx])
    · exact hdisjoint x hx y (.tail _ hy)

/-- The tokens of children one of which is a token that is replaced. -/
theorem frontierAll_set (colon : Token) {cs : List Node} {i : Nat} (h : cs[i]? = some (.token stop)) :
    ∃ front back, Node.frontierAll cs = front ++ stop :: back ∧
      Node.frontierAll (cs.set i (.token colon)) = front ++ colon :: back := by
  induction cs generalizing i with
  | nil => cases h
  | cons c cs ih =>
      cases i with
      | zero =>
          cases h
          exact ⟨[], Node.frontierAll cs, by simp, by simp⟩
      | succ i =>
          obtain ⟨front, back, hold, hnew⟩ := ih h
          exact ⟨c.frontier ++ front, back, by simp [hold], by simp [hnew]⟩

/-- **One call for a label** within the pass over a tree in which no token stands twice. -/
theorem labelColon_draws (hnodup : n.frontier.Nodup) :
    (labelColon kind).Makes {m | m ∈ n.postOrder}
      (fun S S' n r => Drawn S S' n.frontier r.frontier) fun _ => True where
  up _ _ _ := trivial
  call {S S₁ S₂ x m rs a s} hsub hx hchain hm hmem hobjects := by
    obtain ⟨hnodup, hold⟩ := frontier_of_part hnodup hsub hx
    have hdrawn : Drawn S S₂ x.frontier m.frontier := by
      refine Drawn.regrown ?_ hm hold hnodup
      rw [Node.frontier_eq] at hold hnodup
      exact drawnAll_of_chain hchain (fun t ht => hold t (List.mem_append_left _ ht))
        (List.nodup_append.mp hnodup).1
    cases m with
    | missing | token _ | list _ _ _ => exact ⟨S₂, subset_rfl, hobjects, hmem, hdrawn⟩
    | composite id k cs w =>
        obtain ⟨c, hc⟩ : ∃ c : Composite, Node.composite id k cs w = c.toNode := ⟨⟨_, _, _, _⟩, rfl⟩
        rw [hc] at hmem hdrawn ⊢
        cases hverdict : judgeLabel kind c.view with
        | keep =>
            have hcall : labelColon kind c.toNode a s = .ok (some c.toNode, s) :=
              labelColon_follows hverdict a s
            rw [hcall]
            exact ⟨S₂, subset_rfl, hobjects, hmem, hdrawn⟩
        | refuse =>
            obtain ⟨e, he⟩ := labelColon_follows hverdict a s
            rw [he]
            trivial
        | change =>
            obtain ⟨-, _, _, hslot⟩ := slot_of_change hverdict
            obtain ⟨c', s', S', stop, colon, hcall, hsub', hS', hmem', -, hcs', hstop, _, _, -, hnew⟩ :=
              labelColon_change hobjects hmem hslot hverdict a
            obtain ⟨front, back, hold, htokens⟩ := frontierAll_set colon hstop
            rw [hcall]
            have hfrontier : c'.toNode.frontier = front ++ colon :: back := by
              rw [Composite.toNode, Node.frontier_composite, hcs', htokens]
            rw [Composite.toNode, Node.frontier_composite, hold] at hdrawn
            refine ⟨S', hsub', hS', hmem', hfrontier ▸ hdrawn.replace hsub' hnew ?_⟩
            exact Node.token_mem_of_mem_frontier hS'.child hmem' (by rw [hfrontier]; simp)

end Labels

/-! ### Runs -/

section Runs

variable {S : Set Node} {s : Supply} {n : Node} {file : String}

/-- The calls of a step follow its rule, over a tree in which no token stands twice. -/
theorem Builtin.makes_rewriting (b : Builtin) (hnodup : n.frontier.Nodup) (hviews : OfHack n) :
    ∃ Q, b.step.transform.Makes {m | m ∈ n.postOrder} Q (fun _ => True) ∧
      ∀ {S S' r}, Q S S' n r → r.frontier.Nodup ∧ r.description = n.description.rewrite b.rule := by
  have hlabel : ∀ kind, ∃ Q, (labelColon kind).Makes {m | m ∈ n.postOrder} Q (fun _ => True) ∧
      ∀ {S S' r}, Q S S' n r →
        r.frontier.Nodup ∧ r.description = n.description.rewrite (labelRule [kind]) := by
    intro kind
    refine ⟨_, (labelColon_draws hnodup).rewriting (f := labelRule [kind]) ?_, ?_⟩
    · exact fun _ _ _ _ hmem hobjects hcall => labelColon_rewrites hobjects hmem hcall
    · exact fun h => ⟨h.1.nodup, h.2⟩
  cases b with
  | optionalField => exact ⟨_, optionalField_rewrites hnodup hviews, fun h => ⟨h.1.grown.nodup, h.2⟩⟩
  | defaultColon => exact hlabel defaultKind.name
  | caseColon => exact hlabel caseKind.name

/-- **A pass with a built-in step** follows its rule, and no token stands twice afterwards. -/
theorem Builtin.pass_rewrites (b : Builtin) (h : Ready S s n) (hnodup : n.frontier.Nodup) :
    (∃ e, b.step.apply n s = .error e ∧ ¬b.Admits n) ∨
      ∃ r s' S', b.step.apply n s = .ok (r, s') ∧ Ready S' s' r ∧ Settled b n r ∧
        r.frontier.Nodup ∧ r.description = n.description.rewrite b.rule := by
  obtain ⟨S', -, hS', ⟨e, he, hrefuse⟩ | ⟨r, hr, hmem, hsettled⟩⟩ := b.pass_settles h
  · exact .inl ⟨e, step_apply_error he, hrefuse⟩
  · obtain ⟨Q, hmakes, hQ⟩ := b.makes_rewriting hnodup h.views
    obtain ⟨_, -, -, ⟨e, he, -⟩ | ⟨r', hr', -, hmade⟩⟩ :=
      applyWithStats_makes hmakes h.objects h.mem
    · cases he.symm.trans hr
    · cases hr'.symm.trans hr
      exact .inr ⟨r, _, S', step_apply_ok hr, hsettled.ready h hS' hmem, hsettled, hQ hmade⟩

/-- What steps make of a description, one after the other. -/
def Builtin.rewrites (bs : List Builtin) (d : Description Text) : Description Text :=
  bs.foldl (fun d b => d.rewrite b.rule) d

theorem Builtin.rewrites_append (bs bs' : List Builtin) (d : Description Text) :
    rewrites (bs ++ bs') d = rewrites bs' (rewrites bs d) := List.foldl_append

/-- **The order of steps** does not matter on descriptions. -/
theorem Builtin.rewrites_perm {bs bs' : List Builtin} (h : bs.Perm bs') (d : Description Text) :
    rewrites bs d = rewrites bs' d :=
  h.foldl_eq' (fun b _ b' _ d => rewrite_comm b b' d) d

/-- A tree that steps made of another one. -/
structure Rewritten (bs : List Builtin) (n r : Node) : Prop where
  description : r.description = Builtin.rewrites bs n.description
  nodup : r.frontier.Nodup
  admits : ∀ b : Builtin, b.Admits r ↔ b.Admits n

theorem Rewritten.trans {bs bs' : List Builtin} {m r : Node} (h : Rewritten bs n m)
    (h' : Rewritten bs' m r) : Rewritten (bs ++ bs') n r where
  description := by rw [h'.description, h.description, Builtin.rewrites_append]
  nodup := h'.nodup
  admits b := (h'.admits b).trans (h.admits b)

/-- A sequence of steps follows their rules. -/
theorem applySteps_rewrites (bs : List Builtin) (h : Ready S s n) (hnodup : n.frontier.Nodup) :
    (∃ e, applySteps (bs.map Builtin.step) n s = .error e ∧ ¬∀ b ∈ bs, b.Admits n) ∨
      ∃ r s' S', applySteps (bs.map Builtin.step) n s = .ok (r, s') ∧ Ready S' s' r ∧
        (∀ b ∈ bs, b.Admits n) ∧ Rewritten bs n r := by
  induction bs generalizing n s S with
  | nil => exact .inr ⟨n, s, S, rfl, h, nofun, rfl, hnodup, fun _ => .rfl⟩
  | cons b bs ih =>
      have happly : applySteps ((b :: bs).map Builtin.step) n s =
          (b.step.apply n >>= applySteps (bs.map Builtin.step)) s := rfl
      rw [happly, Make.bind_apply]
      obtain ⟨e, he, hrefuse⟩ | ⟨m, s₁, S₁, hm, hready, hsettled, hnodup₁, hrewrite⟩ :=
        b.pass_rewrites h hnodup
      · rw [he]
        exact .inl ⟨e, rfl, fun hall => hrefuse (hall b (.head _))⟩
      rw [hm]
      -- a pass changes nothing about what the others admit
      have hadmits : ∀ b', Builtin.Admits b' m ↔ b'.Admits n := fun b' => hsettled.admits_iff h
      have hfirst : Rewritten [b] n m := ⟨hrewrite, hnodup₁, hadmits⟩
      dsimp only
      obtain ⟨e, he, hnot⟩ | ⟨r, s', S', hr, hready', hall, hrest⟩ := ih hready hnodup₁
      · refine .inl ⟨e, he, fun hall => hnot fun b' hb' => ?_⟩
        exact (hadmits b').mpr (hall b' (.tail _ hb'))
      · refine .inr ⟨r, s', S', hr, hready', ?_, hfirst.trans hrest⟩
        exact List.forall_mem_cons.mpr
          ⟨hsettled.admits, fun b' hb' => (hadmits b').mp (hall b' hb')⟩

/-- A run gives what its steps give. -/
theorem run_applySteps (m : Migration) (file : String) (n : Node) (s : Supply) :
    match (m.run file n s).value with
    | .ok result => applySteps m.steps n s = .ok (result.tree, (m.run file n s).supply)
    | .error _ => ∃ e, applySteps m.steps n s = .error e := by
  have hsteps := runSteps_apply file m.name [] n m.steps s
  unfold run
  cases hvalue : (runSteps file m.name [] n m.steps s).value with
  | error e =>
      rw [hvalue] at hsteps
      simp only [hvalue]
      exact ⟨e, hsteps⟩
  | ok p =>
      rw [hvalue] at hsteps
      simp only [hvalue]
      exact hsteps

variable {parts : Migration → List Builtin}

/-- **A run of built-in migrations** succeeds exactly when the tree admits all their steps, and then
follows their rules. -/
theorem runAll_rewrites (file : String) {ms : List Migration}
    (hparts : ∀ m ∈ ms, m.steps = (parts m).map Builtin.step) (h : Ready S s n)
    (hnodup : n.frontier.Nodup) :
    ((runAll file n ms s).value.2 = none ↔ ∀ b ∈ ms.flatMap parts, b.Admits n) ∧
    ((runAll file n ms s).value.2 = none → ∃ S' s',
      Ready S' s' (finalTree n (runAll file n ms s).value.1) ∧
        Rewritten (ms.flatMap parts) n (finalTree n (runAll file n ms s).value.1)) := by
  induction ms generalizing n s S with
  | nil =>
      exact ⟨iff_of_true rfl (List.forall_mem_nil _), fun _ => ⟨S, s, h, rfl, hnodup, fun _ => .rfl⟩⟩
  | cons m ms ih =>
      have hrun := run_applySteps m file n s
      rw [hparts m (.head _)] at hrun
      simp only [runAll, List.flatMap_cons, List.forall_mem_append]
      cases hvalue : (m.run file n s).value with
      | error e =>
          rw [hvalue] at hrun
          obtain ⟨e', he'⟩ := hrun
          obtain ⟨_, -, hnot⟩ | ⟨_, _, _, hok, -⟩ := applySteps_rewrites (parts m) h hnodup
          · have hfailed : some e ≠ none := Option.some_ne_none e
            exact ⟨iff_of_false hfailed fun hall => hnot hall.1, fun hdone => absurd hdone hfailed⟩
          · cases he'.symm.trans hok
      | ok result =>
          rw [hvalue] at hrun
          obtain ⟨e', he', -⟩ | ⟨r, s', S', hok, hready, hall, hfirst⟩ :=
            applySteps_rewrites (parts m) h hnodup
          · cases he'.symm.trans hrun
          cases hok.symm.trans hrun
          obtain ⟨hiff, hdone⟩ := ih (fun m' h => hparts m' (.tail _ h)) hready hfirst.nodup
          dsimp only
          rw [finalTree_cons]
          refine ⟨?_, fun hnone => ?_⟩
          · rw [hiff]
            refine ⟨fun hrest => ⟨hall, fun b hb => (hfirst.admits b).mp (hrest b hb)⟩, ?_⟩
            exact fun hrest b hb => (hfirst.admits b).mpr (hrest.2 b hb)
          · obtain ⟨S'', s'', hready', hrest⟩ := hdone hnone
            exact ⟨S'', s'', hready', hfirst.trans hrest⟩

end Runs

/-! ### Commutation -/

/-- For every tree built from parser output with the catalog of Hack, and every two orders of the same
built-in migrations: a run in one order succeeds exactly when a run in the other one does, and then
the final trees are structurally equal and have the same text. -/
theorem builtins_commute {v : Json} {file : String} {offset : Int} {source : Text}
    {s s' supply supply' : Supply} {tree : Node} (hstart : Supply.start ≤ s)
    (hbuilt : Parse.fromJson Catalog.hack v file offset source s = .ok (tree, s'))
    (hsupply : s' ≤ supply) (hsupply' : s' ≤ supply') {ms ms' : List Migration}
    (hms : ∀ m ∈ ms, m ∈ builtins) (hperm : ms.Perm ms') :
    ((runAll file tree ms supply).value.2 = none ↔ (runAll file tree ms' supply').value.2 = none) ∧
    ((runAll file tree ms supply).value.2 = none →
      ∃ r r', finalTree tree (runAll file tree ms supply).value.1 = r ∧
        finalTree tree (runAll file tree ms' supply').value.1 = r' ∧
        Node.Alike r r' ∧ r.equal r' = true ∧ r.fullText = r'.fullText) := by
  obtain ⟨S, herected⟩ := Parse.fromJson_objects (Objects.start.mono hstart) hbuilt
  have hsound := Parse.fromJson_sound hbuilt
  have hready : ∀ {supply}, s' ≤ supply → Ready S supply tree := fun h =>
    .of_sound (herected.objects.mono h) herected.mem hsound
  have hsteps : ∀ m, m ∈ builtins → ∃ bs : List Builtin, m.steps = bs.map Builtin.step :=
    fun _ => steps_of_builtin
  -- each migration is a sequence of built-in steps, so a run is a sequence of rewritings
  choose! parts hparts using hsteps
  have hnodup := herected.tokens.nodup
  obtain ⟨hiff, hdone⟩ := runAll_rewrites file (fun m hm => hparts m (hms m hm))
    (hready hsupply) hnodup
  obtain ⟨hiff', hdone'⟩ := runAll_rewrites file
    (fun m hm => hparts m (hms m (hperm.mem_iff.mpr hm))) (hready hsupply') hnodup
  have hbs : (ms.flatMap parts).Perm (ms'.flatMap parts) := hperm.flatMap_right parts
  have hsame : (runAll file tree ms supply).value.2 = none ↔
      (runAll file tree ms' supply').value.2 = none := by
    rw [hiff, hiff']
    exact forall_congr' fun b => by rw [hbs.mem_iff]
  refine ⟨hsame, fun hnone => ?_⟩
  obtain ⟨S₁, s₁, hready₁, hfirst⟩ := hdone hnone
  obtain ⟨S₂, s₂, hready₂, hsecond⟩ := hdone' (hsame.mp hnone)
  have halike : Node.Alike _ _ := Node.alike_of_description
    (hfirst.description.trans ((Builtin.rewrites_perm hbs _).trans hsecond.description.symm))
  exact ⟨_, _, rfl, rfl, halike, halike.equal (hready₁.objects.sound _ hready₁.mem)
    (hready₂.objects.sound _ hready₂.mem), halike.fullText⟩

/-- Parser output for a label that ends with a semicolon. -/
def labelValue : Json :=
  .obj [("kind", .str "default_label"), ("default_keyword", tokenValue "default" [] "default"),
    ("default_colon", tokenValue "semicolon" [] ";")]

/-- The label. -/
def labelNode : Node :=
  .composite 11 defaultKind
    [.token ⟨9, "default", [], "default", [], 7⟩, .token ⟨10, "semicolon", [], ";", [], 1⟩] 8

/-- A list of a field and the label. -/
def labelledTree : Node := .list 12 [fieldTree, labelNode] 18

section Label

open Parse

theorem nodeOf_labelValue {file : String} {source : Text}
    (hkeyword : source.At 10 (Text.ofString "default")) (hcolon : source.At 17 (Text.ofString ";"))
    (path : ValuePath) :
    nodeOf ⟨Catalog.hack, file, source⟩ path labelValue 10 9 = .ok (labelNode, 12) := by
  -- as in the field, all that matters of the catalog is what it knows
  have hkind : Catalog.hack.kind? defaultKind.name = some defaultKind :=
    Catalog.hack_kind? (by decide)
  have htokens : ∀ k ∈ Catalog.hackDocument.tokens, Catalog.hack.isToken k = true :=
    fun _ => Catalog.hack_isToken
  generalize Catalog.hack = c at hkind htokens ⊢
  refine nodeOf_compositeValue rfl (by decide) hkind ?_
  refine slotsOf_cons_ok rfl
    (nodeOf_tokenValue (htokens _ (by decide)) (fun _ => rfl) hkeyword _) ?_
  refine slotsOf_cons_ok rfl
    (nodeOf_tokenValue (htokens _ (by decide)) (fun _ => rfl) hcolon _) ?_
  rw [slotsOf]
  rfl

theorem labelledTree_built :
    fromJson Catalog.hack (.obj [("kind", .str "list"), ("elements", .arr [fieldValue, labelValue])])
      "a.hack" 0 " 'a'=>?intdefault;" Supply.start = .ok (labelledTree, 13) := by
  have hsource : Text.ofString " 'a'=>?intdefault;" =
      Text.ofString " 'a'=>?int" ++ Text.ofString "default;" := by decide
  refine fromJson_eq_ok_iff.mpr ⟨by decide, ?_⟩
  rw [nodeOf_list rfl rfl]
  refine Make.bind_eq_ok.mpr ⟨[fieldTree, labelNode], 12, ?_, listOf_apply _ _⟩
  refine elementsOf_cons_ok (nodeOf_fieldValue (fun o u h => hsource ▸ Text.at_front h) _) ?_
  refine elementsOf_cons_ok (nodeOf_labelValue (by decide) (by decide) _) ?_
  rw [elementsOf]
  rfl

end Label

theorem builtins_commute_labelledTree :
    (Supply.start ≤ Supply.start ∧
        Parse.fromJson Catalog.hack
          (.obj [("kind", .str "list"), ("elements", .arr [fieldValue, labelValue])])
          "a.hack" 0 " 'a'=>?intdefault;" Supply.start = .ok (labelledTree, 13) ∧ 13 ≤ 13 ∧ 13 ≤ 20 ∧
        (∀ m ∈ [labelColons, optionalShapeFields], m ∈ builtins) ∧
        [labelColons, optionalShapeFields].Perm [optionalShapeFields, labelColons]) ∧
      (runAll "a.hack" labelledTree [labelColons, optionalShapeFields] 13).value.2 = none ∧
      (runAll "a.hack" labelledTree [optionalShapeFields, labelColons] 20).value.2 = none ∧
      ∃ r r', finalTree labelledTree
          (runAll "a.hack" labelledTree [labelColons, optionalShapeFields] 13).value.1 = r ∧
        finalTree labelledTree
          (runAll "a.hack" labelledTree [optionalShapeFields, labelColons] 20).value.1 = r' ∧
        Node.Alike r r' ∧ r.equal r' = true ∧ r.fullText = Text.ofString " ?'a'=>?intdefault:" ∧
        r'.fullText = Text.ofString " ?'a'=>?intdefault:" := by
  have hms : ∀ m ∈ [labelColons, optionalShapeFields], m ∈ builtins := by simp [builtins]
  have hperm : [labelColons, optionalShapeFields].Perm [optionalShapeFields, labelColons] :=
    .swap _ _ _
  have hrun : (runAll "a.hack" labelledTree [labelColons, optionalShapeFields] 13).value.2 = none ∧
      (finalTree labelledTree
        (runAll "a.hack" labelledTree [labelColons, optionalShapeFields] 13).value.1).fullText =
          Text.ofString " ?'a'=>?intdefault:" := by
    decide +kernel
  obtain ⟨hiff, hsame⟩ := builtins_commute (Nat.le_refl _) labelledTree_built
    (Nat.le_refl (13 : Supply)) (by decide : (13 : Supply) ≤ (20 : Supply)) hms hperm
  obtain ⟨r, r', hr, hr', halike, hequal, htext⟩ := hsame hrun.1
  rw [hr] at hrun
  exact ⟨⟨Nat.le_refl _, labelledTree_built, Nat.le_refl 13, by decide, hms, hperm⟩, hrun.1,
    hiff.mp hrun.1, r, r', hr, hr', halike, hequal, hrun.2, htext ▸ hrun.2⟩

end Migration

end Lossless
