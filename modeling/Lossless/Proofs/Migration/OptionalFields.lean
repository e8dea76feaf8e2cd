import Lossless.Proofs.Migration.Idempotence
import Lossless.Proofs.Migration.Marking
import Lossless.Proofs.Parse.Objects

/-!
# Migration — what making fields optional does

The pass that puts question marks in front of fields, over a tree in which no token stands twice:
`Marked` says what it makes of a node.  The statement goes through the tree bottom up, over children
that are done (`markedAll_of_chain`) to a node that is kept or changed (`marked_of_keep`,
`marked_of_change`).  The tokens stay different ones (`Grown`), so that moving the trivia of a name
touches one token only, and the text is that of the node with one byte put in for every field that
lacks a mark.

**Effect** (`optionalFields_effect`).  On a tree from parser output the migration inserts one
question mark for every field that lacks one, and changes nothing else.  When all children are of
variants that their slots declare, it succeeds, and every mark stands where its field starts, behind
the trivia in front of its name.
-/

namespace Lossless

namespace Migration

open Catalog (fieldKind literalKind)

variable {n : Node}

/-! ### Children of declared variants -/

/-- Every child in a tree is of a variant that its slot declares. -/
def Declared (n : Node) : Prop :=
  ∀ m ∈ n.postOrder, ∀ c ∈ m.composite?, ∀ p ∈ c.kind.slots.zip c.children,
    p.1.variants.accepts p.2.nodeClass p.2.kind = true

instance : Decidable (Declared n) :=
  inferInstanceAs (Decidable (∀ m ∈ n.postOrder, ∀ c ∈ m.composite?,
    ∀ p ∈ c.kind.slots.zip c.children, p.1.variants.accepts p.2.nodeClass p.2.kind = true))

theorem declared_iff : Declared n ↔ ∀ v ∈ n.views, v.Fits := by
  have hfits : ∀ c : Composite, c.view.Fits ↔
      ∀ p ∈ c.kind.slots.zip c.children, p.1.variants.accepts p.2.nodeClass p.2.kind = true := by
    intro c
    simp only [View.Fits, Composite.view, List.zip_map_right, List.forall_mem_map]
    rfl
  constructor
  · intro h v hv
    obtain ⟨m, hm, hmv⟩ := List.mem_filterMap.mp hv
    obtain ⟨c, rfl, rfl⟩ := exists_composite hmv
    exact (hfits c).mpr (h _ hm c rfl)
  · intro h m hm c hc
    cases m with
    | composite id k cs w =>
        cases hc
        exact (hfits ⟨id, k, cs, w⟩).mp (h _ (List.mem_filterMap.mpr ⟨_, hm, rfl⟩))
    | _ => cases hc

/-- The step refuses no field whose children are of declared variants. -/
theorem judgeField_of_fits {v : View} (hk : v.kind ∈ Catalog.hack.kinds)
    (hlen : v.faces.length = v.kind.arity) (h : v.Fits) : judgeField v ≠ .refuse := by
  rw [judgeField_ne_refuse_iff]
  intro hname _
  have hkind : v.kind = fieldKind := Catalog.eq_of_mem_hack hk (by decide) hname
  obtain ⟨s₁, hs₁⟩ : ∃ s, v.kind.slot? "type" = some (3, s) := by
    rw [hkind]
    exact ⟨_, rfl⟩
  have hs₂ : v.kind.slot? "name" =
      some (1, ⟨"name", "field_name", [⟨.composite, "literal_expression"⟩]⟩) := by
    rw [hkind]
    rfl
  have haccepts := h.accepts hlen hs₂
  refine ⟨h.accepts hlen hs₁, fun _ => ⟨haccepts, ?_⟩⟩
  simp only [View.accepts, hs₂] at haccepts
  exact VariantSet.class_of_accepts (by decide) haccepts

/-- What a step puts into its slot is of a variant that the slot declares. -/
theorem fits_settle {b : Builtin} {v : View} (hk : v.kind ∈ Catalog.hack.kinds) (h : v.Fits) :
    (b.settle v).Fits := by
  by_cases hchange : b.judge v = .change
  · obtain ⟨i, s, hs, haccepts⟩ := b.exists_slot
    rw [← Builtin.kind_of_judge hk (by rw [hchange]; decide)] at hs
    rw [Builtin.settle_of_change hchange]
    exact h.put hs haccepts
  · rw [Builtin.settle, if_neg hchange]
    exact h

/-- The name of a field whose children are of declared variants is a literal, and has no fields
in it. -/
theorem countP_name {c : Composite} {q name arrow type : Node} (hkind : c.kind = fieldKind)
    (hcs : c.children = [q, name, arrow, type])
    (hviews : OfHack name) (hc : c.view.Fits) (hname : ∀ v ∈ name.views, v.Fits) :
    name.postOrder.countP lacksMark = 0 := by
  have haccepts : VariantSet.accepts [⟨.composite, "literal_expression"⟩] name.nodeClass name.kind :=
    hc (⟨"name", "field_name", [⟨.composite, "literal_expression"⟩]⟩, name.face)
      (by rw [Composite.view, hkind, hcs]; exact .tail _ (.head _))
  have hclass : name.nodeClass = .composite := VariantSet.class_of_accepts (by decide) haccepts
  cases name with
  | composite id k cs w =>
      have hmem : (⟨k, cs.map Node.face⟩ : View) ∈ (Node.composite id k cs w).views := by simp
      obtain ⟨hk, hlen⟩ := hviews _ hmem
      -- the slot of the name accepts literal expressions only, and these hold one token
      have hliteral : "literal_expression" = k.name := by
        simp [VariantSet.accepts, Variant.matches?, Node.kind] at haccepts
        exact haccepts.2
      obtain rfl : k = literalKind := Catalog.eq_of_mem_hack hk (by decide) hliteral.symm
      obtain ⟨m, rfl⟩ := List.length_eq_one_iff.mp ((List.length_map _).symm.trans hlen)
      have hm : m.nodeClass = .token :=
        VariantSet.class_of_accepts (by dsimp only; decide) (hname _ hmem (_, m.face) (.head _))
      cases m with
      | token t => rfl
      | _ => cases hm
  | _ => cases hclass

/-! ### Tokens that became others -/

/-- The tokens `ts` became `us`, which are all different, old ones or new. -/
structure Drawn (S S' : Set Node) (ts us : List Token) : Prop where
  subset : S ⊆ S'
  there : ∀ t ∈ us, .token t ∈ S'
  origin : ∀ t ∈ us, t ∈ ts ∨ .token t ∉ S
  nodup : us.Nodup

/-- The tokens `ts` became `us`, and their text got `k` question marks. -/
structure Grown (S S' : Set Node) (ts us : List Token) (k : Nat) : Prop extends
    Drawn S S' ts us where
  text : Text.Inserted questionMark k (ts.flatMap Token.fullText) (us.flatMap Token.fullText)

namespace Drawn

variable {S S₁ S₂ S' : Set Node} {ts ts' us us' : List Token}

theorem refl (hsub : S ⊆ S') (hts : ∀ t ∈ ts, .token t ∈ S) (hnodup : ts.Nodup) :
    Drawn S S' ts ts :=
  ⟨hsub, fun t ht => hsub (hts t ht), fun _ ht => .inl ht, hnodup⟩

/-- Old tokens that stand one behind the other. -/
theorem append (h : Drawn S S₁ ts us) (h' : Drawn S₁ S₂ ts' us')
    (hold : ∀ t ∈ ts', .token t ∈ S) (hnodup : (ts ++ ts').Nodup) :
    Drawn S S₂ (ts ++ ts') (us ++ us') where
  subset := h.subset.trans h'.subset
  there t ht := by
    rcases List.mem_append.mp ht with ht | ht
    · exact h'.subset (h.there t ht)
    · exact h'.there t ht
  origin t ht := by
    rcases List.mem_append.mp ht with ht | ht
    · exact (h.origin t ht).imp_left (List.mem_append_left _)
    · exact (h'.origin t ht).imp (List.mem_append_right _) fun hnew hmem => hnew (h.subset hmem)
  nodup := by
    refine List.nodup_append.mpr ⟨h.nodup, h'.nodup, ?_⟩
    rintro t ht _ ht' rfl
    -- a token on both sides was there before, on both sides
    have hright : t ∈ ts' := (h'.origin t ht').resolve_right fun hnew => hnew (h.there t ht)
    have hleft : t ∈ ts := (h.origin t ht).resolve_right fun hnew => hnew (hold t hright)
    exact (List.nodup_append.mp hnodup).2.2 t hleft t hright rfl

end Drawn

namespace Grown

variable {S S₁ S₂ S' : Set Node} {ts ts' us us' : List Token} {k k' : Nat}

theorem refl (hsub : S ⊆ S') (hts : ∀ t ∈ ts, .token t ∈ S) (hnodup : ts.Nodup) :
    Grown S S' ts ts 0 :=
  ⟨.refl hsub hts hnodup, .refl _⟩

theorem append (h : Grown S S₁ ts us k) (h' : Grown S₁ S₂ ts' us' k')
    (hold : ∀ t ∈ ts', .token t ∈ S) (hnodup : (ts ++ ts').Nodup) :
    Grown S S₂ (ts ++ ts') (us ++ us') (k + k') where
  toDrawn := h.toDrawn.append h'.toDrawn hold hnodup
  text := by
    rw [List.flatMap_append, List.flatMap_append]
    exact h.text.append h'.text

/-- The tokens of a field that gets its question mark. -/
theorem mark {s : Supply} {name name' : Node} {mark : Token} {rest : List Token}
    (h : Grown S S₁ ts (name.frontier ++ rest) k) (hsub : S₁ ⊆ S₂) (hsub' : S₂ ⊆ S')
    (hS : Objects S₂ s) (hname : name ∈ S₂) (hmarks : Marks S₂ name mark name')
    (hthere : ∀ t ∈ mark :: name'.frontier ++ rest, .token t ∈ S') :
    Grown S S' ts (mark :: name'.frontier ++ rest) (k + 1) := by
  obtain ⟨hleft, hright, hdisjoint⟩ := List.nodup_append.mp h.nodup
  obtain ⟨hnodup, horigin⟩ := hmarks.nodup hS hname hleft
  obtain ⟨after, htext, htext'⟩ := hmarks.text hS hname hleft
  have hsub₂ : S ⊆ S₂ := h.subset.trans hsub
  refine ⟨⟨hsub₂.trans hsub', hthere, fun t ht => ?_, List.nodup_append.mpr ⟨hnodup, hright, ?_⟩⟩, ?_⟩
  · rcases List.mem_append.mp ht with ht | ht
    · rcases horigin t ht with hold | hnew
      · exact h.origin t (List.mem_append_left _ hold)
      · exact .inr fun hmem => hnew (hsub₂ hmem)
    · exact h.origin t (List.mem_append_right _ ht)
  · rintro t ht _ ht' rfl
    rcases horigin t ht with hold | hnew
    · exact hdisjoint t hold t ht' rfl
    · exact hnew (hsub (h.there t (List.mem_append_right _ ht')))
  · have hinserted := h.text
    rw [List.flatMap_append, ← Node.fullText_eq, htext, List.append_assoc] at hinserted
    rw [List.flatMap_append, List.flatMap_cons, ← Node.fullText_eq, htext', List.append_assoc]
    exact hinserted.insert

end Grown

/-! ### One pass -/

/-- What the pass makes of a tree. -/
structure Marked (S S' : Set Node) (n r : Node) : Prop where
  face : r.face = n.face
  same : n.postOrder.countP lacksMark = 0 → r = n
  grown : Grown S S' n.frontier r.frontier (n.postOrder.countP lacksMark)
  places : (∀ v ∈ n.views, v.Fits) → ∀ i,
    r.fullText = Text.insertFrom questionMark (markPlaces i n) i n.fullText

/-- What the pass makes of several trees, one after the other. -/
structure MarkedAll (S S' : Set Node) (cs rs : List Node) : Prop where
  faces : rs.map Node.face = cs.map Node.face
  same : List.Forall₂ (fun c r => c.postOrder.countP lacksMark = 0 → r = c) cs rs
  grown : Grown S S' (Node.frontierAll cs) (Node.frontierAll rs)
    ((Node.postOrderAll cs).countP lacksMark)
  places : (∀ v ∈ Node.viewsAll cs, v.Fits) → ∀ i,
    Node.fullTextAll rs = Text.insertFrom questionMark (markPlacesAll i cs) i (Node.fullTextAll cs)

theorem markedAll_of_chain {S S' : Set Node} {cs rs : List Node} (h : Chain Marked S cs rs S')
    (hold : ∀ t ∈ Node.frontierAll cs, .token t ∈ S) (hnodup : (Node.frontierAll cs).Nodup)
    (hsound : ∀ c ∈ cs, c.Sound fun _ => True) : MarkedAll S S' cs rs := by
  induction h with
  | nil => exact ⟨rfl, .nil, .refl subset_rfl nofun .nil, fun _ _ => rfl⟩
  | @cons S S₁ S₂ c r cs rs hsub _ h hrest ih =>
      rw [Node.frontierAll_cons] at hold hnodup
      have ih := ih (fun t ht => hsub (hold t (List.mem_append_right _ ht)))
        (List.nodup_append.mp hnodup).2.1 fun d hd => hsound d (.tail _ hd)
      refine ⟨by simp [h.face, ih.faces], .cons h.same ih.same, ?_, fun hfits i => ?_⟩
      · rw [Node.frontierAll_cons, Node.frontierAll_cons, Node.postOrderAll, List.countP_append]
        exact h.grown.append ih.grown (fun t ht => hold t (List.mem_append_right _ ht)) hnodup
      · rw [Node.viewsAll_cons] at hfits
        have hc := h.places (fun v hv => hfits v (List.mem_append_left _ hv)) i
        have hcs := ih.places (fun v hv => hfits v (List.mem_append_right _ hv)) (i + c.width)
        have hwidth := (hsound c (.head _)).width_eq
        rw [Node.fullTextAll, Node.fullTextAll, markPlacesAll_cons, hc, hcs, hwidth]
        -- the places of the first child lie before its end, those of the others behind it
        refine (Text.insertFrom_append (fun x hx => ?_) (fun x hx => ?_) _).symm
        · rw [← hwidth]
          exact (markPlaces_within (hsound c (.head _)) i x hx).2
        · exact (markPlacesAll_within (fun d hd => markPlaces_within (hsound d (.tail _ hd)))
            _ x hx).1

section Node

variable {S S₁ S₂ : Set Node} {n m : Node} {rs : List Node}

theorem MarkedAll.eq_of_countP {cs : List Node} (h : MarkedAll S S₁ cs rs)
    (hzero : (Node.postOrderAll cs).countP lacksMark = 0) : rs = cs := by
  have hsame := h.same
  clear h
  induction hsame with
  | nil => rfl
  | cons hsame _ ih =>
      rw [Node.postOrderAll, List.countP_append, Nat.add_eq_zero_iff] at hzero
      rw [hsame hzero.1, ih hzero.2]

/-- A node that is kept. -/
theorem marked_of_keep (hall : MarkedAll S S₁ n.children rs) (hm : RegrownIn S₁ n rs m S₂)
    (hold : ∀ t ∈ n.frontier, .token t ∈ S) (hnodup : n.frontier.Nodup)
    (hkeep : lacksMark n = false) : Marked S S₂ n m := by
  have hcount : n.postOrder.countP lacksMark =
      (Node.postOrderAll n.children).countP lacksMark := by
    rw [countP_postOrder, hkeep]
    rfl
  refine ⟨hm.face, fun hzero => ?_, ?_, fun hfits i => ?_⟩
  · exact hm.eq_of_children (hall.eq_of_countP (hcount ▸ hzero))
  · rw [Node.frontier_eq] at hold hnodup
    rw [hcount, hm.frontier, Node.frontier_eq n]
    have hold : ∀ t ∈ n.token?.toList, .token t ∈ S := fun t ht =>
      hold t (List.mem_append_right _ ht)
    -- the token of the node itself, if there is one, stays as it is
    have hown : Grown S₁ S₂ n.token?.toList n.token?.toList 0 :=
      .refl hm.subset (fun t ht => hall.grown.subset (hold t ht)) (List.nodup_append.mp hnodup).2.1
    exact hall.grown.append hown hold hnodup
  · rw [markPlaces_eq, hkeep]
    by_cases hinner : n.IsInner
    · rw [Node.fullText_inner hinner, Node.fullText_inner (hm.isInner hinner), hm.children]
      exact hall.places (fun v hv => hfits v (Node.mem_views_of_children hv)) i
    · rw [hm.eq_of_leaf hinner]
      cases n with
      | missing | token _ => simp [Node.children]
      | list _ _ _ | composite _ _ _ _ => exact absurd trivial hinner

/-- The text of a field that gets its question mark, when its name has no fields in it. -/
theorem places_of_change {c : Composite} {name arrow type arrow' type' name' : Node} {mark : Token}
    {after : Text} {i : Nat} (hsound : c.toNode.Sound fun _ => True) (hk : c.kind = fieldKind)
    (hcs : c.children = [.missing, name, arrow, type]) (hlacks : lacksMark c.toNode = true)
    (hzero : name.postOrder.countP lacksMark = 0)
    (hplaces : Node.fullTextAll [.missing, name, arrow', type'] =
      Text.insertFrom questionMark (markPlacesAll i c.children) i (Node.fullTextAll c.children))
    (htext : name.fullText = frontText name ++ after)
    (htext' : mark.fullText ++ name'.fullText = frontText name ++ questionMark :: after) :
    Node.fullTextAll [.token mark, name', arrow', type'] =
      Text.insertFrom questionMark (markPlaces i c.toNode) i (Node.fullTextAll c.children) := by
  have hlead : nameLead c.toNode = (frontText name).length := by
    simp only [nameLead, Composite.toNode, Node.composite?, Composite.untyped, hk, hcs]
    rfl
  have hnone : markPlaces i name = [] := List.length_eq_zero_iff.mp (length_markPlaces name i ▸ hzero)
  have hplaces' : markPlacesAll i c.children = markPlacesAll (i + name.width) [arrow, type] := by
    rw [hcs, markPlacesAll_cons, markPlacesAll_cons]
    simp [Node.width, hnone, markPlaces_eq i .missing, lacksMark, Node.composite?, Node.children]
  have hwidth := (hsound.children name (by simp [Composite.toNode, Node.children, hcs])).width_eq
  -- the places of the other marks lie behind the front of the name
  have hbehind : ∀ x ∈ markPlacesAll i c.children, i + (frontText name).length ≤ x := by
    intro x hx
    rw [hplaces'] at hx
    have hrest := markPlacesAll_within (fun d hd => markPlaces_within (hsound.children d ?_)) _ x hx
    · have := frontText_length_le name
      omega
    · simp [Composite.toNode, Node.children, hcs] at hd ⊢
      tauto
  have hbefore : Node.fullTextAll c.children =
      frontText name ++ (after ++ Node.fullTextAll [arrow, type]) := by
    rw [hcs]
    simp [Node.fullTextAll, Node.fullText, htext]
  have hdone : Node.fullTextAll [.missing, name, arrow', type'] =
      frontText name ++ (after ++ Node.fullTextAll [arrow', type']) := by
    simp [Node.fullTextAll, Node.fullText, htext]
  rw [hbefore, hdone] at hplaces
  have hput := Text.insertFrom_put hbehind hplaces
  rw [markPlaces_eq, hlacks, if_pos rfl, hlead, hbefore]
  calc Node.fullTextAll [.token mark, name', arrow', type']
      = mark.fullText ++ name'.fullText ++ Node.fullTextAll [arrow', type'] := by
        simp [Node.fullTextAll, Node.fullText]
    _ = frontText name ++ questionMark :: (after ++ Node.fullTextAll [arrow', type']) := by
        rw [htext', List.append_assoc, List.cons_append]
    _ = _ := hput

/-- What a field had been whose children are done, when these are of declared variants: its name is
a literal, which the pass leaves alone. -/
theorem MarkedAll.field {c : Composite} {name arrow' type' : Node}
    (h : MarkedAll S S₁ c.children [.missing, name, arrow', type'])
    (hsound : c.toNode.Sound fun _ => True) (hk : c.kind = fieldKind) (hviews : OfHack c.toNode)
    (hfits : ∀ v ∈ c.toNode.views, v.Fits) :
    name.postOrder.countP lacksMark = 0 ∧
      ∃ arrow type, c.children = [.missing, name, arrow, type] := by
  obtain ⟨q, name₀, arrow, type, hcs⟩ := field_children hsound hk
  have hmem : ∀ v ∈ name₀.views, v ∈ c.toNode.views := fun v hv =>
    Node.mem_views_of_children (by simp [Composite.toNode, Node.children, hcs, hv])
  have hzero : name₀.postOrder.countP lacksMark = 0 :=
    countP_name hk hcs (fun v hv => hviews v (hmem v hv)) (hfits _ c.view_mem_views)
      fun v hv => hfits v (hmem v hv)
  have hfaces := h.faces
  have hsame := h.same
  rw [hcs] at hfaces hsame
  obtain rfl : q = .missing := Node.eq_missing_of_face (List.cons.inj hfaces).1.symm
  -- a name holds no field, so its pass gives back the object itself
  obtain rfl : name = name₀ := by
    cases hsame with
    | cons _ hsame => cases hsame with
      | cons hsame _ => exact hsame hzero
  exact ⟨hzero, arrow, type, hcs⟩

/-- A field that gets its question mark. -/
theorem marked_of_change {S₃ : Set Node} {s : Supply} {c₀ c c' : Composite} {mark : Token}
    {name arrow type name' : Node} (hall : MarkedAll S S₁ c₀.children c.children)
    (hsub : S₁ ⊆ S₂) (hsub' : S₂ ⊆ S₃) (hS : Objects S₂ s) (hc₀ : c₀.toNode ∈ S₂)
    (hc : c.toNode ∈ S₂) (hk₀ : c₀.kind = fieldKind) (hviews : OfHack c₀.toNode)
    (hlacks : lacksMark c₀.toNode = true) (hcs : c.children = [.missing, name, arrow, type])
    (hk' : c'.kind = fieldKind) (hcs' : c'.children = [.token mark, name', arrow, type])
    (hmarks : Marks S₂ name mark name') (hthere : ∀ t ∈ c'.toNode.frontier, .token t ∈ S₃) :
    Marked S S₃ c₀.toNode c'.toNode := by
  rw [hcs] at hall
  have hname : name ∈ S₂ := hS.child _ hc name (by simp [Composite.toNode, Node.children, hcs])
  have hcount : c₀.toNode.postOrder.countP lacksMark =
      (Node.postOrderAll c₀.children).countP lacksMark + 1 := by
    rw [countP_postOrder, hlacks]
    rfl
  -- the mark stands first, in front of the tokens of the name
  have htokens : c'.toNode.frontier = mark :: name'.frontier ++ Node.frontierAll [arrow, type] := by
    rw [Composite.toNode, Node.frontier_composite, hcs', Node.frontierAll_cons,
      Node.frontierAll_cons, Node.frontier_token]
    rfl
  have hgrown : Grown S S₁ c₀.toNode.frontier (name.frontier ++ Node.frontierAll [arrow, type])
      ((Node.postOrderAll c₀.children).countP lacksMark) := by
    have hgrown := hall.grown
    rwa [Node.frontierAll_cons, Node.frontier_missing, List.nil_append, Node.frontierAll_cons,
      ← Node.frontier_composite c₀.id c₀.kind c₀.children c₀.width] at hgrown
  refine ⟨?_, fun hzero => ?_, ?_, fun hfits i => ?_⟩
  · simp [Composite.toNode, Node.face, Node.nodeClass, Node.kind, Node.token?, hk', hk₀]
  · omega
  · rw [htokens] at hthere ⊢
    rw [hcount]
    exact hgrown.mark hsub hsub' hS hname hmarks hthere
  · have hsound := hS.sound _ hc₀
    have hplaces := hall.places (fun v hv => hfits v (Node.mem_views_of_children hv)) i
    obtain ⟨hzero, arrow₀, type₀, hcs₀⟩ := hall.field hsound hk₀ hviews hfits
    obtain ⟨after, htext, htext'⟩ := hmarks.text hS hname (List.nodup_append.mp hgrown.nodup).1
    have htop : c'.toNode.fullText = Node.fullTextAll c'.children := Node.fullText_inner trivial
    have htop₀ : c₀.toNode.fullText = Node.fullTextAll c₀.children := Node.fullText_inner trivial
    rw [htop, htop₀, hcs']
    exact places_of_change hsound hk₀ hcs₀ hlacks hzero hplaces htext htext'

end Node

theorem lacksMark_of_keep (hsound : n.Sound fun _ => True) (hviews : OfHack n)
    (hkeep : ∀ v, n.view? = some v → judgeField v = .keep) : lacksMark n = false := by
  cases n with
  | missing | token _ | list _ _ _ => rfl
  | composite id k cs w =>
      have hjudge : judgeField (Composite.view ⟨id, k, cs, w⟩) = .keep := hkeep _ rfl
      have hk := (hviews ⟨k, cs.map Node.face⟩ (by simp)).1
      have hiff := lacksMark_iff (c := ⟨id, k, cs, w⟩) hsound hk (by rw [hjudge]; decide)
      rw [hjudge] at hiff
      simpa [Composite.toNode] using hiff

/-- In the parts of a tree no token stands twice either. -/
theorem frontier_of_part {S : Set Node} {x : Node} (hnodup : n.frontier.Nodup)
    (hsub : {m | m ∈ n.postOrder} ⊆ S) (hx : x ∈ n.postOrder) :
    x.frontier.Nodup ∧ ∀ t ∈ x.frontier, .token t ∈ S :=
  ⟨((Node.postOrder_sublist hx).filterMap Node.token?).nodup hnodup, fun _ ht =>
    hsub (Node.token_mem_of_mem_frontier (fun _ h _ hc => Node.children_mem_postOrder h hc) hx ht)⟩

/-- What the children of a node became before the call for it, within the pass over a tree in which no
token stands twice. -/
theorem markedAll_of_part {S S₁ : Set Node} {x : Node} {rs : List Node} (hnodup : n.frontier.Nodup)
    (hsub : {m | m ∈ n.postOrder} ⊆ S) (hx : x ∈ n.postOrder)
    (hsound : x.Sound fun _ => True) (hchain : Chain Marked S x.children rs S₁) :
    MarkedAll S S₁ x.children rs := by
  obtain ⟨hnodup, hold⟩ := frontier_of_part hnodup hsub hx
  rw [Node.frontier_eq] at hold hnodup
  exact markedAll_of_chain hchain (fun t ht => hold t (List.mem_append_left _ ht))
    (List.nodup_append.mp hnodup).1 hsound.children

/-- **One call of the step** within the pass over a tree in which no token stands twice. -/
theorem optionalField_marks (hnodup : n.frontier.Nodup) (hviews : OfHack n) :
    optionalField.Makes {m | m ∈ n.postOrder} Marked fun _ => True where
  up _ _ _ := trivial
  call {S S₁ S₂ x m rs a s} hsub hx hchain hm hmem hobjects := by
    have hviews : OfHack x := hviews.part hx
    have hsub₂ : S₁ ⊆ S₂ := hm.subset
    have hx₂ : x ∈ S₂ := hsub₂ (hchain.subset (hsub hx))
    have hsound := hobjects.sound x hx₂
    have hall := markedAll_of_part hnodup hsub hx hsound hchain
    obtain ⟨hnodup, hold⟩ := frontier_of_part hnodup hsub hx
    have hview : m.view? = x.view? := hm.view? hall.faces
    by_cases hkeep : ∀ v, x.view? = some v → judgeField v = .keep
    · have hcall : optionalField m a s = .ok (some m, s) :=
        Builtin.call_keep (b := .optionalField) (hview ▸ hkeep) a s
      rw [hcall]
      exact ⟨S₂, subset_rfl, hobjects, hmem, marked_of_keep hall hm hold hnodup
        (lacksMark_of_keep hsound hviews hkeep)⟩
    push Not at hkeep
    obtain ⟨v, hv, hjudge⟩ := hkeep
    obtain ⟨c, rfl, rfl⟩ := exists_composite (hview.trans hv)
    obtain ⟨c₀, rfl, hc₀⟩ := exists_composite hv
    cases hverdict : judgeField c.view with
    | keep => exact absurd hverdict hjudge
    | refuse =>
        obtain ⟨e, he⟩ := optionalField_follows hverdict a s
        rw [he]
        trivial
    | change =>
        obtain rfl : c.children = rs := hm.children
        have hk₀ : c₀.kind ∈ Catalog.hack.kinds := (hviews _ c₀.view_mem_views).1
        have hkind : c.kind = c₀.kind := congrArg View.kind hc₀.symm
        obtain ⟨hfield, name, arrow, type, hcs⟩ :=
          field_of_change (hobjects.sound _ hmem) (hkind ▸ hk₀) hverdict
        obtain ⟨c', s', S₃, mark, name', hcall, hsub₃, hS₃, hmem', hkind', hcs', hmarks⟩ :=
          optionalField_change hobjects hmem hfield hcs hverdict a
        have hlacks : lacksMark c₀.toNode = true :=
          (lacksMark_iff hsound hk₀ (by rw [hc₀, hverdict]; decide)).mpr (hc₀ ▸ hverdict)
        rw [hcall]
        exact ⟨S₃, hsub₃, hS₃, hmem', marked_of_change hall hsub₂ hsub₃ hobjects hx₂ hmem
          (hkind ▸ hfield) hviews hlacks hcs hkind' hcs' hmarks fun t ht =>
            Node.token_mem_of_mem_frontier hS₃.child hmem' ht⟩

/-! ### The migration -/

/-- The migration on a tree among objects in which no token stands twice. -/
theorem optionalShapeFields_apply {S : Set Node} {s : Supply} (h : Ready S s n)
    (hnodup : n.frontier.Nodup) :
    (∃ e, optionalShapeFields.apply n s = .error e ∧ ¬Builtin.optionalField.Admits n) ∨
      ∃ r s' S', optionalShapeFields.apply n s = .ok (r, s') ∧ Objects S' s' ∧ r ∈ S' ∧
        Settled .optionalField n r ∧ ∃ S', Marked S S' n r := by
  have happly : optionalShapeFields.apply n s =
      (Builtin.optionalField.step.apply n s).mapError (⟨optionalShapeFields.name, ·⟩) := by
    have hsteps : applySteps optionalShapeFields.steps n = Builtin.optionalField.step.apply n :=
      bind_pure _
    rw [Migration.apply, hsteps]
  rw [happly]
  obtain ⟨S', -, hS', ⟨e, he, hrefuse⟩ | ⟨r, hr, hmem, hsettled⟩⟩ :=
    Builtin.optionalField.pass_settles h
  · rw [step_apply_error he]
    exact .inl ⟨_, rfl, hrefuse⟩
  · have hmakes : Builtin.optionalField.step.transform.Makes {m | m ∈ n.postOrder} Marked
        fun _ => True := optionalField_marks hnodup h.views
    obtain ⟨S'', -, -, ⟨e, he, -⟩ | ⟨r', hr', -, hmarked⟩⟩ :=
      applyWithStats_makes hmakes h.objects h.mem
    · cases he.symm.trans hr
    · cases hr'.symm.trans hr
      rw [step_apply_ok hr]
      exact .inr ⟨r, _, S', rfl, hS', hmem, hsettled, S'', hmarked⟩

/-! ### A field -/

section Field

open Parse

/-- Parser output for a token with trivia in front of it. -/
def tokenValue (kind : String) (leading : List Json) (text : String) : Json :=
  .obj [("kind", .str "token"),
    ("token", .obj [("kind", .str kind), ("leading", .arr leading), ("text", .str text)])]

theorem nodeOf_tokenValue {ctx : Context} {kind text : String} {leading : List Json} {o p : Nat}
    {s : Supply} {ts : List Trivia} (hkind : ctx.catalog.isToken kind = true)
    (hleading : ∀ path, triviaItems ctx path kind 0 leading o s = .ok ((ts, p), s))
    (htext : ctx.source.At p (Text.ofString text)) (path : ValuePath) :
    nodeOf ctx path (tokenValue kind leading text) o s =
      .ok (.token ⟨s, kind, ts, text, [], triviaWidth ts + (Text.ofString text).length⟩, s + 1) := by
  rw [tokenValue, nodeOf_token rfl]
  refine Make.bind_eq_ok.mpr ⟨_, s + 1, ?_, rfl⟩
  show (if ctx.catalog.isToken kind then _ else _ : Builder Token) s = _
  rw [if_pos hkind]
  refine Make.bind_eq_ok.mpr ⟨_, s, hleading _, ?_⟩
  exact Make.bind_eq_ok.mpr ⟨_, s, (textOf_text rfl).mpr ⟨htext, rfl⟩, rfl⟩

theorem nodeOf_compositeValue {ctx : Context} {path : ValuePath} {members : List (String × Json)}
    {k : Kind} {ns : List Node} {o : Nat} {s s' : Supply}
    (hkind : Json.member? members "kind" = some (.str k.name))
    (hname : k.name ∉ Parse.reservedKinds) (hk : ctx.catalog.kind? k.name = some k)
    (hslots : slotsOf ctx path k.name members k.slots o s = .ok (ns, s')) :
    nodeOf ctx path (.obj members) o s = .ok (.composite s' k ns (Node.totalWidth ns), s' + 1) := by
  have hlen := (slotsOf_realizes ctx path _ members _ o hslots).1
  rw [nodeOf_composite hkind hname hk]
  exact Make.bind_eq_ok.mpr ⟨ns, s', hslots, compositeOf_apply hlen s'⟩

theorem slotsOf_cons_ok {ctx : Context} {path : ValuePath} {kind : String}
    {members : List (String × Json)} {slot : Slot} {slots : List Slot} {v : Json} {n : Node}
    {ns : List Node} {o : Nat} {s s₁ s₂ : Supply} (hv : Json.member? members slot.key = some v)
    (hn : nodeOf ctx (path ++ [.key slot.key]) v o s = .ok (n, s₁))
    (hns : slotsOf ctx path kind members slots (o + n.width) s₁ = .ok (ns, s₂)) :
    slotsOf ctx path kind members (slot :: slots) o s = .ok (n :: ns, s₂) := by
  rw [slotsOf_cons hv]
  exact Make.bind_eq_ok.mpr ⟨n, s₁, hn, Make.bind_eq_ok.mpr ⟨ns, s₂, hns, rfl⟩⟩

theorem elementsOf_cons_ok {ctx : Context} {path : ValuePath} {v : Json} {vs : List Json} {n : Node}
    {ns : List Node} {i o : Nat} {s s₁ s₂ : Supply}
    (hn : nodeOf ctx (path ++ [.index i]) v o s = .ok (n, s₁))
    (hns : elementsOf ctx path (i + 1) vs (o + n.width) s₁ = .ok (ns, s₂)) :
    elementsOf ctx path i (v :: vs) o s = .ok (n :: ns, s₂) := by
  rw [elementsOf]
  exact Make.bind_eq_ok.mpr ⟨n, s₁, hn, Make.bind_eq_ok.mpr ⟨ns, s₂, hns, rfl⟩⟩

/-- Parser output for a field without a question mark. -/
def fieldValue : Json :=
  .obj [("kind", .str "field_specifier"), ("field_question", .obj [("kind", .str "missing")]),
    ("field_name", .obj [("kind", .str "literal_expression"),
      ("literal_expression", tokenValue "single_quoted_string_literal"
        [.obj [("kind", .str "whitespace"), ("text", .str " ")]] "'a'")]),
    ("field_arrow", tokenValue "equal_greater_than" [] "=>"),
    ("field_type", .obj [("kind", .str "nullable_type_specifier"),
      ("nullable_question", tokenValue "question" [] "?"),
      ("nullable_type", .obj [("kind", .str "simple_type_specifier"),
        ("simple_type_specifier", tokenValue "int" [] "int")])])]

/-- The tree of the field. -/
def fieldTree : Node :=
  .composite 8 fieldKind
    [.missing,
      .composite 2 literalKind
        [.token ⟨1, "single_quoted_string_literal", [⟨"whitespace", " "⟩], "'a'", [], 4⟩] 4,
      .token ⟨3, "equal_greater_than", [], "=>", [], 2⟩,
      .composite 7 Catalog.nullableKind
        [.token ⟨4, "question", [], "?", [], 1⟩,
          .composite 6 Catalog.simpleKind [.token ⟨5, "int", [], "int", [], 3⟩] 3] 4] 10

/-- The field is built from every source that starts with its text. -/
theorem nodeOf_fieldValue {source : Text}
    (hsource : ∀ o u, Text.At " 'a'=>?int" o u → source.At o u) (path : ValuePath) :
    nodeOf ⟨Catalog.hack, "a.hack", source⟩ path fieldValue 0 Supply.start = .ok (fieldTree, 9) := by
  -- all that matters of the catalog is what it knows
  have hkinds : ∀ k ∈ Catalog.migratedKinds, Catalog.hack.kind? k.name = some k :=
    fun _ => Catalog.hack_kind?
  have htokens : ∀ k ∈ Catalog.hackDocument.tokens, Catalog.hack.isToken k = true :=
    fun _ => Catalog.hack_isToken
  have htrivia : Catalog.hack.isTrivia "whitespace" = true := Catalog.hack_isTrivia (by decide)
  generalize Catalog.hack = c at hkinds htokens htrivia ⊢
  let ctx : Context := ⟨c, "a.hack", source⟩
  let blank : Json := .obj [("kind", .str "whitespace"), ("text", .str " ")]
  have hblank : ∀ path, triviaItems ctx path "single_quoted_string_literal" 0 [blank] 0 1 =
      .ok (([⟨"whitespace", " "⟩], 1), 1) := by
    intro path
    have hone : triviaOf ctx (path ++ [.index 0]) "single_quoted_string_literal" blank 0 1 =
        .ok (⟨"whitespace", " "⟩, 1) :=
      triviaOf_eq_ok_iff.mpr
        ⟨"whitespace", .text " ", " ", .intro rfl htrivia (.text rfl), rfl, hsource _ _ rfl, rfl⟩
    exact Make.bind_eq_ok.mpr ⟨_, 1, hone, rfl⟩
  have hnone : ∀ kind o s path, triviaItems ctx path kind 0 [] o s = .ok (([], o), s) :=
    fun _ _ _ _ => rfl
  have hname : ∀ path, nodeOf ctx path (tokenValue "single_quoted_string_literal" [blank] "'a'") 0 1 =
      .ok (.token ⟨1, "single_quoted_string_literal", [⟨"whitespace", " "⟩], "'a'", [], 4⟩, 2) :=
    nodeOf_tokenValue (htokens _ (by decide)) hblank (hsource _ _ rfl)
  have harrow : ∀ path, nodeOf ctx path (tokenValue "equal_greater_than" [] "=>") 4 3 =
      .ok (.token ⟨3, "equal_greater_than", [], "=>", [], 2⟩, 4) :=
    nodeOf_tokenValue (htokens _ (by decide)) (hnone _ _ _) (hsource _ _ rfl)
  have hquestion : ∀ path, nodeOf ctx path (tokenValue "question" [] "?") 6 4 =
      .ok (.token ⟨4, "question", [], "?", [], 1⟩, 5) :=
    nodeOf_tokenValue (htokens _ (by decide)) (hnone _ _ _) (hsource _ _ rfl)
  have hint : ∀ path, nodeOf ctx path (tokenValue "int" [] "int") 7 5 =
      .ok (.token ⟨5, "int", [], "int", [], 3⟩, 6) :=
    nodeOf_tokenValue (htokens _ (by decide)) (hnone _ _ _) (hsource _ _ rfl)
  have hend : ∀ path kind members o s, slotsOf ctx path kind members [] o s = .ok ([], s) := by
    intro path kind members o s
    rw [slotsOf]
    rfl
  refine nodeOf_compositeValue (k := fieldKind) rfl (by decide) (hkinds _ (by decide)) ?_
  refine slotsOf_cons_ok rfl (by rw [nodeOf_missing rfl]; rfl) ?_
  refine slotsOf_cons_ok rfl (nodeOf_compositeValue (k := literalKind) rfl (by decide)
    (hkinds _ (by decide)) (slotsOf_cons_ok rfl (hname _) (hend _ _ _ _ _))) ?_
  refine slotsOf_cons_ok rfl (harrow _) ?_
  refine slotsOf_cons_ok rfl (nodeOf_compositeValue (k := Catalog.nullableKind) rfl (by decide)
    (hkinds _ (by decide)) (slotsOf_cons_ok rfl (hquestion _) ?_)) (hend _ _ _ _ _)
  exact slotsOf_cons_ok rfl (nodeOf_compositeValue (k := Catalog.simpleKind) rfl (by decide)
    (hkinds _ (by decide)) (slotsOf_cons_ok rfl (hint _) (hend _ _ _ _ _))) (hend _ _ _ _ _)

theorem fieldTree_built :
    fromJson Catalog.hack fieldValue "a.hack" 0 " 'a'=>?int" Supply.start = .ok (fieldTree, 9) :=
  fromJson_eq_ok_iff.mpr ⟨by decide, nodeOf_fieldValue (fun _ _ h => h) _⟩

end Field

/-! ### Effect -/

/-- For every tree built from parser output with the catalog of Hack: when the migration succeeds, the
text of the result is that of the tree with one question mark put in for every field that lacks one,
the width grows by their number, and without such a field the result is the tree itself. When every
child of the tree is of a variant that its slot declares, the migration succeeds, every question mark
is put in where its field starts, behind the trivia in front of its name, and every child of the
result is of a declared variant again. -/
theorem optionalFields_effect {v : Json} {file : String} {offset : Int} {source : Text}
    {s s' supply : Supply} {tree : Node} (hstart : Supply.start ≤ s)
    (hbuilt : Parse.fromJson Catalog.hack v file offset source s = .ok (tree, s'))
    (hsupply : s' ≤ supply) :
    (∀ (result : Node) (supply' : Supply),
      optionalShapeFields.apply tree supply = .ok (result, supply') →
        Text.Inserted questionMark (tree.postOrder.countP lacksMark) tree.fullText
          result.fullText ∧
        result.width = tree.width + tree.postOrder.countP lacksMark ∧
        (tree.postOrder.countP lacksMark = 0 → result = tree)) ∧
    (Declared tree → ∃ (result : Node) (supply' : Supply),
      optionalShapeFields.apply tree supply = .ok (result, supply') ∧
        result.fullText = tree.fullText.insertAt questionMark (markPlaces 0 tree) ∧
        (markPlaces 0 tree).length = tree.postOrder.countP lacksMark ∧
        Declared result) := by
  obtain ⟨S, herected⟩ := Parse.fromJson_objects (Objects.start.mono hstart) hbuilt
  have hsound := Parse.fromJson_sound hbuilt
  have hready : Ready S supply tree :=
    .of_sound (herected.objects.mono hsupply) herected.mem hsound
  have happly := optionalShapeFields_apply hready herected.tokens.nodup
  refine ⟨fun result supply' hresult => ?_, fun hdeclared => ?_⟩
  · obtain ⟨e, he, -⟩ | ⟨r, s'', S', hr, hS', hmem, hsettled, S'', hmarked⟩ := happly
    · cases he.symm.trans hresult
    · cases hr.symm.trans hresult
      have htext := hmarked.grown.text
      rw [← Node.fullText_eq, ← Node.fullText_eq] at htext
      refine ⟨htext, ?_, hmarked.same⟩
      rw [hsound.width_eq, (hS'.sound _ hmem).width_eq, htext.length_eq]
  · rw [declared_iff] at hdeclared
    obtain ⟨e, he, hrefuse⟩ | ⟨r, s'', S', hr, hS', hmem, hsettled, S'', hmarked⟩ := happly
    · refine absurd (fun v hv => ?_) hrefuse
      obtain ⟨hk, hlen⟩ := hready.views v hv
      exact judgeField_of_fits hk hlen (hdeclared v hv)
    · refine ⟨r, s'', hr, hmarked.places hdeclared 0, length_markPlaces tree 0, ?_⟩
      rw [declared_iff, hsettled.views, List.forall_mem_map]
      exact fun v hv => fits_settle (hready.views v hv).1 (hdeclared v hv)

theorem optionalFields_effect_fieldTree :
    (Supply.start ≤ Supply.start ∧ Parse.fromJson Catalog.hack fieldValue "a.hack" 0 " 'a'=>?int"
        Supply.start = .ok (fieldTree, 9) ∧ 9 ≤ 9) ∧
      (Declared fieldTree ∧ fieldTree.postOrder.countP lacksMark = 1 ∧ markPlaces 0 fieldTree = [1]) ∧
      ∃ (result : Node) (supply' : Supply),
        optionalShapeFields.apply fieldTree 9 = .ok (result, supply') ∧
          result.fullText = Text.ofString " ?'a'=>?int" ∧ result.width = 11 ∧ Declared result := by
  have heffect := optionalFields_effect (Nat.le_refl _) fieldTree_built (Nat.le_refl 9)
  have hdeclared : Declared fieldTree := by decide
  obtain ⟨result, supply', happly, htext, -, hresult⟩ := heffect.2 hdeclared
  obtain ⟨-, hwidth, -⟩ := heffect.1 result supply' happly
  exact ⟨⟨Nat.le_refl _, fieldTree_built, Nat.le_refl 9⟩, ⟨hdeclared, by decide, by decide⟩, result,
    supply', happly, htext.trans (by decide), hwidth, hresult⟩

end Migration

end Lossless
