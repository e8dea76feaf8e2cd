import Lossless.Proofs.Node.Equality
import Lossless.Proofs.Node.Outline

/-!
# Node — outlines tell trees apart

With plain names, what a node says of itself in an outline tells all of the node but its children and
the way its trivia is cut into pieces: the class is read off the characters that plain names do not
have (`nodeClass_of_headline`), a kind ends at the first space, and quoted texts can be read back
(`eq_of_headline_token`).  It also tells the number of children, so the lines of a tree are told from
those behind it without a look at their indentation (`alike_of_outlineAt`).

**Outlines** (`outline_tells_tree`).  Trees with names of the catalog have the same outline if and
only if they are alike once the trivia of every token is one piece (`Node.merged`), and the lines of an
outline are those of the nodes in pre-order, each indented by two spaces for each level.
-/

namespace Lossless

namespace Node

/-! ### What a node says of itself -/

/-- The class of a node, read off what it says of itself. -/
def classOf (words : List Char) : NodeClass :=
  if ':' ∈ words then .token else if '[' ∈ words then .list
  else if words = "missing".toList then .missing else .composite

/-- The class of a node with plain names can be read. -/
theorem classOf_headline {n : Node} (h : n.Plain) : classOf n.headline.toList = n.nodeClass := by
  cases n with
  | missing => decide
  | token t =>
      have hcolon : ':' ∈ (headline (.token t)).toList := by simp [headline]
      rw [classOf, if_pos hcolon]
      rfl
  | list id items w =>
      have hcolon : ':' ∉ (headline (.list id items w)).toList := by
        have hlength := (Text.plain_toString items.length).colon
        simpa [headline] using hlength
      rw [classOf, if_neg hcolon, if_pos (by simp [headline])]
      rfl
  | composite id k cs w =>
      have hname : k.name.toList ≠ "missing".toList := fun he => h.unreserved (String.toList_inj.mp he)
      rw [classOf, headline, if_neg h.name.colon, if_neg h.name.bracket, if_neg hname]
      rfl

theorem nodeClass_of_headline {a b : Node} (ha : a.Plain) (hb : b.Plain)
    (h : a.headline = b.headline) : a.nodeClass = b.nodeClass := by
  rw [← classOf_headline ha, h, classOf_headline hb]

/-- A part that is left out when it is empty tells its text, unless what follows has its label. -/
theorem outlinePart_append_inj {label : String} {t u : Text} {xs ys : List Char}
    (hxs : ¬ label.toList <+: xs) (hys : ¬ label.toList <+: ys)
    (h : (outlinePart label t).toList ++ xs = (outlinePart label u).toList ++ ys) :
    t = u ∧ xs = ys := by
  have hpart (t : Text) (ht : t ≠ []) :
      (outlinePart label t).toList = label.toList ++ (Text.quote t).toList := by
    rw [outlinePart, if_neg (by simpa using ht), String.toList_append]
  -- an empty text shows nothing, and what follows does not start with the label
  by_cases ht : t = []
  · by_cases hu : u = []
    · subst ht hu
      exact ⟨rfl, List.append_cancel_left h⟩
    · subst ht
      rw [hpart u hu, List.append_assoc] at h
      exact absurd ⟨_, h.symm⟩ hxs
  · by_cases hu : u = []
    · subst hu
      rw [hpart t ht, List.append_assoc] at h
      exact absurd ⟨_, h⟩ hys
    · rw [hpart t ht, hpart u hu, List.append_assoc, List.append_assoc] at h
      exact Text.quote_append_inj (List.append_cancel_left h)

/-- What a token says of itself tells all but how its trivia is cut. -/
theorem eq_of_headline_token {t u : Token} (ht : Text.Plain t.kind) (hu : Text.Plain u.kind)
    (h : headline (.token t) = headline (.token u)) :
    t.kind = u.kind ∧ t.text = u.text ∧ t.leadingText = u.leadingText ∧
      t.trailingText = u.trailingText := by
  -- the label of the leading text is never the start of the part for the trailing one
  have hlead (v : Text) : ¬ " leading=".toList <+: (outlinePart " trailing=" v).toList := by
    rw [outlinePart]
    split
    · decide
    · rw [String.toList_append]
      rintro ⟨_, he⟩
      cases he
  have hwords := congrArg String.toList h
  simp only [headline, String.toList_append, List.append_assoc] at hwords
  obtain ⟨hkind, hwords⟩ := append_cons_inj_of_first ht.space hu.space
    (List.append_cancel_left hwords)
  obtain ⟨htext, hwords⟩ := Text.quote_append_inj hwords
  obtain ⟨hleading, hwords⟩ := outlinePart_append_inj (hlead _) (hlead _) hwords
  rw [← List.append_nil (outlinePart _ t.trailingText).toList,
    ← List.append_nil (outlinePart _ u.trailingText).toList] at hwords
  obtain ⟨htrailing, -⟩ := outlinePart_append_inj (by decide) (by decide) hwords
  exact ⟨String.toList_inj.mp hkind, htext, hleading, htrailing⟩

/-- What a list says of itself tells its length. -/
theorem length_of_headline {id id' w w' : Nat} {items items' : List Node}
    (h : headline (.list id items w) = headline (.list id' items' w')) :
    items.length = items'.length := by
  have hdigits := String.append_right_inj _ |>.mp (String.append_left_inj _ |>.mp h)
  simp only [Nat.toString_eq_ofList_toDigits, String.ofList_inj] at hdigits
  rw [← Nat.ofDigitChars_ten_toDigits (n := items.length), hdigits, Nat.ofDigitChars_ten_toDigits]

/-! ### Trivia in one piece -/

end Node

/-- A token with its leading and its trailing trivia in one piece each. -/
def Token.merged (t : Token) : Token :=
  { t with leading := [⟨"", t.leadingText⟩], trailing := [⟨"", t.trailingText⟩] }

@[simp] theorem Token.leadingText_merged (t : Token) : t.merged.leadingText = t.leadingText :=
  List.append_nil _

@[simp] theorem Token.trailingText_merged (t : Token) : t.merged.trailingText = t.trailingText :=
  List.append_nil _

namespace Node

mutual
/-- The tree with the trivia of every token in one piece. -/
def merged : Node → Node
  | .missing => .missing
  | .token t => .token t.merged
  | .list id items w => .list id (mergedAll items) w
  | .composite id k cs w => .composite id k (mergedAll cs) w

@[inherit_doc merged]
def mergedAll : List Node → List Node
  | [] => []
  | n :: ns => merged n :: mergedAll ns
end

theorem mergedAll_eq (ns : List Node) : mergedAll ns = ns.map merged := by
  induction ns with
  | nil => rfl
  | cons n ns ih => rw [mergedAll, ih, List.map_cons]

theorem children_merged (n : Node) : n.merged.children = mergedAll n.children := by
  cases n <;> rfl

theorem slotNames_merged (n : Node) : n.merged.slotNames = n.slotNames := by
  cases n with
  | list id items w => simp only [merged, slotNames, mergedAll_eq, List.length_map]
  | missing | token _ | composite _ _ _ _ => rfl

theorem width_merged (n : Node) : n.merged.width = n.width := by cases n <;> rfl

theorem headline_merged (n : Node) : n.merged.headline = n.headline := by
  cases n with
  | token t =>
      simp only [merged, headline, Token.leadingText_merged, Token.trailingText_merged]
      rfl
  | list id items w => simp only [merged, headline, mergedAll_eq, List.length_map]
  | missing | composite _ _ _ _ => rfl

/-- Merging trivia keeps a tree sound. -/
theorem Sound.merged {K : Kind → Prop} {n : Node} (h : n.Sound K) : n.merged.Sound K := by
  have hwidth (ns : List Node) : totalWidth (mergedAll ns) = totalWidth ns := by
    rw [totalWidth, mergedAll_eq, List.map_map, show width ∘ Node.merged = width from
      funext width_merged, totalWidth]
  induction h with
  | missing => exact .missing
  | token hw =>
      refine .token (hw.trans ?_)
      simp only [Token.fullText, Token.leadingText_merged, Token.trailingText_merged]
      rfl
  | list _ ih =>
      refine sound_list_iff.mpr ⟨(hwidth _).symm, ?_⟩
      rwa [mergedAll_eq, List.forall_mem_map]
  | composite hK hk _ ih =>
      refine sound_composite_iff.mpr ⟨hK, ?_, (hwidth _).symm, ?_⟩
      · rwa [mergedAll_eq, List.length_map]
      · rwa [mergedAll_eq, List.forall_mem_map]

/-- How trivia is cut does not show in an outline. -/
theorem outlineAt_merged (depth : Nat) (label : String) (n : Node) :
    n.merged.outlineAt depth label = n.outlineAt depth label := by
  induction n using children_induct generalizing depth label with
  | step n ih =>
      have hall (labels : List String) (cs : List Node) (h : cs ⊆ n.children) :
          outlineAll (depth + 1) labels (mergedAll cs) = outlineAll (depth + 1) labels cs := by
        induction cs generalizing labels with
        | nil => rfl
        | cons c cs ihcs =>
            rw [mergedAll, outlineAll, outlineAll, ih c (h (.head _)),
              ihcs _ fun d hd => h (.tail _ hd)]
      rw [outlineAt_eq, outlineAt_eq, outlineLine, headline_merged, slotNames_merged,
        children_merged, hall _ _ (List.Subset.refl _), ← outlineLine]

/-! ### Trees told apart -/

section Named

variable {K : Kind → Prop} {a b : Node}

/-- What nodes say of themselves tells the names and the number of their children. -/
theorem slots_of_headline (hK : Legible K) (ha : a.Named K) (hb : b.Named K)
    (h : a.headline = b.headline) :
    a.slotNames = b.slotNames ∧ a.children.length = b.children.length := by
  have hclass := nodeClass_of_headline (ha.plain hK) (hb.plain hK) h
  cases a with
  | missing | token _ =>
      cases b with
      | missing | token _ => exact ⟨rfl, rfl⟩
      | _ => cases hclass
  | list id items w =>
      cases b with
      | list id' items' w' =>
          have hlen := length_of_headline h
          exact ⟨by simp only [slotNames, hlen], hlen⟩
      | _ => cases hclass
  | composite id k cs w =>
      cases b with
      | composite id' k' cs' w' =>
          obtain ⟨hk, hlen, -⟩ := sound_composite_iff.mp ha.sound
          obtain ⟨hk', hlen', -⟩ := sound_composite_iff.mp hb.sound
          -- in a legible catalog the name tells the kind
          obtain rfl := hK.known k k' hk hk' h
          exact ⟨rfl, hlen.trans hlen'.symm⟩
      | _ => cases hclass

/-- Nodes that say the same of themselves are alike when their children are. -/
theorem alike_of_headline (hK : Legible K) (ha : a.Named K) (hb : b.Named K)
    (h : a.headline = b.headline) (hcs : AlikeAll (mergedAll a.children) (mergedAll b.children)) :
    Alike a.merged b.merged := by
  have hclass := nodeClass_of_headline (ha.plain hK) (hb.plain hK) h
  cases a with
  | missing =>
      cases b with
      | missing => exact .missing
      | _ => cases hclass
  | token t =>
      cases b with
      | token u =>
          obtain ⟨hkind, htext, hleading, htrailing⟩ :=
            eq_of_headline_token (ha.plain hK) (hb.plain hK) h
          refine .token hkind ?_ htext ?_
          · simp only [Token.merged, hleading]
          · simp only [Token.merged, htrailing]
      | _ => cases hclass
  | list id items w =>
      cases b with
      | list id' items' w' => exact .list hcs
      | _ => cases hclass
  | composite id k cs w =>
      cases b with
      | composite id' k' cs' w' => exact .composite h hcs
      | _ => cases hclass

/-- **The lines of a tree tell the tree**, and what stands behind them. -/
theorem alike_of_outlineAt (hK : Legible K) (ha : a.Named K) (hb : b.Named K) {depth : Nat}
    {label : String} {xs ys : List String}
    (h : a.outlineAt depth label ++ xs = b.outlineAt depth label ++ ys) :
    Alike a.merged b.merged ∧ xs = ys := by
  -- on trees side by side, with whatever stands behind them
  induction a using children_induct generalizing b depth label xs ys with
  | step a ih =>
      have hall {cs ds : List Node} (hcs : cs ⊆ a.children) (hds : ds ⊆ b.children)
          (hlen : cs.length = ds.length) {labels : List String}
          (h : outlineAll (depth + 1) labels cs ++ xs = outlineAll (depth + 1) labels ds ++ ys) :
          AlikeAll (mergedAll cs) (mergedAll ds) ∧ xs = ys := by
        induction cs generalizing ds labels with
        | nil =>
            cases ds with
            | nil => exact ⟨.nil, h⟩
            | cons d ds => cases hlen
        | cons c cs ihcs =>
            cases ds with
            | nil => cases hlen
            | cons d ds =>
                rw [outlineAll, outlineAll, List.append_assoc, List.append_assoc] at h
                obtain ⟨hc, hbehind⟩ := ih c (hcs (.head _)) (ha.children c (hcs (.head _)))
                  (hb.children d (hds (.head _))) h
                obtain ⟨hrest, hxs⟩ := ihcs (fun x hx => hcs (.tail _ hx))
                  (fun x hx => hds (.tail _ hx)) (Nat.succ.inj hlen) hbehind
                exact ⟨.cons hc hrest, hxs⟩
      rw [outlineAt_eq, outlineAt_eq, List.cons_append, List.cons_append] at h
      obtain ⟨hline, hbelow⟩ := List.cons.inj h
      have hheadline : a.headline = b.headline :=
        String.append_right_inj _ |>.mp (String.append_left_inj _ |>.mp hline)
      obtain ⟨hslots, hlen⟩ := slots_of_headline hK ha hb hheadline
      rw [hslots] at hbelow
      obtain ⟨hchildren, hxs⟩ := hall (List.Subset.refl _) (List.Subset.refl _) hlen hbelow
      exact ⟨alike_of_headline hK ha hb hheadline hchildren, hxs⟩

/-- **Outlines tell trees apart** but for the way that trivia is cut. -/
theorem outline_eq_iff (hK : Legible K) (ha : a.Named K) (hb : b.Named K) :
    a.outline = b.outline ↔ Alike a.merged b.merged := by
  constructor
  · intro h
    have hlines := lines_outline hK ha
    rw [h, lines_outline hK hb, Text.ofString_injective.list_map.eq_iff] at hlines
    exact (alike_of_outlineAt hK ha hb (congrArg (· ++ []) hlines.symm)).1
  · intro h
    have hout := h.outlineAt hK.known 0 "" ha.sound.merged hb.sound.merged
    rw [outlineAt_merged, outlineAt_merged] at hout
    rw [outline, outline, hout]

end Named

end Node

/-! ### Outlines of trees of the catalog -/

open Catalog (hack)

/-- For all trees with composites of kinds of the catalog and tokens of kinds that it declares,
whatever the texts of tokens and trivia are: the outlines are the same if and only if the trees are
alike once the trivia of every token is one piece; and the lines of an outline are those of the nodes
in pre-order, one for each, indented by two spaces for each level. -/
theorem outline_tells_tree {a b : Node} (ha : a.Sound (· ∈ hack.kinds))
    (hb : b.Sound (· ∈ hack.kinds)) (hta : ∀ t ∈ a.tokens, hack.isToken t.kind = true)
    (htb : ∀ t ∈ b.tokens, hack.isToken t.kind = true) :
    (a.outline = b.outline ↔ Node.Alike a.merged b.merged) ∧
    a.topDown.map a.at? = a.preOrder.map some ∧
    List.Forall₂ (fun p line => ∃ m, a.at? p = some m ∧ m.ShownBy p.length line) a.topDown
      (Text.lines (.ofString a.outline)) := by
  have hna : a.Named (· ∈ hack.kinds) := ⟨ha, fun t ht => plain_of_isToken (hta t ht)⟩
  have hnb : b.Named (· ∈ hack.kinds) := ⟨hb, fun t ht => plain_of_isToken (htb t ht)⟩
  have hlines := Node.lines_outline hack_legible hna
  refine ⟨Node.outline_eq_iff hack_legible hna hnb, a.map_at?_topDown, ?_⟩
  rw [hlines, List.forall₂_map_right_iff]
  have hshown := Node.shown_outlineAt hack_legible hna 0 (show Text.Plain "" by decide)
  refine hshown.imp fun p line h => ?_
  obtain ⟨m, hm, hshown⟩ := h
  exact ⟨m, hm, Nat.zero_add p.length ▸ hshown⟩

section Stray

open Catalog (simpleKind)

/-- A name whose text looks like the end of its line and the line of another node, with a byte that is
no character. -/
def strayName (leading : List Trivia) : Node :=
  .token ⟨1, "name", leading, ("\"\n  1: missing" : Text) ++ [0xff], [], 17⟩

/-- The name as a type, in front of nothing. -/
def strayTree (leading : List Trivia) : Node :=
  .list 3 [.composite 2 simpleKind [strayName leading] 17, .missing] 17

theorem strayTree_sound {leading : List Trivia} (h : (triviaText leading).length = 2) :
    (strayTree leading).Sound (· ∈ hack.kinds) := by
  have hkind : simpleKind ∈ hack.kinds := Catalog.mem_hack (.head _)
  refine .list (List.forall_mem_cons.mpr ⟨?_, List.forall_mem_singleton.mpr .missing⟩)
  refine .composite hkind rfl (List.forall_mem_singleton.mpr (.token ?_))
  simp only [Token.fullText, Token.leadingText, Token.trailingText, List.length_append, h]
  decide

theorem strayTree_tokens (leading : List Trivia) :
    ∀ t ∈ (strayTree leading).tokens, hack.isToken t.kind = true := by
  intro t ht
  simp only [strayTree, strayName, Node.tokens_eq, Node.token?, Node.children, List.flatMap_cons,
    List.flatMap_nil, Option.toList, List.append_nil, List.nil_append, List.mem_singleton] at ht
  rw [ht]
  exact Catalog.hack_isToken (show "name" ∈ Catalog.hackDocument.tokens by decide)

/-- Two blanks in one piece and in two. -/
theorem outline_tells_tree_strayTree :
    ((strayTree [⟨"blank", "  "⟩]).Sound (· ∈ hack.kinds) ∧
      (strayTree [⟨"blank", " "⟩, ⟨"line", " "⟩]).Sound (· ∈ hack.kinds) ∧
      (∀ t ∈ (strayTree [⟨"blank", "  "⟩]).tokens, hack.isToken t.kind = true) ∧
      ∀ t ∈ (strayTree [⟨"blank", " "⟩, ⟨"line", " "⟩]).tokens, hack.isToken t.kind = true) ∧
    (strayTree [⟨"blank", "  "⟩]).equalInFull (strayTree [⟨"blank", " "⟩, ⟨"line", " "⟩]) = false ∧
    (strayTree [⟨"blank", "  "⟩]).outline = (strayTree [⟨"blank", " "⟩, ⟨"line", " "⟩]).outline ∧
    (Text.lines (.ofString (strayTree [⟨"blank", "  "⟩]).outline)).length = 4 := by
  have hone := strayTree_sound (show (triviaText [⟨"blank", "  "⟩]).length = 2 by decide)
  have htwo := strayTree_sound
    (show (triviaText [⟨"blank", " "⟩, ⟨"line", " "⟩]).length = 2 by decide)
  obtain ⟨houtline, -, hlines⟩ :=
    outline_tells_tree hone htwo (strayTree_tokens _) (strayTree_tokens _)
  have hmerged : Node.Alike (strayTree [⟨"blank", "  "⟩]).merged
      (strayTree [⟨"blank", " "⟩, ⟨"line", " "⟩]).merged :=
    .list (.cons (.composite rfl (.cons (.token rfl (by decide) rfl rfl) .nil)) (.cons .missing .nil))
  exact ⟨⟨hone, htwo, strayTree_tokens _, strayTree_tokens _⟩, by decide +kernel,
    houtline.mpr hmerged, hlines.length_eq.symm⟩

end Stray

end Lossless
