import Lossless.Node.Outline
import Lossless.Proofs.Catalog.Hack
import Lossless.Proofs.Node.PreOrder
import Lossless.Proofs.Text.Lines
import Lossless.Proofs.Text.Quoted

/-!
# Node — the lines of an outline

An outline has a line for every node.  When names are plain (`Text.Plain`), a line is one line of the
text, as texts are quoted in it.

**One line for each node** (`Node.shown_outlineAt`, `Node.lines_outline`).  The lines of an outline are
those of the positions of the tree, parents before children: two spaces for each level, the name of the
slot and what the node says of itself (`Node.headline`).

The names of the catalog are plain (`hack_legible`, `plain_of_isToken`).
-/

namespace Lossless

/-! ### Plain names -/

/-- A name that stands out in an outline. -/
def Text.Plain (s : String) : Prop := ∀ c ∈ [' ', ':', '[', '\n'], c ∉ s.toList

instance (s : String) : Decidable (Text.Plain s) := List.decidableBAll _ _

namespace Text

variable {s : String}

theorem Plain.space (h : Plain s) : ' ' ∉ s.toList := h _ (by decide)

theorem Plain.colon (h : Plain s) : ':' ∉ s.toList := h _ (by decide)

theorem Plain.bracket (h : Plain s) : '[' ∉ s.toList := h _ (by decide)

theorem Plain.newline (h : Plain s) : '\n' ∉ s.toList := h _ (by decide)

theorem plain_toString (n : Nat) : Plain (toString n) := by
  intro c hc hmem
  rw [Nat.toString_eq_ofList_toDigits, String.toList_ofList] at hmem
  have hdigit := Nat.isDigit_of_mem_toDigits (by decide) (by decide) hmem
  have hnone : [' ', ':', '[', '\n'].any Char.isDigit = false := by decide
  exact List.any_eq_false.mp hnone c hc hdigit

theorem Plain.trim (h : Plain s) : Plain (trim s) := fun c hc hmem => h c hc (mem_of_mem_trim hmem)

end Text

/-- Every name of the kind is plain. -/
structure Kind.Plain (k : Kind) : Prop where
  name : Text.Plain k.name
  unreserved : k.name ≠ "missing"
  slots : ∀ s ∈ k.slotNames, Text.Plain s

/-- The names of a document are plain. -/
structure CatalogDocument.Plain (d : CatalogDocument) : Prop where
  kinds : ∀ kd ∈ d.kinds, Text.Plain kd.name ∧ ∀ s ∈ kd.slots, Text.Plain s.name
  tokens : ∀ t ∈ d.tokens, Text.Plain t

/-- The kinds of a document with plain names are plain. -/
theorem CatalogDocument.Plain.kind {d : CatalogDocument} {c : Catalog} (hd : d.Plain)
    (hc : d.compile = .ok c) : ∀ k ∈ c.kinds, k.Plain := by
  intro k hk
  obtain ⟨-, -, -, hall, -, -⟩ := CatalogDocument.compile_eq_ok_iff.mp hc
  obtain ⟨kd, hkd, hcompile⟩ := exists_of_forall₂_right hall k hk
  obtain ⟨-, hfree, -, hdeclares, -, -⟩ := KindDocument.compile_eq_ok_iff.mp hcompile
  obtain ⟨hname, hslots⟩ := hd.kinds kd hkd
  refine ⟨hdeclares.name ▸ hname.trim, ?_, ?_⟩
  · intro hmissing
    rw [← hdeclares.name, hmissing] at hfree
    exact hfree (by decide)
  · intro s hs
    obtain ⟨slot, hslot, rfl⟩ := List.mem_map.mp hs
    obtain ⟨sd, hsd, hdecl⟩ := exists_of_forall₂_right hdeclares.slots slot hslot
    exact hdecl.name ▸ (hslots sd hsd).trim

namespace Node

/-- Kinds with plain names, each known by its name. -/
structure Legible (K : Kind → Prop) : Prop where
  plain : ∀ k, K k → k.Plain
  known : ∀ k k', K k → K k' → k.name = k'.name → k = k'

/-- The names that the line of a node shows are plain. -/
def Plain : Node → Prop
  | .token t => Text.Plain t.kind
  | .composite _ k _ _ => k.Plain
  | .missing | .list .. => True

/-- A sound tree of kinds in `K`, with plain names for its tokens. -/
structure Named (K : Kind → Prop) (n : Node) : Prop where
  sound : n.Sound K
  tokens : ∀ t ∈ n.tokens, Text.Plain t.kind

section Named

variable {K : Kind → Prop} {n : Node}

theorem Named.children (h : n.Named K) : ∀ c ∈ n.children, c.Named K :=
  fun c hc => ⟨h.sound.children c hc, fun t ht => h.tokens t (tokens_children hc ht)⟩

theorem Named.plain (hK : Legible K) (h : n.Named K) : n.Plain := by
  cases n with
  | missing | list _ _ _ => trivial
  | token t => exact h.tokens t (by rw [tokens_eq]; exact .head _)
  | composite id k cs w => exact hK.plain k (sound_composite_iff.mp h.sound).1

theorem Named.slotNames (hK : Legible K) (h : n.Named K) : ∀ s ∈ n.slotNames, Text.Plain s := by
  cases n with
  | missing | token _ => exact nofun
  | list _ items _ =>
      intro s hs
      obtain ⟨i, -, rfl⟩ := List.mem_map.mp hs
      exact Text.plain_toString i
  | composite id k cs w => exact (h.plain hK).slots

end Named

/-! ### One line for each node -/

/-- A node is outlined before its children, which stand one level deeper under the names of their
slots. -/
theorem outlineAt_eq (depth : Nat) (label : String) (n : Node) :
    n.outlineAt depth label =
      outlineLine depth label n :: outlineAll (depth + 1) n.slotNames n.children := by
  cases n <;> simp [outlineAt, outlineAll, slotNames, children]

/-- A line that shows a node: two spaces for each level, then text that starts with no space and ends
with what the node says of itself, and a newline, which is the only one. -/
def ShownBy (depth : Nat) (n : Node) (line : Text) : Prop :=
  ∃ body : List Char, line = Text.ofChars (List.replicate (2 * depth) ' ' ++ body) ++ [Text.newline] ∧
    body.head? ≠ some ' ' ∧ '\n' ∉ body ∧ n.headline.toList <:+ body

section Lines

variable {K : Kind → Prop} {n : Node}

/-- What a node says of itself is one line and starts with no space. -/
theorem Plain.headline (h : n.Plain) :
    n.headline.toList.head? ≠ some ' ' ∧ '\n' ∉ n.headline.toList := by
  have hhead {s : String} (hs : Text.Plain s) : s.toList.head? ≠ some ' ' :=
    fun h => hs.space (List.mem_of_mem_head? h)
  have hpart (label : String) (t : Text) (hl : '\n' ∉ label.toList) :
      '\n' ∉ (outlinePart label t).toList := by
    rw [outlinePart]
    split
    · decide
    · simp [hl, Text.newline_notMem_quote]
  cases n with
  | missing => exact ⟨by decide, by decide⟩
  | token t =>
      have hkind : '\n' ∉ t.kind.toList := Text.Plain.newline h
      have hleading := hpart " leading=" t.leadingText (by decide)
      have htrailing := hpart " trailing=" t.trailingText (by decide)
      simp [Node.headline, hkind, hleading, htrailing, Text.newline_notMem_quote]
  | list id items w =>
      have hlength := (Text.plain_toString items.length).newline
      simpa [Node.headline] using hlength
  | composite id k cs w => exact ⟨hhead h.name, h.name.newline⟩

/-- The line of a node shows the node. -/
theorem shownBy_outlineLine (h : n.Plain) {label : String} (hl : Text.Plain label) (depth : Nat) :
    n.ShownBy depth (.ofString (outlineLine depth label n)) := by
  obtain ⟨hhead, hnewline⟩ := h.headline
  -- behind the indentation stand the label, if there is one, and the headline
  refine ⟨(if label = "" then "" else label ++ ": ").toList ++ n.headline.toList, ?_, ?_, ?_,
    List.suffix_append _ _⟩
  · simp only [outlineLine, Text.ofString_eq_ofChars, String.toList_append, String.toList_ofList,
      List.append_assoc, Text.ofChars_append]
    rfl
  · split
    · exact hhead
    · next hne =>
        obtain ⟨c, cs, hc⟩ := List.exists_cons_of_ne_nil (mt String.toList_eq_nil_iff.mp hne)
        rw [String.toList_append, hc]
        intro he
        cases he
        exact hl.space (hc ▸ .head _)
  · split
    · exact hnewline
    · simp [hl.newline, hnewline]

/-- A line of an outline shows the node at a position. -/
def Shown (n : Node) (depth : Nat) (p : Position) (line : String) : Prop :=
  ∃ m, n.at? p = some m ∧ m.ShownBy (depth + p.length) (.ofString line)

theorem Shown.child {c : Node} {i depth : Nat} (hc : n.children[i]? = some c) {p : Position}
    {line : String} (h : c.Shown (depth + 1) p line) : n.Shown depth (i :: p) line := by
  obtain ⟨m, hm, hshown⟩ := h
  refine ⟨m, (at?_cons hc p).trans hm, ?_⟩
  rw [List.length_cons, Nat.add_comm p.length, ← Nat.add_assoc]
  exact hshown

/-- The lines of the last children of a node show what stands there. -/
theorem shown_outlineAll (n : Node) (front : List Node) {cs : List Node} {depth : Nat}
    {labels : List String} (hn : n.children = front ++ cs) (hlabels : ∀ s ∈ labels, Text.Plain s)
    (h : ∀ c ∈ cs, ∀ label, Text.Plain label →
      List.Forall₂ (c.Shown (depth + 1)) c.topDown (c.outlineAt (depth + 1) label)) :
    List.Forall₂ (n.Shown depth) (topDownAll front.length cs)
      (outlineAll (depth + 1) labels cs) := by
  -- the children before, counted in front, give the position of the next one
  induction cs generalizing front labels with
  | nil => exact .nil
  | cons c cs ih =>
      have hc : n.children[front.length]? = some c := by simp [hn]
      have hlabel : Text.Plain (labels.headD "") := by
        cases labels with
        | nil => decide
        | cons s labels => exact hlabels s (.head _)
      have hlabels' : ∀ s ∈ labels.drop 1, Text.Plain s :=
        fun s hs => hlabels s (List.mem_of_mem_drop hs)
      have hrest := ih (front ++ [c]) (by simp [hn]) hlabels' fun d hd => h d (.tail _ hd)
      rw [List.length_append, List.length_singleton] at hrest
      refine List.rel_append ?_ hrest
      exact List.forall₂_map_left_iff.mpr ((h c (.head _) _ hlabel).imp fun _ _ => Shown.child hc)

/-- **An outline has one line for each position**, and the line shows what stands there. -/
theorem shown_outlineAt (hK : Legible K) (hn : n.Named K) (depth : Nat) {label : String}
    (hl : Text.Plain label) :
    List.Forall₂ (n.Shown depth) n.topDown (n.outlineAt depth label) := by
  induction n using children_induct generalizing depth label with
  | step n ih =>
      rw [topDown_eq, outlineAt_eq]
      refine .cons ⟨n, rfl, shownBy_outlineLine (hn.plain hK) hl depth⟩ ?_
      exact shown_outlineAll n [] (List.nil_append _).symm (hn.slotNames hK) fun c hc _ hlabel =>
        ih c hc (hn.children c hc) (depth + 1) hlabel

/-- The lines of an outline are what is printed for each node. -/
theorem lines_outline (hK : Legible K) (hn : n.Named K) :
    Text.lines (.ofString n.outline) = (n.outlineAt 0 "").map .ofString := by
  have hspell : Text.ofString n.outline = ((n.outlineAt 0 "").map Text.ofString).flatten := by
    rw [outline, Text.ofString_eq_ofChars, String.toList_join, Text.ofChars, List.flatMap_assoc,
      List.flatMap_def]
    rfl
  have hlines : Text.Lines ((n.outlineAt 0 "").map .ofString) := by
    have hshown := shown_outlineAt hK hn 0 (show Text.Plain "" by decide)
    generalize n.topDown = ps, n.outlineAt 0 "" = lines at hshown
    induction hshown with
    | nil => exact .nil
    | cons h _ ih =>
        obtain ⟨m, -, body, hbody, -, hnewline, -⟩ := h
        rw [List.map_cons, hbody]
        exact .cons (Text.newline_notMem_ofChars (by simp [hnewline])) ih
  rw [hspell, hlines.lines_flatten]

end Lines

end Node

/-! ### The names of the catalog -/

open Catalog (hack hackDocument)

theorem hackDocument_plain : hackDocument.Plain where
  kinds := by decide +kernel
  tokens := by decide +kernel

theorem hack_legible : Node.Legible (· ∈ hack.kinds) where
  plain := hackDocument_plain.kind Catalog.hack_compiles
  known _ _ := Catalog.hack_wellFormed.eq_of_name

theorem plain_of_isToken {kind : String} (h : hack.isToken kind = true) : Text.Plain kind := by
  have hne : hackDocument.tokens.isEmpty = false := rfl
  rw [Catalog.isToken, Catalog.declares, Catalog.hack_tokens, hne] at h
  exact hackDocument_plain.tokens kind (by simpa using h)

end Lossless
