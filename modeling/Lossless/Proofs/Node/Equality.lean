import Lossless.Node.Outline
import Lossless.Proofs.Node.Built
import Lossless.Proofs.Parse.Encoding
import Lossless.Proofs.Parse.Objects

/-!
# Node — equality decides structure

Structural equality takes two short cuts: it does not look into a node that is the same object, and
it tells nodes of different widths apart at once.  Without them it is `Node.equalInFull`, which
decides whether two trees are alike, whatever their numbers and widths are
(`Node.equalInFull_iff_alike`).

The short cuts rest on how nodes come about.  Nodes that are made one after another (`Made`) are
objects (`Made.objects`): what has one number is one node, and what is alike is of one width.

**Structural equality** (`equal_decides_structure`).  Among nodes that are made one after another,
structural equality is to be alike, with the short cuts and without.  So it is an equivalence, and
what is equal has one full text and, with kinds of one catalog, one outline (`Alike.outlineAt`).
-/

namespace Lossless

namespace Node

/-! ### Equality without short cuts -/

mutual
/-- Structural equality that looks at every node. -/
def equalInFull : Node → Node → Bool
  | .missing, .missing => true
  | .token t, .token u => t.kind == u.kind && sameToken t u
  | .list _ items _, .list _ items' _ => equalInFullAll items items'
  | .composite _ k cs _, .composite _ k' cs' _ => k.name == k'.name && equalInFullAll cs cs'
  | _, _ => false

@[inherit_doc equalInFull]
def equalInFullAll : List Node → List Node → Bool
  | [], [] => true
  | a :: as, b :: bs => equalInFull a b && equalInFullAll as bs
  | _, _ => false
end

theorem alike_token_iff {t u : Token} :
    Alike (.token t) (.token u) ↔ t.kind = u.kind ∧ sameToken t u = true := by
  simp only [sameToken, Bool.and_eq_true, beq_iff_eq]
  constructor
  · rintro (_ | ⟨hkind, hleading, htext, htrailing⟩)
    exact ⟨hkind, ⟨htext, hleading⟩, htrailing⟩
  · rintro ⟨hkind, ⟨htext, hleading⟩, htrailing⟩
    exact .token hkind hleading htext htrailing

theorem alike_list_iff {id id' w w' : Nat} {items items' : List Node} :
    Alike (.list id items w) (.list id' items' w') ↔ AlikeAll items items' :=
  ⟨fun h => by cases h with | list h => exact h, .list⟩

theorem alike_composite_iff {id id' w w' : Nat} {k k' : Kind} {cs cs' : List Node} :
    Alike (.composite id k cs w) (.composite id' k' cs' w') ↔ k.name = k'.name ∧ AlikeAll cs cs' :=
  ⟨fun h => by cases h with | composite hk h => exact ⟨hk, h⟩, fun ⟨hk, h⟩ => .composite hk h⟩

theorem alikeAll_cons_iff {a b : Node} {as bs : List Node} :
    AlikeAll (a :: as) (b :: bs) ↔ Alike a b ∧ AlikeAll as bs :=
  ⟨fun h => by cases h with | cons h hs => exact ⟨h, hs⟩, fun ⟨h, hs⟩ => .cons h hs⟩

theorem equalInFullAll_iff_alikeAll {as bs : List Node}
    (h : ∀ a ∈ as, ∀ b, equalInFull a b = true ↔ Alike a b) :
    equalInFullAll as bs = true ↔ AlikeAll as bs := by
  induction as generalizing bs with
  | nil =>
      cases bs with
      | nil => exact iff_of_true rfl .nil
      | cons b bs => exact iff_of_false nofun nofun
  | cons a as ih =>
      cases bs with
      | nil => exact iff_of_false nofun nofun
      | cons b bs =>
          rw [equalInFullAll, Bool.and_eq_true, h a (.head _), ih fun a ha => h a (.tail _ ha),
            alikeAll_cons_iff]

/-- **Equality without short cuts decides structure**, for all trees. -/
theorem equalInFull_iff_alike {a b : Node} : equalInFull a b = true ↔ Alike a b := by
  induction a using Node.induct generalizing b with
  | missing =>
      cases b with
      | missing => exact iff_of_true rfl .missing
      | _ => exact iff_of_false nofun nofun
  | token t =>
      cases b with
      | token u => rw [equalInFull, alike_token_iff, Bool.and_eq_true, beq_iff_eq]
      | _ => exact iff_of_false nofun nofun
  | list id items w ih =>
      cases b with
      | list id' items' w' =>
          rw [equalInFull, alike_list_iff, equalInFullAll_iff_alikeAll fun c hc _ => ih c hc]
      | _ => exact iff_of_false nofun nofun
  | composite id k cs w ih =>
      cases b with
      | composite id' k' cs' w' =>
          rw [equalInFull, alike_composite_iff, Bool.and_eq_true, beq_iff_eq,
            equalInFullAll_iff_alikeAll fun c hc _ => ih c hc]
      | _ => exact iff_of_false nofun nofun

/-! ### Outlines -/

/-- Alike nodes are outlined in the same words. -/
theorem Alike.headline {a b : Node} (h : Alike a b) : a.headline = b.headline := by
  cases h with
  | missing => rfl
  | token hkind hleading htext htrailing =>
      simp only [Node.headline, Token.leadingText, Token.trailingText, hkind, hleading, htext,
        htrailing]
  | list h => simp only [Node.headline, h.length_eq]
  | composite hk h => exact hk

theorem Alike.outlineLine {a b : Node} (h : Alike a b) (depth : Nat) (label : String) :
    Node.outlineLine depth label a = Node.outlineLine depth label b := by
  rw [Node.outlineLine, Node.outlineLine, h.headline]

section Outline

variable {K : Kind → Prop}

mutual
/-- Alike trees have the same outline when their kinds are known by their names. -/
theorem Alike.outlineAt (hK : ∀ k k', K k → K k' → k.name = k'.name → k = k') :
    ∀ {a b : Node} (depth : Nat) (label : String), Alike a b → a.Sound K → b.Sound K →
      a.outlineAt depth label = b.outlineAt depth label
  | _, _, _, _, .missing, _, _ => rfl
  | .token _, .token _, depth, label, h, _, _ =>
      congrArg (fun line => [line]) (h.outlineLine depth label)
  | .list _ _ _, .list _ _ _, depth, label, .list h, ha, hb => by
      rw [Node.outlineAt, Node.outlineAt, (Alike.list h).outlineLine, h.length_eq,
        h.outlineAll hK _ _ ha.children hb.children]
  | .composite _ _ _ _, .composite _ _ _ _, depth, label, .composite hk h, ha, hb => by
      have hkind := hK _ _ (sound_composite_iff.mp ha).1 (sound_composite_iff.mp hb).1 hk
      rw [Node.outlineAt, Node.outlineAt, (Alike.composite hk h).outlineLine, hkind,
        h.outlineAll hK _ _ ha.children hb.children]

@[inherit_doc Alike.outlineAt]
theorem AlikeAll.outlineAll (hK : ∀ k k', K k → K k' → k.name = k'.name → k = k') :
    ∀ {as bs : List Node} (depth : Nat) (labels : List String), AlikeAll as bs →
      (∀ a ∈ as, a.Sound K) → (∀ b ∈ bs, b.Sound K) →
      Node.outlineAll depth labels as = Node.outlineAll depth labels bs
  | _, _, _, _, .nil, _, _ => rfl
  | _, _, depth, labels, .cons h hs, ha, hb => by
      rw [Node.outlineAll, Node.outlineAll, h.outlineAt hK _ _ (ha _ (.head _)) (hb _ (.head _)),
        hs.outlineAll hK _ _ (fun a h => ha a (.tail _ h)) fun b h => hb b (.tail _ h)]
end

end Outline

/-- Every composite of the tree is of a kind of the catalog. -/
def DrawnFrom (c : Catalog) (n : Node) : Prop :=
  ∀ m ∈ n.postOrder, ∀ y, m.composite? = some y → y.kind ∈ c.kinds

theorem DrawnFrom.children {c : Catalog} {n : Node} (h : n.DrawnFrom c) :
    ∀ m ∈ n.children, m.DrawnFrom c :=
  fun m hm x hx => h x (mem_postOrder_iff.mpr (.inr ⟨m, hm, hx⟩))

theorem Sound.drawnFrom {c : Catalog} {n : Node} (h : n.Sound fun _ => True)
    (hdrawn : n.DrawnFrom c) : n.Sound (· ∈ c.kinds) := by
  induction n using Node.induct with
  | missing => exact .missing
  | token t =>
      cases h with
      | token hw => exact .token hw
  | list id items w ih =>
      obtain ⟨hw, hc⟩ := sound_list_iff.mp h
      exact sound_list_iff.mpr ⟨hw, fun m hm => ih m hm (hc m hm) (hdrawn.children m hm)⟩
  | composite id k cs w ih =>
      obtain ⟨-, hk, hw, hc⟩ := sound_composite_iff.mp h
      exact sound_composite_iff.mpr ⟨hdrawn _ (mem_postOrder_self _) _ rfl, hk, hw,
        fun m hm => ih m hm (hc m hm) (hdrawn.children m hm)⟩

/-- Alike trees with kinds of one catalog have the same outline. -/
theorem Alike.outline {c : Catalog} (hc : c.WellFormed) {a b : Node} (h : Alike a b)
    (ha : a.Sound (· ∈ c.kinds)) (hb : b.Sound (· ∈ c.kinds)) : a.outline = b.outline :=
  congrArg String.join (h.outlineAt (fun _ _ => hc.eq_of_name) 0 "" ha hb)

end Node

/-! ### Nodes that are made -/

/-- Nodes that are made one after another, from the missing node on: by an operation on nodes that
are there, from parser output, or by reaching into one of them. -/
inductive Made : Set Node → Supply → Prop where
  | start : Made {.missing} Supply.start
  | step {S : Set Node} {op : Operation} {s s' : Supply} {n : Node} (h : Made S s)
      (hreceiver : ∀ m, op.receiver? = some m → m ∈ S) (hgiven : ∀ m, some m ∈ op.given → m ∈ S)
      (hrun : op.run s = .ok (n, s')) : Made (insert n S) s'
  | child {S : Set Node} {s : Supply} {n m : Node} {i : Int} (h : Made S s) (hn : n ∈ S)
      (hchild : n.child i = .ok m) : Made (insert m S) s
  | fromJson {S : Set Node} {c : Catalog} {v : Json} {file : String} {offset : Int} {source : Text}
      {s s' : Supply} {n : Node} (h : Made S s)
      (hbuilt : Parse.fromJson c v file offset source s = .ok (n, s')) : Made (insert n S) s'

/-- **Nodes that are made are objects**, together with the nodes below them. -/
theorem Made.objects {S : Set Node} {s : Supply} (h : Made S s) : ∃ S', S ⊆ S' ∧ Objects S' s := by
  induction h with
  | start => exact ⟨_, subset_rfl, .start⟩
  | step _ hreceiver hgiven hrun ih =>
      obtain ⟨S', hsub, hS'⟩ := ih
      obtain ⟨S'', hsub', hS'', hn⟩ := Operation.run_objects hS' (fun m hm => hsub (hreceiver m hm))
        (fun m hm => hsub (hgiven m hm)) hrun
      exact ⟨S'', Set.insert_subset hn (hsub.trans hsub'), hS''⟩
  | child _ hn hchild ih =>
      obtain ⟨S', hsub, hS'⟩ := ih
      have hm := hS'.child _ (hsub hn) _ (List.mem_of_getElem? (Node.child_eq_ok_iff.mp hchild).2)
      exact ⟨S', Set.insert_subset hm hsub, hS'⟩
  | fromJson _ hbuilt ih =>
      obtain ⟨S', hsub, hS'⟩ := ih
      obtain ⟨S'', herected⟩ := Parse.fromJson_objects hS' hbuilt
      exact ⟨S'', Set.insert_subset herected.mem (hsub.trans herected.subset), herected.objects⟩

/-! ### Structural equality -/

/-- Among nodes that are made one after another, structural equality is to be alike: to agree in
class, name of the kind, text, trivia and, one by one, in the children. The short cuts change no
answer, as what is the same object is alike and what differs in width is not. So it is an
equivalence, equal trees have the same full text, and equal trees with kinds of one catalog have the
same outline. -/
theorem equal_decides_structure {S : Set Node} {s : Supply} (h : Made S s) :
    (∀ a ∈ S, ∀ b ∈ S,
      (a.equal b = true ↔ Node.Alike a b) ∧ a.equal b = a.equalInFull b ∧
      (a.same b = true → Node.Alike a b) ∧ (a.width ≠ b.width → ¬ Node.Alike a b) ∧
      (a.equal b = true → a.fullText = b.fullText) ∧
      ∀ (d : CatalogDocument) (c : Catalog), d.compile = .ok c → a.DrawnFrom c → b.DrawnFrom c →
        a.equal b = true → a.outline = b.outline) ∧
    Equivalence fun a b : S => a.1.equal b.1 = true := by
  obtain ⟨S', hsub, hS'⟩ := h.objects
  -- the shortcuts by identity and width agree with the structure, among objects
  have hiff {a b : Node} (ha : a ∈ S) (hb : b ∈ S) : a.equal b = true ↔ Node.Alike a b :=
    hS'.equal_iff_alike (hsub ha) (hsub hb)
  refine ⟨fun a ha b hb => ⟨hiff ha hb, ?_, fun hsame => ?_, fun hwidth halike => ?_,
    fun he => ((hiff ha hb).mp he).fullText, fun d c hc hda hdb he => ?_⟩,
    fun a => (hiff a.2 a.2).mpr (.refl _), fun {a b} he => ?_, fun {a b c} he he' => ?_⟩
  · rw [Bool.eq_iff_iff, hiff ha hb, Node.equalInFull_iff_alike]
  · rw [hS'.eq_of_same (hsub ha) (hsub hb) hsame]
    exact .refl b
  · refine hwidth ?_
    rw [(hS'.sound a (hsub ha)).width_eq, (hS'.sound b (hsub hb)).width_eq, halike.fullText]
  · exact ((hiff ha hb).mp he).outline (CatalogDocument.compile_wellFormed hc)
      ((hS'.sound a (hsub ha)).drawnFrom hda) ((hS'.sound b (hsub hb)).drawnFrom hdb)
  · exact (hiff b.2 a.2).mpr ((hiff a.2 b.2).mp he).symm
  · exact (hiff a.2 c.2).mpr (((hiff a.2 b.2).mp he).trans ((hiff b.2 c.2).mp he'))

section Pairs

open Parse (pairDocument pairKind pairCatalog)

/-- A word behind a blank, as object number `id`. -/
def blankWord (id : Nat) : Node := .token ⟨id, "word", [⟨"blank", " "⟩], "abc", [], 4⟩

/-- A pair of twice the same object. -/
def sharedPair : Node := .composite 3 pairKind [blankWord 1, blankWord 1] 8

/-- A pair of two objects. -/
def twinPair : Node := .composite 4 pairKind [blankWord 1, blankWord 2] 8

/-- The two pairs with their parts. -/
def pairNodes : Set Node :=
  insert twinPair (insert sharedPair (insert (blankWord 2) (insert (blankWord 1) {.missing})))

theorem pairNodes_made : Made pairNodes 5 := by
  have hword {S : Set Node} {s : Supply} (h : Made S s) : Made (insert (blankWord s) S) (s + 1) :=
    @Made.step _ (.token "word" [⟨"blank", " "⟩] "abc" []) _ _ _ h nofun nofun rfl
  have hpair {S : Set Node} {s : Supply} (h : Made S s) {m n : Node} (hm : m ∈ S) (hn : n ∈ S) :
      Made (insert (.composite s pairKind [m, n] (m.width + n.width)) S) (s + 1) :=
    @Made.step _ (.composite (some pairKind) [some m, some n]) _ _ _ h nofun
      (by simp [Operation.given, hm, hn]) rfl
  have hwords := hword (hword .start)
  have hshared := hpair hwords (m := blankWord 1) (n := blankWord 1) (.inr (.inl rfl))
    (.inr (.inl rfl))
  exact hpair hshared (m := blankWord 1) (n := blankWord 2) (.inr (.inr (.inl rfl)))
    (.inr (.inl rfl))

theorem equal_decides_structure_pairNodes :
    (Made pairNodes 5 ∧ sharedPair ∈ pairNodes ∧ twinPair ∈ pairNodes ∧
      pairDocument.compile = .ok pairCatalog ∧ sharedPair.DrawnFrom pairCatalog ∧
      twinPair.DrawnFrom pairCatalog) ∧
    sharedPair.same twinPair = false ∧ sharedPair.equal twinPair = true ∧
      Node.Alike sharedPair twinPair ∧ sharedPair.outline = twinPair.outline := by
  have hshared : sharedPair ∈ pairNodes := .inr (.inl rfl)
  have htwin : twinPair ∈ pairNodes := .inl rfl
  have hc : pairDocument.compile = .ok pairCatalog := rfl
  have hdrawn {id : Nat} {w : Nat} (m n : Nat) :
      (Node.composite id pairKind [blankWord m, blankWord n] w).DrawnFrom pairCatalog := by
    intro x hx y hy
    simp only [Node.postOrder, Node.postOrderAll, blankWord, List.cons_append, List.nil_append,
      List.append_nil, List.mem_cons, List.not_mem_nil, or_false] at hx
    rcases hx with rfl | rfl | rfl <;> cases hy
    exact .head _
  have he : sharedPair.equal twinPair = true := by decide +kernel
  obtain ⟨hiff, -, -, -, -, houtline⟩ :=
    (equal_decides_structure pairNodes_made).1 sharedPair hshared twinPair htwin
  exact ⟨⟨pairNodes_made, hshared, htwin, hc, hdrawn 1 1, hdrawn 1 2⟩, rfl, he, hiff.mp he,
    houtline pairDocument pairCatalog hc (hdrawn 1 1) (hdrawn 1 2) he⟩

end Pairs

end Lossless
