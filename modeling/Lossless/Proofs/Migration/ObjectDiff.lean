import Lossless.Migration.Idempotence
import Lossless.Proofs.Edit.Lines
import Lossless.Proofs.Node.Reading

/-!
# Migration — what an object failure shows

When two passes give the same text but different objects, the check shows how the outlines differ, and
a note when they do not.  A diff of outlines is never taken for the note, as it starts with the mark of
a line (`rebuiltNote_ne_lineDiff`), so **the failure** tells whether the outlines are the same
(`object_failure_tells`).

The note says that the trees are structurally equal.  Equal trees of one catalog get it, but so do
trees whose trivia is cut in another way, which are not equal (`note_for_unequal_trees`): with the names
of the Hack catalog the note tells that the trees are alike once the trivia of every token is one piece.
-/

namespace Lossless

/-- The note that stands for a diff of two outlines that are the same. -/
def rebuiltNote (once : Node) : Text :=
  "trees are structurally equal but the second pass rebuilt the root " ++ once.kind

theorem rebuiltNote_ne_lineDiff (once : Node) (before after : Text) :
    rebuiltNote once ≠ Edit.lineDiff before after := by
  intro h
  have hhead : List.head? (rebuiltNote once) = some 0x74 := rfl
  rw [h] at hhead
  exact absurd (Edit.head_lineDiff hhead) (by decide)

/-- Trees with the same outline get the note, and others the diff of their outlines. -/
theorem objectDiff_eq (once twice : Node) :
    objectDiff once twice =
      if once.outline = twice.outline then rebuiltNote once
      else Edit.lineDiff once.outline twice.outline := by
  split
  · next h =>
      rw [objectDiff, h, Edit.lineDiff, if_pos rfl]
      rfl
  · next h =>
      have hne : Edit.lineDiff once.outline twice.outline ≠ [] :=
        Edit.lineDiff_ne_nil fun he => h (Text.ofString_injective he)
      unfold objectDiff
      split
      · next hnil => exact absurd hnil hne
      · rfl

/-- The failures of a comparison that are about objects. -/
theorem compareResults_object_iff {migration step : String} {once twice : Node}
    {e : NotIdempotent} :
    compareResults migration step once twice = .error e ∧ e.property = .object ↔
      once.fullText = twice.fullText ∧ once.same twice = false ∧
        e = ⟨migration, step, .object, objectDiff once twice⟩ := by
  unfold compareResults
  split
  · next htext =>
      refine ⟨fun ⟨h, hproperty⟩ => ?_, fun ⟨h, _⟩ => absurd h htext⟩
      cases h
      cases hproperty
  · next htext =>
      split
      · next hsame =>
          simp only [Bool.not_eq_true'] at hsame
          refine ⟨fun ⟨h, _⟩ => ⟨not_not.mp htext, hsame, (Except.error.inj h).symm⟩, ?_⟩
          rintro ⟨-, -, rfl⟩
          exact ⟨rfl, rfl⟩
      · next hsame => exact ⟨fun ⟨h, _⟩ => (by cases h), fun ⟨_, h, _⟩ => absurd (by simp [h]) hsame⟩

/-- Different objects with the same text and the same outline get the note. -/
theorem compareResults_of_outline_eq {once twice : Node} (htext : once.fullText = twice.fullText)
    (hsame : once.same twice = false) (houtline : once.outline = twice.outline)
    (migration step : String) :
    compareResults migration step once twice =
      .error ⟨migration, step, .object, rebuiltNote once⟩ := by
  have hnote : objectDiff once twice = rebuiltNote once := by
    rw [objectDiff_eq, if_pos houtline]
  exact (compareResults_object_iff.mpr ⟨htext, hsame, hnote ▸ rfl⟩).1

/-- A check of a step whose two passes succeed fails as the comparison of their results does. -/
theorem checkStep_eq_error {migration : String} {st : Step} {tree once twice : Node}
    {s s₁ s₂ : Supply} {e : NotIdempotent} (honce : st.apply tree s = .ok (once, s₁))
    (htwice : st.apply once s₁ = .ok (twice, s₂))
    (he : compareResults migration st.name once twice = .error e) :
    checkStep migration st tree s = .error (.notIdempotent e) := by
  refine Make.bind_eq_error.mpr (.inr ⟨once, s₁, checking_ok honce, ?_⟩)
  refine Make.bind_eq_error.mpr (.inr ⟨twice, s₂, checking_ok htwice, ?_⟩)
  rw [checkResults, he]
  rfl

/-- When a comparison of two nodes that are made fails about objects, the nodes have the same text and
are different objects. It shows the note if and only if the outlines are the same, and otherwise the
diff of the outlines, which is not empty. So structurally equal trees of one catalog get the note; of
trees with names of the Hack catalog exactly those that are alike once the trivia of every token is one
piece get it. -/
theorem object_failure_tells {S : Set Node} {s : Supply} (hS : Made S s) {once twice : Node}
    (honce : once ∈ S) (htwice : twice ∈ S) {migration step : String} {e : NotIdempotent}
    (h : compareResults migration step once twice = .error e) (hproperty : e.property = .object) :
    (once.fullText = twice.fullText ∧ once.same twice = false) ∧
    (e.diff = rebuiltNote once ↔ once.outline = twice.outline) ∧
    (e.diff ≠ rebuiltNote once ↔
      e.diff = Edit.lineDiff once.outline twice.outline ∧ e.diff ≠ []) ∧
    (∀ (d : CatalogDocument) (c : Catalog), d.compile = .ok c → once.DrawnFrom c →
      twice.DrawnFrom c → once.equal twice = true → e.diff = rebuiltNote once) ∧
    (once.DrawnFrom Catalog.hack → twice.DrawnFrom Catalog.hack →
      (∀ t ∈ once.tokens, Catalog.hack.isToken t.kind = true) →
      (∀ t ∈ twice.tokens, Catalog.hack.isToken t.kind = true) →
      (e.diff = rebuiltNote once ↔ Node.Alike once.merged twice.merged)) := by
  obtain ⟨htext, hsame, rfl⟩ := compareResults_object_iff.mp ⟨h, hproperty⟩
  have hnote : objectDiff once twice = rebuiltNote once ↔ once.outline = twice.outline := by
    rw [objectDiff_eq]
    split
    · next ho => exact iff_of_true rfl ho
    · next ho => exact iff_of_false (rebuiltNote_ne_lineDiff once _ _).symm ho
  -- what is made is among objects, on which equality is decided by the structure
  obtain ⟨S', hsub, hS'⟩ := hS.objects
  have hsound {n : Node} (hn : n ∈ S) {c : Catalog} (hdrawn : n.DrawnFrom c) :
      n.Sound (· ∈ c.kinds) := (hS'.sound n (hsub hn)).drawnFrom hdrawn
  refine ⟨⟨htext, hsame⟩, hnote, ?_, ?_, ?_⟩
  · rw [ne_eq, hnote]
    constructor
    · intro ho
      refine ⟨(objectDiff_eq once twice).trans (if_neg ho), ?_⟩
      rw [objectDiff_eq, if_neg ho]
      exact Edit.lineDiff_ne_nil fun he => ho (Text.ofString_injective he)
    · rintro ⟨hdiff, -⟩ ho
      exact rebuiltNote_ne_lineDiff once _ _ ((hnote.mpr ho).symm.trans hdiff)
  · intro d c hc honce' htwice' he
    have halike := (hS'.equal_iff_alike (hsub honce) (hsub htwice)).mp he
    exact hnote.mpr (halike.outline (CatalogDocument.compile_wellFormed hc) (hsound honce honce')
      (hsound htwice htwice'))
  · intro honce' htwice' hto htt
    exact hnote.trans (Node.outline_eq_iff hack_legible
      ⟨hsound honce honce', fun t ht => plain_of_isToken (hto t ht)⟩
      ⟨hsound htwice htwice', fun t ht => plain_of_isToken (htt t ht)⟩)

/-- A name behind two blanks in one piece. -/
def joinedBlanks : Node := .token ⟨1, "name", [⟨"whitespace", "  "⟩], "a", [], 3⟩

/-- The same name behind two blanks in two pieces. -/
def splitBlanks : Node :=
  .token ⟨2, "name", [⟨"whitespace", " "⟩, ⟨"whitespace", " "⟩], "a", [], 3⟩

/-- The two names. -/
def blankNodes : Set Node := insert splitBlanks (insert joinedBlanks {.missing})

theorem blankNodes_made : Made blankNodes 3 := by
  have hjoined : Made (insert joinedBlanks {.missing}) 2 :=
    @Made.step _ (.token "name" [⟨"whitespace", "  "⟩] "a" []) _ _ _ .start nofun nofun rfl
  exact @Made.step _ (.token "name" [⟨"whitespace", " "⟩, ⟨"whitespace", " "⟩] "a" []) _ _ _ hjoined
    nofun nofun rfl

theorem compareResults_blanks :
    compareResults "flip" "s" joinedBlanks splitBlanks =
      .error ⟨"flip", "s", .object, rebuiltNote joinedBlanks⟩ := by
  have htext : joinedBlanks.fullText = splitBlanks.fullText := rfl
  exact compareResults_of_outline_eq htext rfl rfl "flip" "s"

theorem object_failure_tells_blanks :
    (Made blankNodes 3 ∧ joinedBlanks ∈ blankNodes ∧ splitBlanks ∈ blankNodes ∧
      compareResults "flip" "s" joinedBlanks splitBlanks =
        .error ⟨"flip", "s", .object, rebuiltNote joinedBlanks⟩) ∧
    joinedBlanks.outline = splitBlanks.outline ∧
      Node.Alike joinedBlanks.merged splitBlanks.merged := by
  have hjoined : joinedBlanks ∈ blankNodes := .inr (.inl rfl)
  have hsplit : splitBlanks ∈ blankNodes := .inl rfl
  have hdrawn {t : Token} : (Node.token t).DrawnFrom Catalog.hack := by
    intro m hm y hy
    rw [List.mem_singleton.mp hm] at hy
    cases hy
  have htokens {t : Token} (h : t.kind ∈ Catalog.hackDocument.tokens) :
      ∀ u ∈ (Node.token t).tokens, Catalog.hack.isToken u.kind = true := by
    intro u hu
    rw [Node.tokens_eq] at hu
    obtain rfl := List.mem_singleton.mp hu
    exact Catalog.hack_isToken h
  obtain ⟨-, houtline, -, -, hhack⟩ :=
    object_failure_tells blankNodes_made hjoined hsplit compareResults_blanks rfl
  exact ⟨⟨blankNodes_made, hjoined, hsplit, compareResults_blanks⟩, houtline.mp rfl,
    (hhack hdrawn hdrawn (htokens (by decide)) (htokens (by decide))).mp rfl⟩

/-- A step that turns lists round. -/
def turning : Step where
  name := "s"
  transform := fun n _ =>
    match n.list? with
    | none => pure (some n)
    | some l => do return (← orFail (l.withItems (l.items.reverse.map some))).toNode

/-- A list of the two names, the blanks in one piece in front. -/
def joinedFirst (id : Nat) : NodeList := ⟨id, [joinedBlanks, splitBlanks], 6⟩

/-- A list of the two names, the blanks in two pieces in front. -/
def splitFirst (id : Nat) : NodeList := ⟨id, [splitBlanks, joinedBlanks], 6⟩

/-- The two names, a list of them, and what two turns make of it. -/
def turnedNodes : Set Node :=
  insert (joinedFirst 5).toNode (insert (splitFirst 4).toNode
    (insert (joinedFirst 3).toNode blankNodes))

theorem turnedNodes_made : Made turnedNodes 6 := by
  have hlist : Made (insert (joinedFirst 3).toNode blankNodes) 4 :=
    @Made.step _ (.list [some joinedBlanks, some splitBlanks]) _ _ _ blankNodes_made nofun
      (by simp [Operation.given, blankNodes]) rfl
  have honce : Made (insert (splitFirst 4).toNode (insert (joinedFirst 3).toNode blankNodes)) 5 :=
    @Made.step _ (.withItems (joinedFirst 3) [some splitBlanks, some joinedBlanks]) _ _ _ hlist
      (by simp [Operation.receiver?]) (by simp [Operation.given, blankNodes]) rfl
  exact @Made.step _ (.withItems (splitFirst 4) [some joinedBlanks, some splitBlanks]) _ _ _ honce
    (by simp [Operation.receiver?]) (by simp [Operation.given, blankNodes]) rfl

/-- Two trees that are not structurally equal get the note that they are: each turn of the list makes
the two names change places, which the outline does not show. -/
theorem note_for_unequal_trees :
    (Made turnedNodes 6 ∧ (splitFirst 4).toNode ∈ turnedNodes ∧
        (joinedFirst 5).toNode ∈ turnedNodes) ∧
      turning.apply (joinedFirst 3).toNode 4 = .ok ((splitFirst 4).toNode, 5) ∧
      turning.apply (splitFirst 4).toNode 5 = .ok ((joinedFirst 5).toNode, 6) ∧
      (splitFirst 4).toNode.equal (joinedFirst 5).toNode = false ∧
      ∃ e, compareResults "flip" turning.name (splitFirst 4).toNode (joinedFirst 5).toNode = .error e ∧
        checkStep "flip" turning (joinedFirst 3).toNode 4 = .error (.notIdempotent e) ∧
        e.property = .object ∧ e.diff = rebuiltNote (splitFirst 4).toNode := by
  have honce : turning.apply (joinedFirst 3).toNode 4 = .ok ((splitFirst 4).toNode, 5) := rfl
  have htwice : turning.apply (splitFirst 4).toNode 5 = .ok ((joinedFirst 5).toNode, 6) := rfl
  have htext : (splitFirst 4).toNode.fullText = (joinedFirst 5).toNode.fullText := rfl
  have he := compareResults_of_outline_eq htext rfl rfl "flip" turning.name
  exact ⟨⟨turnedNodes_made, .inr (.inl rfl), .inl rfl⟩, honce, htwice, by decide, _, he,
    checkStep_eq_error honce htwice he, rfl, rfl⟩

end Lossless
