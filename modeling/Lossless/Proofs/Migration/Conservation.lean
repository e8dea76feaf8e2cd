import Lossless.Proofs.Migration.Builtin

/-!
# Migration — what moving trivia does to the text

Moving the trivia in front of a tree to a token is there to keep comments and indentation in front
when a new token is put before the tree.  The trivia is found at a place, in front of the first token,
but it is taken off an object: when the same token stands at several places of the tree, it is taken
off at all of them, and only one of the copies arrives at the target.

**Conservation** (`moveLeadingTrivia_text`).  Moving never fails, and the target reads the moved text
in front of its own.  The tree reads what it read without that text at every place of the object, so
that the two together lose the text as often as the object stands behind the first place.  Nothing
is lost exactly when there is no text to move or the first token stands at one place only.
-/

namespace Lossless

namespace Token

/-- The text of a token without the trivia in front of it. -/
def bareText (t : Token) : Text := t.text ++ t.trailingText

theorem fullText_eq_append (t : Token) : t.fullText = t.leadingText ++ t.bareText := by
  simp [fullText, bareText]

/-- What tokens read when those that are picked are read without the trivia in front of them. -/
def bareTextAll (picked : Token → Bool) (ts : List Token) : Text :=
  ts.flatMap fun t => if picked t then t.bareText else t.fullText

section Picked

variable {picked : Token → Bool} {lead : Text} {ts : List Token}

theorem bareTextAll_cons (picked : Token → Bool) (t : Token) (ts : List Token) :
    bareTextAll picked (t :: ts) =
      (if picked t then t.bareText else t.fullText) ++ bareTextAll picked ts := rfl

/-- When none is picked, nothing is left out. -/
theorem bareTextAll_of_none (h : ts.countP picked = 0) :
    bareTextAll picked ts = ts.flatMap fullText := by
  rw [List.countP_eq_zero] at h
  exact List.flatMap_congr fun t ht => if_neg (h t ht)

/-- The text in front of each of the picked tokens is left out once. -/
theorem length_bareTextAll (h : ∀ t ∈ ts, picked t = true → t.leadingText = lead) :
    (bareTextAll picked ts).length + ts.countP picked * lead.length =
      (ts.flatMap fullText).length := by
  induction ts with
  | nil => simp [bareTextAll]
  | cons t ts ih =>
      have ih := ih fun t' ht' => h t' (.tail _ ht')
      rw [bareTextAll_cons, List.flatMap_cons, List.length_append, List.length_append, ← ih]
      by_cases hp : picked t = true
      · rw [List.countP_cons_of_pos hp, if_pos hp, fullText_eq_append, h t (.head _) hp,
          List.length_append, Nat.succ_mul]
        omega
      · rw [List.countP_cons_of_neg hp, if_neg hp]
        omega

end Picked

end Token

namespace Migration

variable {S : Set Node} {s : Supply} {n n' : Node} {t t' : Token}

/-! ### The token in front -/

/-- Whether a token is the object that stands first in a tree. -/
def isFront (n : Node) (t : Token) : Bool := n.firstToken.any (·.id == t.id)

/-- The number of places of a tree at which the object stands that is its first token. -/
def frontCount (n : Node) : Nat := n.frontier.countP (isFront n)

/-- What a tree reads without the trivia of its first token, wherever that stands. -/
def strippedText (n : Node) : Text := Token.bareTextAll (isFront n) n.frontier

theorem exists_of_isFront (h : isFront n t = true) :
    ∃ first, n.firstToken = some first ∧ first.id = t.id := by
  unfold isFront at h
  cases hfirst : n.firstToken with
  | none => rw [hfirst] at h; cases h
  | some first =>
      rw [hfirst] at h
      exact ⟨first, rfl, by simpa using h⟩

theorem first_mem (hS : Objects S s) (hn : n ∈ S) {first : Token}
    (h : n.firstToken = some first) : .token first ∈ S := by
  rw [Node.firstToken_eq] at h
  exact Node.token_mem_of_mem_frontier hS.child hn (List.mem_of_head? h)

/-- Among objects, the first token is the same at all its places. -/
theorem eq_of_isFront (hS : Objects S s) (hn : n ∈ S) (ht : t ∈ n.frontier)
    (h : isFront n t = true) : n.firstToken = some t := by
  obtain ⟨first, hfirst, hid⟩ := exists_of_isFront h
  have htoken := Node.token_mem_of_mem_frontier hS.child hn ht
  cases hS.unique _ (first_mem hS hn hfirst) _ htoken hid
  exact hfirst

theorem leadingText_of_isFront (hS : Objects S s) (hn : n ∈ S) :
    ∀ t ∈ n.frontier, isFront n t = true → t.leadingText = frontText n := by
  intro t ht h
  simp [frontText, eq_of_isFront hS hn ht h]

/-- A tree that reads nothing in front of its first token stays as it reads. -/
theorem strippedText_of_frontText (hS : Objects S s) (hn : n ∈ S) (h : frontText n = []) :
    strippedText n = n.fullText := by
  rw [Node.fullText_eq]
  refine List.flatMap_congr fun t ht => ?_
  by_cases hp : isFront n t = true
  · rw [if_pos hp, Token.fullText_eq_append, leadingText_of_isFront hS hn t ht hp, h]
    rfl
  · exact if_neg hp

theorem length_strippedText (hS : Objects S s) (hn : n ∈ S) :
    (strippedText n).length + frontCount n * (frontText n).length = n.fullText.length := by
  rw [Node.fullText_eq]
  exact Token.length_bareTextAll (leadingText_of_isFront hS hn)

/-- **When the text is only moved**: there is none, or its token stands at one place. -/
theorem fullText_eq_append_iff (hS : Objects S s) (hn : n ∈ S) :
    n.fullText = frontText n ++ strippedText n ↔ frontText n = [] ∨ frontCount n = 1 := by
  constructor
  · intro h
    have hlen := congrArg List.length h
    rw [List.length_append, ← length_strippedText hS hn, Nat.add_comm, Nat.add_right_cancel_iff]
      at hlen
    rw [← List.length_eq_zero_iff]
    rcases Nat.eq_zero_or_pos (frontText n).length with hzero | hpos
    · exact .inl hzero
    · exact .inr (Nat.eq_of_mul_eq_mul_right hpos (hlen.trans (Nat.one_mul _).symm))
  · rintro (h | h)
    · rw [strippedText_of_frontText hS hn h, h]
      rfl
    · -- the first place is the only one
      have hlead := leadingText_of_isFront hS hn
      unfold frontCount at h
      unfold strippedText
      rw [Node.fullText_eq]
      cases hts : n.frontier with
      | nil => simp [hts] at h
      | cons first ts =>
          have hfirst : isFront n first = true := by
            simp [isFront, Node.firstToken_eq, hts]
          rw [hts, List.countP_cons_of_pos hfirst] at h
          rw [List.flatMap_cons, Token.bareTextAll_cons, if_pos hfirst,
            Token.bareTextAll_of_none (Nat.succ.inj h), Token.fullText_eq_append,
            hlead first (hts ▸ .head _) hfirst, List.append_assoc]

/-! ### Moving -/

theorem Moved.target_text (h : Moved S n t n' t') :
    t'.fullText = frontText n ++ t.fullText := by
  cases h with
  | kept h =>
      rw [h]
      rfl
  | moved hfirst _ _ _ _ _ =>
      simp [frontText, hfirst, Token.fullText, Token.leadingText, Token.trailingText, triviaText]

theorem Moved.source_text (h : Moved S n t n' t') (hS : Objects S s) (hn : n ∈ S) :
    n'.fullText = strippedText n := by
  cases h with
  | kept h => exact (strippedText_of_frontText hS hn h).symm
  | @moved first n' id id' w w' hfirst _ _ _ _ hswap =>
      rw [Node.fullText_eq, hswap.frontier, List.flatMap_map]
      refine List.flatMap_congr fun x hx => ?_
      by_cases hp : isFront n x = true
      · cases hfirst.symm.trans (eq_of_isFront hS hn hx hp)
        rw [if_pos hp, Pass.swap, if_pos rfl]
        simp [Token.fullText, Token.leadingText, Token.trailingText, triviaText, Token.bareText]
      · have hne : x.id ≠ first.id := by
          intro he
          exact hp (by simp [isFront, hfirst, he])
        rw [if_neg hp, Pass.swap, if_neg hne]

theorem Moved.eq_self (h : Moved S n t n' t') (hnone : frontText n = []) : n' = n ∧ t' = t := by
  cases h with
  | kept _ => exact ⟨rfl, rfl⟩
  | moved hfirst hlead _ _ _ _ => exact absurd (by simpa [frontText, hfirst] using hnone) hlead

/-- **Conservation.** Moving the trivia in front of a tree to a token never fails, and changes
nothing when there is none. The token gets its text in front of its own; the tree loses it wherever
its first token stands. So the tree keeps the rest of its text, and both together their width, if
and only if there is no such text or the first token stands at one place only. -/
theorem moveLeadingTrivia_text (hS : Objects S s) {source : Node} {target : Token}
    (hsource : source ∈ S) (htarget : .token target ∈ S) :
    ∃ source' target' s', moveLeadingTrivia source target s = .ok ((source', target'), s') ∧
      (frontText source = [] → source' = source ∧ target' = target) ∧
      target'.fullText = frontText source ++ target.fullText ∧
      source'.fullText = strippedText source ∧
      (source.fullText = frontText source ++ source'.fullText ↔
        frontText source = [] ∨ frontCount source = 1) ∧
      source'.width + target'.width + frontCount source * (frontText source).length =
        source.width + target.width + (frontText source).length := by
  obtain ⟨source', target', s', S', hrun, -, hS', hsource', htarget', hmoved⟩ :=
    moveLeadingTrivia_moves hS hsource htarget
  have htext := hmoved.source_text hS hsource
  refine ⟨source', target', s', hrun, hmoved.eq_self, hmoved.target_text, htext, ?_, ?_⟩
  · rw [htext]
    exact fullText_eq_append_iff hS hsource
  · -- every tree is as wide as its text is long
    have hwidth : target.width = target.fullText.length := (hS.sound _ htarget).width_eq
    have hwidth' : target'.width = target'.fullText.length := (hS'.sound _ htarget').width_eq
    have hlen := length_strippedText hS hsource
    rw [(hS.sound _ hsource).width_eq, (hS'.sound _ hsource').width_eq, hwidth, hwidth', htext,
      hmoved.target_text, List.length_append]
    omega

/-- A name with a blank in front. -/
def blankName : Token := ⟨1, "name", [⟨"whitespace", [32]⟩], [97], [], 2⟩

/-- The list in which it stands twice. -/
def twiceTree : Node := .list 2 [.token blankName, .token blankName] 4

/-- A question mark that is to stand in front. -/
def frontMark : Token := ⟨3, "question", [], [63], [], 1⟩

/-- The objects that are there with them. -/
def twiceObjects : Set Node :=
  insert (.token frontMark) (insert twiceTree (insert (.token blankName) {.missing}))

theorem twiceObjects_objects : Objects twiceObjects 4 := by
  have hname : (Node.token blankName).Sound fun _ => True := .token rfl
  have hone := Objects.start.insert (n := .token blankName) rfl nofun hname
  have htwo := hone.insert (n := twiceTree) rfl (by simp [twiceTree, Node.children])
    (.list (by simpa using hname))
  exact htwo.insert (n := .token frontMark) rfl nofun (.token rfl)

theorem moveLeadingTrivia_text_twiceTree :
    (Objects twiceObjects 4 ∧ twiceTree ∈ twiceObjects ∧ .token frontMark ∈ twiceObjects) ∧
    (frontText twiceTree = [32] ∧ frontCount twiceTree = 2) ∧
    ∃ source' target' s', moveLeadingTrivia twiceTree frontMark 4 = .ok ((source', target'), s') ∧
      target'.fullText = " ?" ∧ source'.fullText = "aa" ∧
      source'.width + target'.width + 1 = twiceTree.width + frontMark.width := by
  have htree : twiceTree ∈ twiceObjects := .inr (.inl rfl)
  have hmark : .token frontMark ∈ twiceObjects := .inl rfl
  have hfront : frontText twiceTree = [32] := by decide
  have hcount : frontCount twiceTree = 2 := by decide
  obtain ⟨source', target', s', hrun, -, htarget, hsource, -, hwidth⟩ :=
    moveLeadingTrivia_text twiceObjects_objects htree hmark
  rw [hfront, hcount] at hwidth
  refine ⟨⟨twiceObjects_objects, htree, hmark⟩, ⟨hfront, hcount⟩, source', target', s', hrun, ?_, ?_,
    by simpa using hwidth⟩
  · rw [htarget]
    decide
  · rw [hsource]
    decide

/-- The tree " a a" loses a blank that the question mark does not get. -/
theorem moveLeadingTrivia_loses_text :
    Objects twiceObjects 4 ∧ twiceTree ∈ twiceObjects ∧ .token frontMark ∈ twiceObjects ∧
    ∃ source' target' s', moveLeadingTrivia twiceTree frontMark 4 = .ok ((source', target'), s') ∧
      twiceTree.fullText = frontText twiceTree ++ Text.ofString "a a" ∧
      source'.fullText ≠ Text.ofString "a a" ∧
      source'.width + target'.width ≠ twiceTree.width + frontMark.width := by
  refine ⟨twiceObjects_objects, .inr (.inl rfl), .inl rfl,
    .list 5 [.token ⟨4, "name", [], [97], [], 1⟩, .token ⟨4, "name", [], [97], [], 1⟩] 2,
    ⟨6, "question", [⟨"whitespace", [32]⟩], [63], [], 2⟩, 7, rfl, by decide, by decide, by decide⟩

end Migration

end Lossless
