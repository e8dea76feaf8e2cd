import Lossless.Proofs.Migration.Settling
import Lossless.Proofs.Text.Insertion

/-!
# Migration — question marks in front of fields

Which fields lack a question mark (`lacksMark`), and where in the text of a tree it belongs: where
the field starts, behind the trivia in front of its name (`markPlaces`).

A field gets its mark by moving the trivia in front of its name to a new token.  The text of the mark
and the name together is the text of the name with one byte put in behind the trivia (`Marks.text`),
and the tokens stay different ones (`Marks.nodup`), which later fields rely on: moving trivia replaces
every occurrence of a token.
-/

namespace Lossless

namespace Migration

open Catalog (fieldKind)

/-! ### Fields that lack a question mark -/

/-- Whether the child in a slot is as asked for. -/
def childIs (c : Composite) (slot : String) (p : Node → Bool) : Bool :=
  match c.untyped slot with
  | .ok m => p m
  | .error _ => false

/-- Whether a node is a nullable type. -/
def isNullable (n : Node) : Bool :=
  n.nodeClass == .composite && n.kind == "nullable_type_specifier"

/-- Whether a node is a field without a question mark, of a nullable type. -/
def lacksMark (n : Node) : Bool :=
  match n.composite? with
  | none => false
  | some c =>
    c.kind.name == "field_specifier" && childIs c "question" Node.isMissing &&
      childIs c "type" isNullable

/-- The length of the trivia in front of the name of a field. -/
def nameLead (n : Node) : Nat :=
  match n.composite? with
  | none => 0
  | some c =>
    match c.untyped "name" with
    | .ok name => (frontText name).length
    | .error _ => 0

/-- The offsets at which the fields of a tree that starts at `start` lack a question mark. -/
def markPlaces (start : Nat) (n : Node) : List Nat :=
  (n.placed start).filterMap fun p => if lacksMark p.2 then some (p.1 + nameLead p.2) else none

@[inherit_doc markPlaces]
def markPlacesAll (start : Nat) (ns : List Node) : List Nat :=
  (Node.placedAll start ns).filterMap fun p =>
    if lacksMark p.2 then some (p.1 + nameLead p.2) else none

theorem judgeField_eq_change_iff {v : View} :
    judgeField v = .change ↔ (v.kind.name = fieldKind.name ∧ v.has "question" = false) ∧
      (v.accepts "type" = true ∧ (v.face "type").kind = "nullable_type_specifier") ∧
      v.accepts "name" = true ∧ (v.face "name").nodeClass = .composite := by
  unfold judgeField
  grind

theorem judgeField_ne_refuse_iff {v : View} :
    judgeField v ≠ .refuse ↔ (v.kind.name = fieldKind.name → v.has "question" = false →
      v.accepts "type" = true ∧ ((v.face "type").kind = "nullable_type_specifier" →
        v.accepts "name" = true ∧ (v.face "name").nodeClass = .composite)) := by
  unfold judgeField
  grind

/-- **A field lacks a question mark exactly when the step changes it**, unless the step refuses it. -/
theorem lacksMark_iff {c : Composite} (hsound : c.toNode.Sound fun _ => True)
    (hk : c.kind ∈ Catalog.hack.kinds) (hadmits : judgeField c.view ≠ .refuse) :
    lacksMark c.toNode = true ↔ judgeField c.view = .change := by
  -- for kinds other than fields both sides are false
  by_cases hname : c.kind.name = fieldKind.name
  · have hkind : c.kind = fieldKind := Catalog.eq_of_mem_hack hk (by decide) hname
    obtain ⟨q, name, arrow, type, hcs⟩ := field_children hsound hkind
    obtain ⟨id, k, cs, w⟩ := c
    obtain rfl : k = fieldKind := hkind
    obtain rfl : cs = [q, name, arrow, type] := hcs
    have hlacks : lacksMark (.composite id fieldKind [q, name, arrow, type] w) =
        (q.isMissing && isNullable type) := rfl
    let v : View := Composite.view ⟨id, fieldKind, [q, name, arrow, type], w⟩
    have hquestion : v.has "question" = false ↔ q.isMissing = true := by
      show decide (q.nodeClass ≠ .missing) = false ↔ _
      cases q <;> simp [Node.nodeClass, Node.isMissing]
    have htype : v.accepts "type" = true → type.nodeClass = .composite :=
      VariantSet.class_of_accepts (by decide : Catalog.typeVariants ≠ [] ∧ _)
    show lacksMark (.composite id fieldKind [q, name, arrow, type] w) = true ↔ judgeField v = .change
    rw [hlacks, Bool.and_eq_true, ← hquestion, isNullable, Bool.and_eq_true, beq_iff_eq, beq_iff_eq,
      judgeField_eq_change_iff]
    have hadmits := judgeField_ne_refuse_iff.mp hadmits hname
    constructor
    · rintro ⟨hmissing, -, hnullable⟩
      obtain ⟨haccepts, hrest⟩ := hadmits hmissing
      exact ⟨⟨hname, hmissing⟩, ⟨haccepts, hnullable⟩, hrest hnullable⟩
    · rintro ⟨⟨-, hmissing⟩, ⟨haccepts, hnullable⟩, -⟩
      exact ⟨hmissing, htype haccepts, hnullable⟩
  · have hlacks : lacksMark c.toNode = false := by
      have hne : (c.kind.name == "field_specifier") = false := beq_eq_false_iff_ne.mpr hname
      simp only [lacksMark, Composite.toNode, Node.composite?, hne, Bool.false_and]
    have hkeep : judgeField c.view = .keep := if_pos (.inl hname)
    rw [hlacks, hkeep]
    decide

/-! ### Where the question marks belong -/

section Places

variable {K : Kind → Prop} {n : Node}

theorem placed_eq (start : Nat) (n : Node) :
    n.placed start = (start, n) :: Node.placedAll start n.children := by
  cases n <;> simp [Node.placed, Node.children, Node.placedAll]

theorem markPlaces_eq (start : Nat) (n : Node) :
    markPlaces start n =
      (if lacksMark n then [start + nameLead n] else []) ++ markPlacesAll start n.children := by
  rw [markPlaces, placed_eq, List.filterMap_cons]
  dsimp only
  split <;> simp_all [markPlacesAll]

@[simp] theorem markPlacesAll_nil (start : Nat) : markPlacesAll start [] = [] := rfl

@[simp] theorem markPlacesAll_cons (start : Nat) (n : Node) (ns : List Node) :
    markPlacesAll start (n :: ns) = markPlaces start n ++ markPlacesAll (start + n.width) ns := by
  simp [markPlacesAll, markPlaces, Node.placedAll]

/-- The number of fields that lack a question mark, below a node and at it. -/
theorem countP_postOrder (n : Node) :
    n.postOrder.countP lacksMark =
      (Node.postOrderAll n.children).countP lacksMark + if lacksMark n then 1 else 0 := by
  rw [Node.postOrder_eq, List.countP_append, List.countP_singleton]

/-- There is a place for every field that lacks a question mark. -/
theorem length_markPlaces (n : Node) : ∀ start,
    (markPlaces start n).length = n.postOrder.countP lacksMark := by
  have hall : ∀ ns : List Node,
      (∀ n ∈ ns, ∀ start, (markPlaces start n).length = n.postOrder.countP lacksMark) →
      ∀ start, (markPlacesAll start ns).length = (Node.postOrderAll ns).countP lacksMark := by
    intro ns h
    induction ns with
    | nil => exact fun _ => rfl
    | cons n ns ih =>
        intro start
        rw [markPlacesAll_cons, List.length_append, h n (.head _),
          ih (fun m hm => h m (.tail _ hm)), Node.postOrderAll, List.countP_append]
  -- one step for all four forms: the node itself and its children
  have hinner : ∀ n : Node,
      (∀ c ∈ n.children, ∀ start, (markPlaces start c).length = c.postOrder.countP lacksMark) →
      ∀ start, (markPlaces start n).length = n.postOrder.countP lacksMark := by
    intro n h start
    rw [markPlaces_eq, List.length_append, hall _ h, countP_postOrder, Nat.add_comm]
    split <;> rfl
  induction n using Node.induct with
  | missing | token _ => exact hinner _ nofun
  | list _ _ _ ih | composite _ _ _ _ ih => exact hinner _ ih

theorem frontText_length_le (n : Node) : (frontText n).length ≤ n.fullText.length := by
  rw [Node.fullText_eq, frontText, Node.firstToken_eq]
  cases n.frontier with
  | nil => simp
  | cons t ts => simp [Token.fullText]

/-- The trivia in front of the name of a field are part of it. -/
theorem nameLead_le (h : n.Sound K) : nameLead n ≤ n.width := by
  cases n with
  | missing | token _ | list _ _ _ => exact Nat.zero_le _
  | composite id k cs w =>
      obtain ⟨-, -, rfl, hcs⟩ := Node.sound_composite_iff.mp h
      unfold nameLead
      simp only [Node.composite?, Composite.untyped]
      split
      · next name hname =>
          split at hname
          · cases hname
          · next i s hs =>
              cases hname
              rw [List.getD_eq_getElem?_getD]
              cases hi : cs[i]? with
              | none => exact Nat.zero_le _
              | some m =>
                  have hlead := frontText_length_le m
                  rw [← (hcs m (List.mem_of_getElem? hi)).width_eq] at hlead
                  exact hlead.trans (Node.totalWidth_set m hi).1
      · exact Nat.zero_le _

theorem markPlacesAll_within {ns : List Node}
    (h : ∀ n ∈ ns, ∀ start, ∀ x ∈ markPlaces start n, start ≤ x ∧ x ≤ start + n.width) :
    ∀ start, ∀ x ∈ markPlacesAll start ns, start ≤ x ∧ x ≤ start + Node.totalWidth ns := by
  induction ns with
  | nil => exact fun _ _ hx => nomatch hx
  | cons n ns ih =>
      intro start x hx
      rw [markPlacesAll_cons] at hx
      rw [Node.totalWidth_cons]
      rcases List.mem_append.mp hx with hx | hx
      · have := h n (.head _) start x hx
        omega
      · have := ih (fun m hm => h m (.tail _ hm)) _ x hx
        omega

/-- **The places of a tree lie within it.** -/
theorem markPlaces_within (h : n.Sound K) :
    ∀ start, ∀ x ∈ markPlaces start n, start ≤ x ∧ x ≤ start + n.width := by
  -- one step for all four forms, given that the children are no wider than the node
  have hinner : ∀ n : Node, n.Sound K → Node.totalWidth n.children ≤ n.width →
      (∀ c ∈ n.children, ∀ start, ∀ x ∈ markPlaces start c, start ≤ x ∧ x ≤ start + c.width) →
      ∀ start, ∀ x ∈ markPlaces start n, start ≤ x ∧ x ≤ start + n.width := by
    intro n hn hle hcs start x hx
    rw [markPlaces_eq] at hx
    rcases List.mem_append.mp hx with hx | hx
    · have hlead := nameLead_le hn
      split at hx
      · have := List.mem_singleton.mp hx
        omega
      · cases hx
    · have := markPlacesAll_within hcs start x hx
      omega
  induction h with
  | missing => exact hinner _ .missing (Nat.zero_le _) nofun
  | token hw => exact hinner _ (.token hw) (Nat.zero_le _) nofun
  | list hc ih => exact hinner _ (.list hc) (Nat.le_refl _) ih
  | composite hK hk hc ih => exact hinner _ (.composite hK hk hc) (Nat.le_refl _) ih

end Places

/-! ### One field -/

section Marks

variable {S : Set Node} {s : Supply} {name name' : Node} {mark : Token}

/-- The byte of a question mark. -/
def questionMark : UInt8 := 63

theorem map_swap {t u : Token} {ts : List Token} (h : ∀ x ∈ ts, x.id ≠ t.id) :
    ts.map (Pass.swap t u) = ts := by
  conv_rhs => rw [← List.map_id ts]
  exact List.map_congr_left fun x hx => if_neg (h x hx)

/-- Among objects, different tokens have different numbers. -/
theorem ids_of_nodup {first : Token} {ts : List Token} (hS : Objects S s)
    (hmem : ∀ x ∈ first :: ts, .token x ∈ S) (hnodup : (first :: ts).Nodup) :
    ∀ x ∈ ts, x.id ≠ first.id := by
  intro x hx hid
  have heq := hS.unique _ (hmem x (.tail _ hx)) _ (hmem first (.head _)) hid
  cases heq
  exact (List.nodup_cons.mp hnodup).1 hx

/-- The tokens of a field that gets its question mark: nothing but the mark is new, or a bare token
stands in the place of the first one as well. -/
theorem Marks.tokens (h : Marks S name mark name') (hS : Objects S s) (hname : name ∈ S)
    (hnodup : name.frontier.Nodup) :
    .token mark ∉ S ∧
      (frontText name = [] ∧ name' = name ∧ mark.fullText = [questionMark] ∨
        ∃ first bare ts, name.frontier = first :: ts ∧ name'.frontier = bare :: ts ∧
          (.token bare ∉ S ∧ mark ≠ bare) ∧
          first.fullText = first.leadingText ++ bare.fullText ∧
          mark.fullText = first.leadingText ++ [questionMark]) := by
  obtain ⟨id₀, w₀, S₁, hsub, hmark, hmoved⟩ := h
  cases hmoved with
  | kept h => exact ⟨hmark, .inl ⟨h, rfl, rfl⟩⟩
  | @moved first name' id id' w w' hfirst hlead hbare hnew hne hswap =>
      rw [Node.firstToken_eq] at hfirst
      obtain ⟨ts, hts⟩ := List.head?_eq_some_iff.mp hfirst
      have hmem : ∀ x ∈ name.frontier, .token x ∈ S := fun x hx =>
        Node.token_mem_of_mem_frontier hS.child hname hx
      rw [hts] at hmem hnodup
      -- no other token of the name has the number of the first one
      have hids := ids_of_nodup hS hmem hnodup
      refine ⟨fun hin => hnew (hsub hin), .inr ⟨first, _, ts, hts, ?_,
        ⟨fun hin => hbare (hsub hin), fun heq => hne (congrArg Token.id heq).symm⟩, ?_, ?_⟩⟩
      · rw [hswap.frontier, hts, List.map_cons, map_swap hids, Pass.swap, if_pos rfl]
      · simp [Token.fullText, Token.leadingText, Token.trailingText, triviaText]
      · simp [Token.fullText, Token.leadingText, Token.trailingText, triviaText]
        decide

/-- **The text of a field that gets its question mark**: one byte is put in behind the trivia in front
of the name. -/
theorem Marks.text (h : Marks S name mark name') (hS : Objects S s) (hname : name ∈ S)
    (hnodup : name.frontier.Nodup) :
    ∃ rest, name.fullText = frontText name ++ rest ∧
      mark.fullText ++ name'.fullText = frontText name ++ questionMark :: rest := by
  obtain ⟨-, ⟨hfront, rfl, hmark⟩ | ⟨first, bare, ts, hts, hts', -, hfirst, hmark⟩⟩ :=
    h.tokens hS hname hnodup
  · exact ⟨_, by rw [hfront]; rfl, by rw [hfront, hmark]; rfl⟩
  · have hfront : frontText name = first.leadingText := by
      rw [frontText, Node.firstToken_eq, hts]
      rfl
    refine ⟨bare.fullText ++ ts.flatMap Token.fullText, ?_, ?_⟩
    · rw [Node.fullText_eq, hts, hfront, List.flatMap_cons, hfirst, List.append_assoc]
    · rw [Node.fullText_eq, hts', hfront, hmark, List.flatMap_cons]
      simp

/-- The tokens of a field stay different ones, and are old ones or new. -/
theorem Marks.nodup (h : Marks S name mark name') (hS : Objects S s) (hname : name ∈ S)
    (hnodup : name.frontier.Nodup) :
    (mark :: name'.frontier).Nodup ∧
      ∀ t ∈ mark :: name'.frontier, t ∈ name.frontier ∨ .token t ∉ S := by
  have hmem : ∀ x ∈ name.frontier, .token x ∈ S := fun x hx =>
    Node.token_mem_of_mem_frontier hS.child hname hx
  obtain ⟨hmark, ⟨-, rfl, -⟩ | ⟨first, bare, ts, hts, hts', ⟨hbare, hne⟩, -, -⟩⟩ :=
    h.tokens hS hname hnodup
  · refine ⟨List.nodup_cons.mpr ⟨fun hin => hmark (hmem _ hin), hnodup⟩, ?_⟩
    exact List.forall_mem_cons.mpr ⟨.inr hmark, fun t ht => .inl ht⟩
  · rw [hts] at hmem hnodup ⊢
    rw [hts']
    have hts : ∀ x ∈ ts, .token x ∈ S := fun x hx => hmem x (.tail _ hx)
    refine ⟨?_, ?_⟩
    · simp only [List.nodup_cons, List.mem_cons, not_or]
      exact ⟨⟨hne, fun hin => hmark (hts _ hin)⟩, fun hin => hbare (hts _ hin),
        (List.nodup_cons.mp hnodup).2⟩
    · simp only [List.forall_mem_cons]
      exact ⟨.inr hmark, .inr hbare, fun t ht => .inl (.tail _ ht)⟩

end Marks

end Migration

end Lossless
