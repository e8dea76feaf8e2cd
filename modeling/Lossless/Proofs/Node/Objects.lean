import Lossless.Proofs.Node.Alike
import Lossless.Proofs.Node.Operations
import Mathlib.Data.Set.Insert

/-!
# Node — the objects that are there

Nodes are known by their numbers.  Within one run the nodes that are there have distinct numbers,
all of them below the next one of the supply, and building a node adds an object with that number
(`Objects.insert`).  A set of nodes with these properties is a set of *objects*.

Among objects the same number means the same node, so structural equality, which does not look into
nodes of the same number, is to be alike (`Objects.equal_iff_alike`).
-/

namespace Lossless

namespace Node

variable {n : Node} {id id' : Nat} {cs ds : List Node}

theorem Alike.renewed (h : AlikeAll cs ds) : Alike (n.renewed id cs) (n.renewed id' ds) := by
  cases n with
  | missing => exact .missing
  | token _ => exact .refl _
  | list _ _ _ => exact .list h
  | composite _ _ _ _ => exact .composite rfl h

theorem Alike.of_children (h : AlikeAll n.children ds) : Alike n (n.renewed id ds) := by
  cases n with
  | missing => exact .missing
  | token _ => exact .refl _
  | list _ _ _ => exact .list h
  | composite _ _ _ _ => exact .composite rfl h

end Node

/-- Sound nodes with distinct numbers below the next one of the supply. The missing node and all
children are among them. -/
structure Objects (S : Set Node) (supply : Supply) : Prop where
  missing : .missing ∈ S
  child : ∀ n ∈ S, ∀ c ∈ n.children, c ∈ S
  sound : ∀ n ∈ S, n.Sound fun _ => True
  unique : ∀ a ∈ S, ∀ b ∈ S, a.id = b.id → a = b
  below : ∀ n ∈ S, n.id < supply

namespace Objects

variable {S : Set Node} {supply : Supply} {a b : Node}

theorem eq_of_same (h : Objects S supply) (ha : a ∈ S) (hb : b ∈ S) (hs : a.same b = true) :
    a = b :=
  h.unique a ha b hb (by simpa [Node.same] using hs)

theorem mono {supply' : Supply} (h : Objects S supply) (hs : supply ≤ supply') :
    Objects S supply' where
  missing := h.missing
  child := h.child
  sound := h.sound
  unique := h.unique
  below n hn := Nat.lt_of_lt_of_le (h.below n hn) hs

/-- Some of the objects, with their children. -/
theorem subset (h : Objects S supply) {S' : Set Node} (hsub : S' ⊆ S) (hmissing : .missing ∈ S')
    (hchild : ∀ n ∈ S', ∀ c ∈ n.children, c ∈ S') : Objects S' supply where
  missing := hmissing
  child := hchild
  sound n hn := h.sound n (hsub hn)
  unique a ha b hb := h.unique a (hsub ha) b (hsub hb)
  below n hn := h.below n (hsub hn)

/-- When numbering starts, there is the missing node only. -/
theorem start : Objects {Node.missing} Supply.start where
  missing := rfl
  child := by
    rintro n rfl c hc
    cases hc
  sound := by
    rintro n rfl
    exact .missing
  unique := by
    rintro a rfl b rfl -
    rfl
  below := by
    rintro n rfl
    exact Nat.zero_lt_one

/-- A sound node with the next number, whose children are there, is one more object. -/
theorem insert (h : Objects S supply) {n : Node} (hid : n.id = supply)
    (hc : ∀ c ∈ n.children, c ∈ S) (hn : n.Sound fun _ => True) :
    Objects (insert n S) (supply + 1) where
  missing := .inr h.missing
  child := by
    rintro m (rfl | hm) c hmc
    · exact .inr (hc c hmc)
    · exact .inr (h.child m hm c hmc)
  sound := by
    rintro m (rfl | hm)
    · exact hn
    · exact h.sound m hm
  unique := by
    -- all that is there has a smaller number
    have fresh : ∀ m ∈ S, m.id ≠ n.id := by
      intro m hm he
      have := h.below m hm
      omega
    rintro a (rfl | ha) b (rfl | hb) he
    · rfl
    · exact absurd he.symm (fresh b hb)
    · exact absurd he (fresh a ha)
    · exact h.unique a ha b hb he
  below := by
    rintro m (rfl | hm)
    · omega
    · have := h.below m hm
      omega

/-- An inner object built anew is one more object. -/
theorem renew (h : Objects S supply) {n : Node} (hn : n ∈ S) (hinner : n.IsInner)
    {cs : List Node} (hcs : ∀ c ∈ cs, c ∈ S) (hlen : cs.length = n.children.length) :
    Objects (Insert.insert (n.renewed supply cs) S) (supply + 1) := by
  refine h.insert (Node.renewed_id hinner) ?_ ?_
  · rw [Node.renewed_children hinner]
    exact hcs
  · exact (h.sound n hn).renewed (fun c hc => h.sound c (hcs c hc)) hlen

/-! ### Structural equality -/

theorem alikeAll_of_equalAll {as bs : List Node}
    (ha : ∀ a ∈ as, ∀ b ∈ S, Node.equal a b = true → Node.Alike a b) (hb : ∀ b ∈ bs, b ∈ S)
    (he : Node.equalAll as bs = true) : Node.AlikeAll as bs := by
  induction as generalizing bs with
  | nil =>
      cases bs with
      | nil => exact .nil
      | cons b bs => cases he
  | cons a as ih =>
      cases bs with
      | nil => cases he
      | cons b bs =>
          rw [Node.equalAll, Bool.and_eq_true] at he
          exact .cons (ha a (.head _) b (hb b (.head _)) he.1)
            (ih (fun a h => ha a (.tail _ h)) (fun b h => hb b (.tail _ h)) he.2)

/-- Whether two nodes of one class have equal parts. -/
def sameParts (a b : Node) : Bool :=
  match a with
  | .missing => true
  | .token t => match b with
    | .token u => Node.sameToken t u
    | _ => false
  | .list _ items _ => Node.equalAll items b.children
  | .composite _ _ cs _ => Node.equalAll cs b.children

/-- Structurally equal objects are the same, or they agree in what they are and in their parts. -/
theorem eq_or_parts (h : Objects S supply) (ha : a ∈ S) (hb : b ∈ S)
    (he : Node.equal a b = true) :
    a = b ∨ a.nodeClass = b.nodeClass ∧ a.kind = b.kind ∧ sameParts a b = true := by
  rw [Node.equal.eq_def, Bool.or_eq_true, Bool.and_eq_true] at he
  rcases he with hs | ⟨hshape, hparts⟩
  · exact .inl (h.eq_of_same ha hb hs)
  · simp only [Node.sameShape, Bool.and_eq_true, beq_iff_eq] at hshape
    exact .inr ⟨hshape.1.1, hshape.1.2, hparts⟩

/-- Among objects, what is structurally equal is alike. -/
theorem alike_of_equal (h : Objects S supply) (ha : a ∈ S) (hb : b ∈ S)
    (he : Node.equal a b = true) : Node.Alike a b := by
  -- objects with one number are one object, which is alike itself; other ones are compared by parts
  induction a using Node.induct generalizing b with
  | missing =>
      rcases h.eq_or_parts ha hb he with rfl | ⟨hclass, -, -⟩
      · exact .missing
      · cases b with
        | missing => exact .missing
        | _ => cases hclass
  | token t =>
      rcases h.eq_or_parts ha hb he with rfl | ⟨hclass, hkind, hparts⟩
      · exact .refl _
      · cases b with
        | token u =>
            simp only [sameParts, Node.sameToken, Bool.and_eq_true, beq_iff_eq] at hparts
            exact .token hkind hparts.1.2 hparts.1.1 hparts.2
        | _ => cases hclass
  | list id items w ih =>
      rcases h.eq_or_parts ha hb he with rfl | ⟨hclass, -, hparts⟩
      · exact .refl _
      · cases b with
        | list id' items' w' =>
            exact .list (alikeAll_of_equalAll (fun c hc d hd => ih c hc (h.child _ ha c hc) hd)
              (h.child _ hb) hparts)
        | _ => cases hclass
  | composite id k cs w ih =>
      rcases h.eq_or_parts ha hb he with rfl | ⟨hclass, hkind, hparts⟩
      · exact .refl _
      · cases b with
        | composite id' k' cs' w' =>
            exact .composite hkind (alikeAll_of_equalAll
              (fun c hc d hd => ih c hc (h.child _ ha c hc) hd) (h.child _ hb) hparts)
        | _ => cases hclass

/-- **Among objects, structural equality is to be alike.** -/
theorem equal_iff_alike (h : Objects S supply) (ha : a ∈ S) (hb : b ∈ S) :
    Node.equal a b = true ↔ Node.Alike a b :=
  ⟨h.alike_of_equal ha hb, fun hab => hab.equal (h.sound a ha) (h.sound b hb)⟩

end Objects

end Lossless
