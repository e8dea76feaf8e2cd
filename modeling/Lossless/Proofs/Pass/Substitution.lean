import Lossless.Proofs.Lists
import Lossless.Proofs.Node.Positions
import Lossless.Proofs.Pass.Among

/-!
# Pass — substitution

The pass that replaces one object by another asks, for every node whose children are done, whether
it is the old object.  What it asks about may have been built anew, and the new object may hold the
old one; so what comes out is told by a relation between trees (`Substituted`), which does not speak
of the pass: the new object in the place of the old one, a node as it is when nothing below it was
replaced, and otherwise a node that was not there before.

Two facts about objects make the pass do that.  A node that is built anew has a number of its own,
so it is never taken for the old object; and an object does not stand below itself, so the old object
is met as it is (`Node.not_holds_child`).

**Substitution by reference** (`replace_by_reference`).  The result is described position by position
(`Replaced`): what stands where the old object stood, above it, beside it, and nowhere else; when the
result is the tree itself; and what it reads.
-/

namespace Lossless

namespace Node

variable {n m c old : Node} {p q : Position} {S : Set Node} {supply : Supply}

/-! ### Where an object stands -/

theorem size_le_sizeAll {cs : List Node} (h : c ∈ cs) : c.size ≤ sizeAll cs := by
  induction h with
  | head _ =>
      rw [sizeAll]
      omega
  | tail _ _ ih =>
      rw [sizeAll]
      omega

/-- A tree is larger than its parts, at least by the length of the way to them. -/
theorem size_add_length_le (h : n.at? p = some m) : m.size + p.length ≤ n.size := by
  induction p generalizing n with
  | nil =>
      cases h
      exact le_rfl
  | cons i p ih =>
      obtain ⟨c, hc, hp⟩ := Option.bind_eq_some_iff.mp h
      have hle := ih hp
      have hchild := size_le_sizeAll (List.mem_of_getElem? hc)
      rw [size_eq n, List.length_cons]
      omega

/-- A tree does not stand below itself. -/
theorem eq_nil_of_at?_self (h : n.at? p = some n) : p = [] := by
  have hle := size_add_length_le h
  exact List.eq_nil_of_length_eq_zero (by omega)

/-- An object stands somewhere in a tree. -/
def Holds (n old : Node) : Prop := ∃ p m, n.at? p = some m ∧ m.same old = true

theorem holds_iff : n.Holds old ↔ n.same old = true ∨ ∃ c ∈ n.children, c.Holds old := by
  constructor
  · rintro ⟨p, m, hp, hm⟩
    cases p with
    | nil =>
        cases hp
        exact .inl hm
    | cons i p =>
        obtain ⟨c, hc, hp⟩ := Option.bind_eq_some_iff.mp hp
        exact .inr ⟨c, List.mem_of_getElem? hc, p, m, hp, hm⟩
  · rintro (h | ⟨c, hc, p, m, hp, hm⟩)
    · exact ⟨[], n, rfl, h⟩
    · obtain ⟨i, hi⟩ := List.getElem?_of_mem hc
      exact ⟨i :: p, m, (at?_cons hi p).trans hp, hm⟩

theorem mem_of_at? (hS : ∀ n ∈ S, ∀ c ∈ n.children, c ∈ S) (hn : n ∈ S) (h : n.at? p = some m) :
    m ∈ S := by
  induction p generalizing n with
  | nil =>
      cases h
      exact hn
  | cons i p ih =>
      obtain ⟨c, hc, hp⟩ := Option.bind_eq_some_iff.mp h
      exact ih (hS n hn c (List.mem_of_getElem? hc)) hp

/-- No object stands on the way to a position; it may stand at the position itself. -/
def Clear (n old : Node) (p : Position) : Prop :=
  ∀ q m, q <+: p → n.at? q = some m → m.same old = true → q = p

theorem Clear.head {i : Nat} (h : n.Clear old (i :: p)) : n.same old = false := by
  cases hs : n.same old with
  | false => rfl
  | true => cases h [] n List.nil_prefix rfl hs

theorem Clear.tail {i : Nat} (h : n.Clear old (i :: p)) (hc : n.children[i]? = some c) :
    c.Clear old p := by
  intro q m hq hm hs
  have he := h (i :: q) m (List.cons_prefix_cons.mpr ⟨rfl, hq⟩) ((at?_cons hc q).trans hm) hs
  exact (List.cons.inj he).2

/-- Among objects, nothing that holds an object stands below it. -/
theorem clear_of_holds (hS : Objects S supply) (hn : n ∈ S) (hold : old ∈ S)
    (h : n.at? p = some m) (hm : m.Holds old) : n.Clear old p := by
  rintro q a ⟨t, rfl⟩ ha hs
  obtain rfl := hS.eq_of_same (mem_of_at? hS.child hn ha) hold hs
  obtain ⟨u, x, hx, hs⟩ := hm
  obtain rfl := hS.eq_of_same (mem_of_at? hS.child (mem_of_at? hS.child hn h) hx) hold hs
  rw [at?_append ha] at h
  have hnil := eq_nil_of_at?_self ((at?_append h u).trans hx)
  rw [(List.append_eq_nil_iff.mp hnil).1, List.append_nil]

/-- Among objects, no object stands below itself. -/
theorem not_holds_child (hS : Objects S supply) (hn : n ∈ S) (hc : c ∈ n.children) :
    ¬c.Holds n := by
  rintro ⟨p, m, hp, hs⟩
  obtain rfl := hS.eq_of_same (mem_of_at? hS.child (hS.child n hn c hc) hp) hn hs
  obtain ⟨i, hi⟩ := List.getElem?_of_mem hc
  cases eq_nil_of_at?_self ((at?_cons hi p).trans hp)

/-! ### What a tree reads with an object written otherwise -/

mutual
/-- The full text of a tree, with `x` in the place of every occurrence of `old`. -/
def textWith : (n old : Node) → (x : Text) → Text
  | .missing, old, x => if missing.same old then x else []
  | .token t, old, x => if (token t).same old then x else t.fullText
  | .list id items w, old, x =>
    if (list id items w).same old then x else textWithAll items old x
  | .composite id k cs w, old, x =>
    if (composite id k cs w).same old then x else textWithAll cs old x

@[inherit_doc textWith]
def textWithAll : (ns : List Node) → (old : Node) → (x : Text) → Text
  | [], _, _ => []
  | n :: rest, old, x => textWith n old x ++ textWithAll rest old x
end

theorem textWith_same (x : Text) (h : n.same old = true) : n.textWith old x = x := by
  cases n <;> simp [textWith, h]

theorem textWith_inner (x : Text) (h : n.same old = false) (hinner : n.IsInner) :
    n.textWith old x = textWithAll n.children old x := by
  cases n with
  | missing | token _ => exact hinner.elim
  | list _ _ _ | composite _ _ _ _ => simp [textWith, h, children]

theorem textWith_leaf (x : Text) (h : n.same old = false) (hleaf : ¬n.IsInner) :
    n.textWith old x = n.fullText := by
  cases n with
  | missing | token _ => simp [textWith, h, fullText]
  | list _ _ _ | composite _ _ _ _ => exact absurd trivial hleaf

theorem fullTextAll_eq_textWithAll {x : Text} {cs rs : List Node}
    (h : List.Forall₂ (fun c r => r.fullText = c.textWith old x) cs rs) :
    fullTextAll rs = textWithAll cs old x := by
  induction h with
  | nil => rfl
  | cons hc _ ih => rw [fullTextAll, textWithAll, hc, ih]

/-- A tree reads what it reads with the text of an object in the place of that object. -/
theorem textWith_self (hS : Objects S supply) (hold : old ∈ S) (hn : n ∈ S) :
    n.textWith old old.fullText = n.fullText := by
  induction n using children_induct with
  | step n ih =>
      cases h : n.same old with
      | true => rw [textWith_same _ h, hS.eq_of_same hn hold h]
      | false =>
          by_cases hinner : n.IsInner
          · rw [textWith_inner _ h hinner, fullText_inner hinner]
            refine (fullTextAll_eq_textWithAll (List.forall₂_same.mpr fun c hc => ?_)).symm
            exact (ih c hc (hS.child n hn c hc)).symm
          · exact textWith_leaf _ h hinner

end Node

/-! ### One object in the place of another -/

/-- How `new` takes the place of `old` in a tree, among the objects of `S`: in a tree that is `old`
itself; nowhere in a node that stays as it is; or somewhere below a node, in the place of which
stands one that is not among the objects. -/
inductive Substituted (S : Set Node) (old new : Node) : Node → Node → Prop where
  | here {n : Node} (h : n.same old = true) : Substituted S old new n new
  | kept {n : Node} (h : n.same old = false)
      (hcs : ∀ c ∈ n.children, Substituted S old new c c) : Substituted S old new n n
  | anew {n : Node} {id : Nat} {rs : List Node} (h : n.same old = false) (hinner : n.IsInner)
      (hrs : List.Forall₂ (Substituted S old new) n.children rs) (hne : rs ≠ n.children)
      (hnew : n.renewed id rs ∉ S) : Substituted S old new n (n.renewed id rs)

theorem Chain.forall₂ {R : Node → Node → Prop} {S S' : Set Node} {cs rs : List Node}
    (h : Chain (fun _ _ => R) S cs rs S') : List.Forall₂ R cs rs := by
  induction h with
  | nil => exact .nil
  | cons _ _ h _ ih => exact .cons h ih

/-- How a tree came to have one object in the place of another one. -/
structure Replaced (S : Set Node) (root old new r : Node) : Prop where
  /-- The new object stands wherever the old one stood, as it is. -/
  here : ∀ p m q, root.at? p = some m → m.same old = true → r.at? (p ++ q) = new.at? q
  /-- Nodes without the old object below them stay, unless they go with it. -/
  beside : ∀ p m, root.at? p = some m → root.Clear old p → ¬m.Holds old → r.at? p = some m
  /-- Above the old object stand nodes of the same class and kind with as many children, which were
  not there before if the new object is another one. -/
  above : ∀ p m, root.at? p = some m → m.Holds old → m.same old = false →
    ∃ m', r.at? p = some m' ∧ m'.nodeClass = m.nodeClass ∧ m'.kind = m.kind ∧
      m'.childCount = m.childCount ∧ (new.same old = false → m' ∉ S)
  /-- Outside of the new object there is nothing else. -/
  nowhere : ∀ p, root.Clear old p → root.at? p = none → r.at? p = none
  /-- The tree is the same when there was nothing to replace. -/
  same_iff : r.same root = true ↔ ¬root.Holds old ∨ new.same old = true
  /-- It reads as before, with the text of the new object in the place of that of the old one. -/
  fullText : root.fullText = root.textWith old old.fullText ∧
    r.fullText = root.textWith old new.fullText

namespace Substituted

variable {S : Set Node} {supply : Supply} {old new n r : Node}

theorem eq_new (h : Substituted S old new n r) (hn : n.same old = true) : r = new := by
  cases h with
  | here _ => rfl
  | kept h _ | anew h _ _ _ _ => simp [h] at hn

/-- A node that is not replaced keeps its class, its kind and the number of its children. -/
theorem shape (h : Substituted S old new n r) (hn : n.same old = false) :
    r.nodeClass = n.nodeClass ∧ r.kind = n.kind ∧ r.childCount = n.childCount := by
  cases h with
  | here h => simp [h] at hn
  | kept _ _ => exact ⟨rfl, rfl, rfl⟩
  | @anew _ id rs _ hinner hrs _ _ =>
      have hface := Node.face_renewed n id rs
      refine ⟨congrArg Face.nodeClass hface, congrArg Face.kind hface, ?_⟩
      rw [Node.childCount, Node.renewed_children hinner, Node.childCount, hrs.length_eq]

theorem isInner (h : Substituted S old new n r) (hn : n.same old = false) (hinner : n.IsInner) :
    r.IsInner := by
  cases h with
  | here h => simp [h] at hn
  | kept _ _ => exact hinner
  | anew _ _ _ _ _ => cases n <;> exact hinner

theorem eq_of_leaf (h : Substituted S old new n r) (hn : n.same old = false)
    (hleaf : ¬n.IsInner) : r = n := by
  cases h with
  | here h => simp [h] at hn
  | kept _ _ => rfl
  | anew _ hinner _ _ _ => exact absurd hinner hleaf

/-- What stands below a node that is not replaced. -/
theorem children (h : Substituted S old new n r) (hn : n.same old = false) :
    List.Forall₂ (Substituted S old new) n.children r.children := by
  cases h with
  | here h => simp [h] at hn
  | kept _ hcs => exact List.forall₂_same.mpr hcs
  | anew _ hinner hrs _ _ =>
      rw [Node.renewed_children hinner]
      exact hrs

/-- **What stands at a position**: up to the occurrences of the old object, the trees have the same
positions, and the parts at each of them stand to each other as the trees do. -/
theorem at? (h : Substituted S old new n r) {p : Position} (hp : n.Clear old p) :
    Option.Rel (Substituted S old new) (n.at? p) (r.at? p) := by
  induction p generalizing n r with
  | nil => exact .some h
  | cons i p ih =>
      have hrel := getElem?_of_forall₂ (h.children hp.head) i
      rw [Node.at?, Node.at?]
      generalize hc : n.children[i]? = child at hrel ⊢
      generalize r.children[i]? = child' at hrel ⊢
      cases hrel with
      | none => exact .none
      | some hchild => exact ih hchild (hp.tail hc)

theorem at?_some (h : Substituted S old new n r) {p : Position} {m : Node}
    (hp : n.Clear old p) (hm : n.at? p = some m) :
    ∃ m', r.at? p = some m' ∧ Substituted S old new m m' := by
  have hrel := h.at? hp
  rw [hm] at hrel
  generalize r.at? p = m' at hrel ⊢
  cases hrel with
  | some hsub => exact ⟨_, rfl, hsub⟩

theorem at?_none (h : Substituted S old new n r) {p : Position} (hp : n.Clear old p)
    (hm : n.at? p = none) : r.at? p = none := by
  have hrel := h.at? hp
  rw [hm] at hrel
  generalize r.at? p = m' at hrel ⊢
  cases hrel with
  | none => rfl

/-- A tree without the old object, or with the old object for the new one, stays as it is. -/
theorem eq_self (hS : Objects S supply) (hold : old ∈ S) (hn : n ∈ S)
    (h : Substituted S old new n r) (hnone : n.Holds old → new = old) : r = n := by
  induction n using Node.children_induct generalizing r with
  | step n ih =>
      cases h with
      | here h =>
          rw [hnone (Node.holds_iff.mpr (.inl h)), hS.eq_of_same hn hold h]
      | kept _ _ => rfl
      | anew _ _ hrs hne _ =>
          refine absurd (eq_of_forall₂ hrs fun c hc d hcd => ?_) hne
          exact ih c hc (hS.child n hn c hc) hcd fun hc' =>
            hnone (Node.holds_iff.mpr (.inr ⟨c, hc, hc'⟩))

/-- A tree with the old object becomes another one. -/
theorem ne_self (hn : n ∈ S) (hS : ∀ n ∈ S, ∀ c ∈ n.children, c ∈ S)
    (h : Substituted S old new n r) (hholds : n.Holds old) (hne : new.same old = false) :
    r ≠ n := by
  rintro rfl
  induction r using Node.children_induct with
  | step n ih =>
      cases hs : n.same old with
      | true =>
          obtain rfl := h.eq_new hs
          simp [hs] at hne
      | false =>
          obtain ⟨c, hc, hholds⟩ := (Node.holds_iff.mp hholds).resolve_left (by simp [hs])
          exact ih c hc (hS n hn c hc) ((List.forall₂_same.mp (h.children hs)) c hc) hholds

/-- Above an occurrence of the old object stands a node that was not there before. -/
theorem not_mem (hn : n ∈ S) (hS : ∀ n ∈ S, ∀ c ∈ n.children, c ∈ S)
    (h : Substituted S old new n r) (hs : n.same old = false) (hholds : n.Holds old)
    (hne : new.same old = false) : r ∉ S := by
  have hself := h.ne_self hn hS hholds hne
  cases h with
  | here h => simp [hs] at h
  | kept _ _ => exact absurd rfl hself
  | anew _ _ _ _ hnew => exact hnew

/-- The tree reads what it read, with what the new object reads in the place of the old one. -/
theorem fullText_eq (h : Substituted S old new n r) :
    r.fullText = n.textWith old new.fullText := by
  induction n using Node.children_induct generalizing r with
  | step n ih =>
      cases hs : n.same old with
      | true => rw [h.eq_new hs, Node.textWith_same _ hs]
      | false =>
          have hmem := (List.forall₂_and_left _ _).mpr ⟨fun c hc => hc, h.children hs⟩
          have hall := Node.fullTextAll_eq_textWithAll (hmem.imp fun c d ⟨hc, hcd⟩ => ih c hc hcd)
          by_cases hinner : n.IsInner
          · rw [Node.fullText_inner (h.isInner hs hinner), hall, Node.textWith_inner _ hs hinner]
          · rw [h.eq_of_leaf hs hinner, Node.textWith_leaf _ hs hinner]

theorem replaced {S' : Set Node} {supply' : Supply}
    (h : Substituted S old new n r) (hS : Objects S supply) (hn : n ∈ S) (hold : old ∈ S)
    (hnew : new ∈ S) (hS' : Objects S' supply') (hsub : S ⊆ S') (hr : r ∈ S') :
    Replaced S n old new r where
  here p m q hp hm := by
    have hclear := Node.clear_of_holds hS hn hold hp (Node.holds_iff.mpr (.inl hm))
    obtain ⟨m', hr', hm'⟩ := h.at?_some hclear hp
    rw [Node.at?_append hr', hm'.eq_new hm]
  beside p m hp hclear hnone := by
    obtain ⟨m', hr', hm'⟩ := h.at?_some hclear hp
    rw [hr', hm'.eq_self hS hold (Node.mem_of_at? hS.child hn hp) fun hm => absurd hm hnone]
  above p m hp hholds hs := by
    have hm := Node.mem_of_at? hS.child hn hp
    obtain ⟨m', hr', hm'⟩ := h.at?_some (Node.clear_of_holds hS hn hold hp hholds) hp
    obtain ⟨hclass, hkind, hcount⟩ := hm'.shape hs
    exact ⟨m', hr', hclass, hkind, hcount, hm'.not_mem hm hS.child hs hholds⟩
  nowhere p hclear hp := h.at?_none hclear hp
  same_iff := by
    constructor
    · intro hsame
      obtain rfl := hS'.eq_of_same hr (hsub hn) hsame
      by_contra hnot
      rw [not_or, not_not, Bool.not_eq_true] at hnot
      exact h.ne_self hn hS.child hnot.1 hnot.2 rfl
    · intro hor
      have hself : r = n := h.eq_self hS hold hn fun hholds =>
        hS.eq_of_same hnew hold (hor.resolve_left fun hnone => hnone hholds)
      rw [hself]
      exact beq_self_eq_true _
  fullText := ⟨(Node.textWith_self hS hold hn).symm, h.fullText_eq⟩

end Substituted

namespace Pass

variable {S : Set Node} {supply : Supply} {root old new : Node}

/-- One call of the substitution: the old object is met as it is, since nothing below it was
replaced, and what was built anew is another object. -/
theorem substitution_substitutes (hS : Objects S supply) (hold : old ∈ S) (hnew : new ∈ S) :
    (substitution old new).Makes S (fun _ _ => Substituted S old new) fun _ => False where
  up _ _ h := h
  call {S₁ S₂ S₃ n m rs a s'} hsub hn hchain hm hmem hobjects := by
    have hrs := hchain.forall₂
    have hlater : ∀ x ∈ S, x ∈ S₂ := fun x hx => hchain.subset (hsub hx)
    show ∃ S₄, S₃ ⊆ S₄ ∧ Objects S₄ s' ∧ (if m.same old then new else m) ∈ S₄ ∧
      Substituted S old new n (if m.same old then new else m)
    cases hs : n.same old with
    | true =>
        obtain rfl := hS.eq_of_same hn hold hs
        have hkept : rs = n.children := eq_of_forall₂ hrs fun c hc r h =>
          h.eq_self hS hold (hS.child _ hn c hc) fun hc' =>
            absurd hc' (Node.not_holds_child hS hn hc)
        obtain rfl := hm.eq_of_children hkept
        rw [if_pos hs]
        exact ⟨S₃, subset_rfl, hobjects, hm.subset (hlater new hnew), .here hs⟩
    | false =>
        -- a node made anew is none of the objects from before, so it is not the old one
        have hother : ¬m.same old = true := by
          intro hs'
          obtain rfl := hobjects.eq_of_same hmem (hm.subset (hlater old hold)) hs'
          cases hm with
          | kept _ => simp [hs] at hs'
          | anew _ _ hnew => exact hnew (hlater _ hold)
        rw [if_neg hother]
        refine ⟨S₃, subset_rfl, hobjects, hmem, ?_⟩
        cases hm with
        | kept h =>
            subst h
            exact .kept hs (List.forall₂_same.mp hrs)
        | anew hinner hne hnew => exact .anew hs hinner hrs hne fun h => hnew (hlater _ h)

/-- **Substitution by reference.** Replacing one object by another one in a tree never fails. The
new object stands wherever the old one stood, and is not looked into; what does not hold the old
object is shared; above its occurrences stand new nodes of the same class and kind; the result is
the tree itself exactly when there was nothing to replace; and it reads as before, with the text of
the new object in the place of that of the old one. Without an old object nothing is replaced. -/
theorem replace_by_reference (hS : Objects S supply) (hroot : root ∈ S) (hold : old ∈ S)
    (hnew : new ∈ S) :
    (∃ r supply', replace root (some old) (some new) supply = .ok (r, supply') ∧
      Replaced S root old new r) ∧
    replace root none (some new) supply = .ok (root, supply) := by
  refine ⟨?_, ?_⟩
  · obtain ⟨S', hsub, hS', hmade⟩ :=
      withStats_makes (substitution_substitutes hS hold hnew) hS.child hS subset_rfl hroot
    unfold replace
    cases hresult : (withStats root (substitution old new) supply).result with
    | error e =>
        rw [hresult] at hmade
        exact hmade.elim
    | ok r =>
        rw [hresult] at hmade
        have hreplaced := hmade.2.replaced hS hroot hold hnew hS' hsub hmade.1
        refine ⟨r, (withStats root (substitution old new) supply).supply, ?_, hreplaced⟩
        simp only [hresult]
        rfl
  · -- with nothing to replace every call gives back its node
    have hidle : ∀ m ∈ root.postOrder, ∀ (a : Ancestors) (s : Supply),
        (fun n _ => pure (some n) : PureTransform) m a s = .ok (some m, s) :=
      fun _ _ _ _ => rfl
    obtain ⟨visited, hrun⟩ := withStats_fixed hidle supply
    unfold replace
    simp only [hrun]
    rfl

/-- A list in which one token stands twice, as an item and in a list of its own. -/
def sharedTree : Node := .list 3 [.token ⟨1, "name", [], [97], [], 1⟩, smallTree, .missing] 2

/-- The objects that are there with it. -/
def sharedObjects : Set Node := insert sharedTree smallObjects

theorem sharedObjects_objects : Objects sharedObjects 4 := by
  have htoken : (Node.token ⟨1, "name", [], [97], [], 1⟩).Sound fun _ => True := .token rfl
  refine smallObjects_objects.insert (n := sharedTree) rfl ?_ (.list ?_)
  · simp [sharedTree, Node.children, smallObjects]
  · have hsmall : smallTree.Sound fun _ => True :=
      smallObjects_objects.sound _ (Set.mem_insert _ _)
    simp [htoken, hsmall, Node.Sound.missing]

theorem substitution_run (old new n : Node) (a : Ancestors) (s : Supply) :
    (substitution old new).lift n a (s, ()) =
      (.ok (some (if n.same old then new else n)), s, ()) := rfl

theorem replace_sharedTree :
    replace sharedTree (some (.token ⟨1, "name", [], [97], [], 1⟩)) (some smallTree) 4 =
      .ok (.list 5 [smallTree, .list 4 [smallTree] 1, .missing] 2, 6) := by
  have hinner (st : PassState Unit) (h : st.supply = 4) :
      regrow smallTree (some [smallTree]) st = (.ok (.list 4 [smallTree] 1),
        ⟨5, { st.stats with rebuilt := st.stats.rebuilt + 1 }, st.memory⟩) :=
    regrow_run (by rw [h]; rfl)
  have houter (st : PassState Unit) (h : st.supply = 5) :
      regrow sharedTree (some [smallTree, .list 4 [smallTree] 1, .missing]) st =
        (.ok (.list 5 [smallTree, .list 4 [smallTree] 1, .missing] 2),
          ⟨6, { st.stats with rebuilt := st.stats.rebuilt + 1 }, st.memory⟩) :=
    regrow_run (by rw [h]; rfl)
  simp only [smallTree, sharedTree] at hinner houter
  simp [replace, withStats, whole, below_eq, run, eager, eagerAll, bind_run, apply_run,
    substitution_run, smallTree, sharedTree, Node.same, Node.id, answer, changes, hinner, houter]
  rfl

/-- A list with the token takes the place of the token, and is not looked into. -/
theorem replace_by_reference_sharedTree :
    (Objects sharedObjects 4 ∧ sharedTree ∈ sharedObjects ∧
      .token ⟨1, "name", [], [97], [], 1⟩ ∈ sharedObjects ∧ smallTree ∈ sharedObjects) ∧
    replace sharedTree (some (.token ⟨1, "name", [], [97], [], 1⟩)) (some smallTree) 4 =
      .ok (.list 5 [smallTree, .list 4 [smallTree] 1, .missing] 2, 6) ∧
    Replaced sharedObjects sharedTree (.token ⟨1, "name", [], [97], [], 1⟩) smallTree
      (.list 5 [smallTree, .list 4 [smallTree] 1, .missing] 2) := by
  have hroot : sharedTree ∈ sharedObjects := Set.mem_insert _ _
  have htoken : .token ⟨1, "name", [], [97], [], 1⟩ ∈ sharedObjects := .inr (.inr (.inl rfl))
  have hsmall : smallTree ∈ sharedObjects := .inr (.inl rfl)
  obtain ⟨r, supply', h, hr⟩ :=
    (replace_by_reference sharedObjects_objects hroot htoken hsmall).1
  obtain ⟨rfl, -⟩ := Prod.mk.inj (Except.ok.inj (h.symm.trans replace_sharedTree))
  exact ⟨⟨sharedObjects_objects, hroot, htoken, hsmall⟩, replace_sharedTree, hr⟩

end Pass

end Lossless
