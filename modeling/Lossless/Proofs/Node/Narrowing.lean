import Lossless.Proofs.Node.Updates
import Lossless.Proofs.Node.View

/-!
# Node — narrowing and its errors

A child is narrowed to the variants that its slot declares, and may be asked to be of a class as well.
An error tells the node that was found and the variants that were wanted.  As the empty set of variants
stands for every node, the variants of one class are never left empty (`VariantSet.ofClass_spec`), and
what was wanted never has the node that was found (`UnexpectedKind.Rejects`).

What the ways to a child give is said once for a slot that holds a child (`Composite.get_of_slot`,
`Composite.getOfClass_of_slot`).

**Narrowing** (`narrowing_sound`).  A child is reached exactly when its slot accepts it and it is of
the class that is asked for, and every error tells a node that is not among the wanted ones.
-/

namespace Lossless

/-! ### Wanted variants -/

namespace VariantSet

variable {vs : VariantSet} {cls : NodeClass} {kind : String}

theorem accepts_eq_false_iff :
    vs.accepts cls kind = false ↔ vs ≠ [] ∧ ∀ v ∈ vs, v.matches? cls kind = false := by
  simp only [accepts, Bool.or_eq_false_iff, List.isEmpty_eq_false_iff, List.any_eq_false,
    Bool.not_eq_true]

/-- The variants of a class are some, and all of that class. -/
theorem ofClass_spec (vs : VariantSet) (cls : NodeClass) :
    vs.ofClass cls ≠ [] ∧ ∀ v ∈ vs.ofClass cls, v.nodeClass = cls := by
  unfold ofClass
  split
  · -- there is none, and the one for any node of the class stands in
    exact ⟨List.cons_ne_nil _ _, fun v hv => by rw [List.mem_singleton.mp hv]⟩
  · next hne =>
      refine ⟨hne, fun v hv => ?_⟩
      exact of_decide_eq_true (List.mem_filter.mp hv).2

/-- The variants of a class have no node of another class. -/
theorem accepts_ofClass_of_ne (h : cls ≠ c) : (vs.ofClass c).accepts cls kind = false :=
  Bool.eq_false_iff.mpr fun haccepts => h (class_of_accepts (ofClass_spec vs c) haccepts)

end VariantSet

/-- The error tells the class and the kind of a node that is not among the wanted ones. These are some,
so that they do not stand for every node, and none of them is a variant of the node. -/
structure UnexpectedKind.Rejects (e : UnexpectedKind) (n : Node) : Prop where
  got : e.got = n.kind
  gotClass : e.gotClass = n.nodeClass
  refused : e.want.accepts e.gotClass e.got = false
  want_ne : e.want ≠ []
  unlisted : ∀ v ∈ e.want, v.matches? e.gotClass e.got = false

theorem UnexpectedKind.rejects_of_refused {e : UnexpectedKind} {n : Node} (hgot : e.got = n.kind)
    (hclass : e.gotClass = n.nodeClass) (h : e.want.accepts n.nodeClass n.kind = false) :
    e.Rejects n := by
  rw [← hgot, ← hclass] at h
  obtain ⟨hne, hunlisted⟩ := VariantSet.accepts_eq_false_iff.mp h
  exact ⟨hgot, hclass, h, hne, hunlisted⟩

/-! ### Narrowing a node -/

namespace Node

variable {n m : Node} {want : VariantSet} {e : NodeError}

theorem narrow_eq_ok_iff :
    n.narrow want = .ok m ↔ m = n ∧ want.accepts n.nodeClass n.kind = true := by
  unfold narrow
  split
  · next h => exact ⟨fun hm => by cases hm; exact ⟨rfl, h⟩, fun hm => by rw [hm.1]⟩
  · next h => exact ⟨nofun, fun hm => absurd hm.2 h⟩

theorem narrow_eq_error_iff :
    n.narrow want = .error e ↔ want.accepts n.nodeClass n.kind = false ∧
      e = .unexpected { want, got := n.kind, gotClass := n.nodeClass } := by
  unfold narrow
  split
  · next h => exact ⟨nofun, fun he => by rw [h] at he; cases he.1⟩
  · next h =>
      refine ⟨fun he => ?_, fun he => by rw [he.2]⟩
      cases he
      exact ⟨Bool.eq_false_iff.mpr h, rfl⟩

end Node

/-! ### The ways to a child -/

namespace Composite

variable {c : Composite} {slot : String} {sl : Slot} {i : Nat} {m : Node} {cls : NodeClass}
  {e : NodeError}

/-- The error about a child of a slot that is none of the wanted variants. -/
def unexpected (c : Composite) (slot : String) (want : VariantSet) (m : Node) : UnexpectedKind where
  parent := c.kind.name
  slot := slot
  want := want
  got := m.kind
  gotClass := m.nodeClass

theorem get_of_slot (hsl : c.kind.slot? slot = some (i, sl)) (hm : c.children[i]? = some m) :
    c.get slot = if sl.variants.accepts m.nodeClass m.kind then .ok m
      else .error (.unexpected (c.unexpected slot sl.variants m)) := by
  simp only [get, hsl, getD_eq_of_getElem? hm]
  rfl

theorem getOfClass_of_slot (hsl : c.kind.slot? slot = some (i, sl)) (hm : c.children[i]? = some m) :
    c.getOfClass cls slot = if sl.variants.accepts m.nodeClass m.kind then
        if m.nodeClass = cls then .ok m
        else .error (.unexpected (c.unexpected slot (VariantSet.ofClass sl.variants cls) m))
      else .error (.unexpected (c.unexpected slot sl.variants m)) := by
  rw [getOfClass, get_of_slot hsl hm]
  by_cases haccepts : sl.variants.accepts m.nodeClass m.kind = true
  · rw [if_pos haccepts, if_pos haccepts]
    simp only [hsl]
    rfl
  · rw [if_neg haccepts, if_neg haccepts]

theorem get_of_none (hsl : c.kind.slot? slot = none) :
    c.get slot = .error (.unknownSlot c.kind.name slot) := by
  simp only [get, hsl]

theorem getOfClass_of_none (hsl : c.kind.slot? slot = none) :
    c.getOfClass cls slot = .error (.unknownSlot c.kind.name slot) := by
  simp only [getOfClass, get_of_none hsl]

/-- To ask for a token fails as to ask for its class does. -/
theorem getToken_eq_error_iff :
    c.getToken slot = .error e ↔ c.getOfClass .token slot = .error e := by
  unfold getToken
  cases h : c.getOfClass .token slot with
  | error e' => simp only [Except.error.injEq]
  | ok m =>
      have hcls := (getOfClass_eq_ok_iff.mp h).2
      cases m with
      | token t => exact ⟨nofun, nofun⟩
      | _ => cases hcls

theorem getComposite_eq_error_iff :
    c.getComposite slot = .error e ↔ c.getOfClass .composite slot = .error e := by
  unfold getComposite
  cases h : c.getOfClass .composite slot with
  | error e' => simp only [Except.error.injEq]
  | ok m =>
      have hcls := (getOfClass_eq_ok_iff.mp h).2
      cases m with
      | composite id k cs w => exact ⟨nofun, nofun⟩
      | _ => cases hcls

/-- One of the ways to the child in a slot fails with an error. -/
inductive Fails (c : Composite) (slot : String) (e : NodeError) : Prop where
  | get (h : c.get slot = .error e)
  | ofClass {cls : NodeClass} (h : c.getOfClass cls slot = .error e)
  | token (h : c.getToken slot = .error e)
  | composite (h : c.getComposite slot = .error e)

theorem fails_iff :
    c.Fails slot e ↔ c.get slot = .error e ∨ ∃ cls, c.getOfClass cls slot = .error e := by
  constructor
  · rintro (h | h | h | h)
    · exact .inl h
    · exact .inr ⟨_, h⟩
    · exact .inr ⟨_, getToken_eq_error_iff.mp h⟩
    · exact .inr ⟨_, getComposite_eq_error_iff.mp h⟩
  · rintro (h | ⟨cls, h⟩)
    · exact .get h
    · exact .ofClass h

/-- There is no way to a child without a slot. -/
theorem fails_of_none (hsl : c.kind.slot? slot = none) :
    c.Fails slot e ↔ e = .unknownSlot c.kind.name slot := by
  rw [fails_iff]
  constructor
  · rintro (h | ⟨cls, h⟩)
    · rw [get_of_none hsl] at h
      exact (Except.error.inj h).symm
    · rw [getOfClass_of_none hsl] at h
      exact (Except.error.inj h).symm
  · rintro rfl
    exact .inl (get_of_none hsl)

/-- **Every failure** at a slot that holds a child is about that child, which is not wanted. -/
theorem rejects_of_fails (hsl : c.kind.slot? slot = some (i, sl)) (hm : c.children[i]? = some m)
    (h : c.Fails slot e) :
    ∃ u, e = .unexpected u ∧ u.parent = c.kind.name ∧ u.slot = slot ∧ u.Rejects m := by
  have hrejects {want : VariantSet} (hwant : want.accepts m.nodeClass m.kind = false) :
      (c.unexpected slot want m).Rejects m := UnexpectedKind.rejects_of_refused rfl rfl hwant
  rcases fails_iff.mp h with h | ⟨cls, h⟩
  · rw [get_of_slot hsl hm] at h
    split at h
    · cases h
    · next hrefused =>
        cases h
        exact ⟨_, rfl, rfl, rfl, hrejects (Bool.eq_false_iff.mpr hrefused)⟩
  · rw [getOfClass_of_slot hsl hm] at h
    split at h
    · split at h
      · cases h
      · next hcls =>
          -- the slot accepts the child, but its variants of another class do not
          cases h
          exact ⟨_, rfl, rfl, rfl, hrejects (VariantSet.accepts_ofClass_of_ne hcls)⟩
    · next hrefused =>
        cases h
        exact ⟨_, rfl, rfl, rfl, hrejects (Bool.eq_false_iff.mpr hrefused)⟩

theorem get_ok_of_slot {n : Node} (hsl : c.kind.slot? slot = some (i, sl))
    (hm : c.children[i]? = some m) :
    c.get slot = .ok n ↔ n = m ∧ sl.variants.accepts m.nodeClass m.kind = true := by
  rw [get_of_slot hsl hm]
  split
  · next h => exact ⟨fun hn => by cases hn; exact ⟨rfl, h⟩, fun hn => by rw [hn.1]⟩
  · next h => exact ⟨nofun, fun hn => absurd hn.2 h⟩

end Composite

/-! ### Narrowing -/

/-- Among nodes that are made one after another, in a composite of a kind of a compiled catalog: every
slot has a child, which is reached through the slot exactly when the variants of the slot accept it, and
with a class asked for, exactly when it is of that class as well; every way that fails tells the slot
and a child that is not among what was wanted, or that there is no such slot. A node is narrowed
exactly when the variants accept it, and otherwise the error tells that they do not. -/
theorem narrowing_sound {d : CatalogDocument} {catalog : Catalog} (hd : d.compile = .ok catalog)
    {S : Set Node} {s : Supply} (hS : Made S s) :
    (∀ c : Composite, c.toNode ∈ S → c.kind ∈ catalog.kinds →
      (∀ (i : Nat) (sl : Slot), c.kind.slotAt? i = some sl →
        ∃ child, c.toNode.child i = .ok child ∧ c.untyped sl.name = .ok child ∧
          (∀ m, c.get sl.name = .ok m ↔
            m = child ∧ sl.variants.accepts child.nodeClass child.kind = true) ∧
          (∀ cls m, c.getOfClass cls sl.name = .ok m ↔
            (m = child ∧ sl.variants.accepts child.nodeClass child.kind = true) ∧
              m.nodeClass = cls) ∧
          (∀ t, c.getToken sl.name = .ok t ↔
            .token t = child ∧ sl.variants.accepts child.nodeClass child.kind = true) ∧
          (∀ x, c.getComposite sl.name = .ok x ↔
            x.toNode = child ∧ sl.variants.accepts child.nodeClass child.kind = true) ∧
          ∀ e, c.Fails sl.name e →
            ∃ u, e = .unexpected u ∧ u.parent = c.kind.name ∧ u.slot = sl.name ∧ u.Rejects child) ∧
      ∀ slot, slot ∉ c.kind.slotNames →
        ∀ e, c.Fails slot e ↔ e = .unknownSlot c.kind.name slot) ∧
    ∀ (n : Node) (want : VariantSet),
      (∀ m, n.narrow want = .ok m ↔ m = n ∧ want.accepts n.nodeClass n.kind = true) ∧
      ∀ e, n.narrow want = .error e → ∃ u, e = .unexpected u ∧ u.want = want ∧ u.Rejects n := by
  obtain ⟨T, hsub, hT⟩ := hS.objects
  refine ⟨fun c hc hk => ⟨fun i sl hat => ?_, fun slot hslot e => ?_⟩, fun n want => ⟨fun m => ?_, ?_⟩⟩
  · -- the names of the slots are distinct, so a slot is found under its own name
    have hsl := ((CatalogDocument.compile_wellFormed hd).kinds _ hk).distinct.slot?_eq hat
    obtain ⟨child, hm⟩ := Node.Sound.exists_child (hT.sound _ (hsub hc)) hat
    have hget {m : Node} := Composite.get_ok_of_slot (n := m) hsl hm
    refine ⟨child, Node.child_eq_ok_iff.mpr ⟨Int.natCast_nonneg i, hm⟩, ?_, fun _ => hget,
      fun cls m => ?_, fun t => ?_, fun x => ?_, fun e => Composite.rejects_of_fails hsl hm⟩
    · exact Composite.untyped_of_position (Kind.position?_eq_some.mpr ⟨sl, hsl⟩) hm
    · rw [Composite.getOfClass_eq_ok_iff, hget]
    · rw [Composite.getToken_eq_ok_iff, hget]
    · rw [Composite.getComposite_eq_ok_iff, hget]
  · refine Composite.fails_of_none ?_
    cases hsl : c.kind.slot? slot with
    | none => rfl
    | some p =>
        obtain ⟨hat, rfl⟩ := Kind.slot?_eq_some hsl
        exact absurd (List.mem_map_of_mem (List.mem_of_getElem? hat)) hslot
  · exact Node.narrow_eq_ok_iff
  · intro e he
    obtain ⟨hrefused, rfl⟩ := Node.narrow_eq_error_iff.mp he
    exact ⟨_, rfl, rfl, UnexpectedKind.rejects_of_refused rfl rfl hrefused⟩

section Pairs

open Parse (pairDocument pairKind pairCatalog)

/-- A word in a slot is reached as a node and as a token, and is not among the wanted lists. -/
theorem narrowing_sound_twinPair :
    let c : Composite := ⟨4, pairKind, [blankWord 1, blankWord 2], 8⟩
    (pairDocument.compile = .ok pairCatalog ∧ Made pairNodes 5 ∧ c.toNode ∈ pairNodes) ∧
    c.get "left" = .ok (blankWord 1) ∧ c.getOfClass .token "left" = .ok (blankWord 1) ∧
    (∃ u, c.getOfClass .list "left" = .error (.unexpected u) ∧ u.Rejects (blankWord 1)) ∧
    ∀ e, c.Fails "middle" e ↔ e = .unknownSlot "pair" "middle" := by
  intro c
  have hc : pairDocument.compile = .ok pairCatalog := rfl
  have htwin : c.toNode ∈ pairNodes := .inl rfl
  obtain ⟨hslots, hnone⟩ := (narrowing_sound hc pairNodes_made).1 c htwin (.head _)
  obtain ⟨child, hchild, -, hget, hclass, -, -, hfails⟩ := hslots 0 _ rfl
  have hfirst : c.toNode.child (0 : Nat) = .ok (blankWord 1) := rfl
  obtain rfl : blankWord 1 = child := Except.ok.inj (hfirst.symm.trans hchild)
  have hlist : c.getOfClass .list "left" =
      .error (.unexpected (c.unexpected "left" (VariantSet.ofClass [] .list) (blankWord 1))) := rfl
  obtain ⟨u, hu, -, -, hrejects⟩ := hfails _ (.ofClass hlist)
  refine ⟨⟨hc, pairNodes_made, htwin⟩, (hget _).mpr ⟨rfl, rfl⟩, (hclass _ _).mpr ⟨⟨rfl, rfl⟩, rfl⟩,
    ⟨u, hu ▸ hlist, hrejects⟩, hnone "middle" (by decide)⟩

end Pairs

end Lossless
