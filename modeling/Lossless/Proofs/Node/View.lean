import Lossless.Node.Access
import Lossless.Proofs.Node.Operations
import Lossless.Proofs.Node.Positions

/-!
# Node — what can be seen of a node

What a rule decides about a composite hangs on its kind and on little of its children: their classes,
their kinds, and the texts of tokens.  A node shows this much of itself to its parent, its *face*; a
composite with the faces of its children is a *view*.  Slots are looked up in a view as they are in
the composite (`has_eq_view`, `get_eq_ok_iff`).

The views of all composites of a tree, children before parents, tell where rules apply in it
(`Node.views`); its tokens from left to right, the *frontier*, are its text (`fullText_eq`).
-/

namespace Lossless

/-- What a node shows to its parent: its class, its kind, and the text of a token. -/
structure Face where
  nodeClass : NodeClass
  kind : String
  text : Option Text
  deriving DecidableEq, Repr

/-- A composite as far as it can be seen without looking into its children. -/
structure View where
  kind : Kind
  faces : List Face
  deriving DecidableEq, Repr

namespace Node

/-- The face of a node. -/
def face (n : Node) : Face := ⟨n.nodeClass, n.kind, n.token?.map (·.text)⟩

theorem eq_missing_of_face {n : Node} (h : n.face = missing.face) : n = .missing := by
  cases n with
  | missing => rfl
  | token _ | list _ _ _ | composite _ _ _ _ => cases congrArg Face.nodeClass h

/-- The view of a composite. -/
def view? : Node → Option View
  | .composite _ k cs _ => some ⟨k, cs.map face⟩
  | _ => none

/-- The views of the composites of a tree, children before parents. -/
def views (n : Node) : List View := n.postOrder.filterMap view?

@[inherit_doc views]
def viewsAll (ns : List Node) : List View := (postOrderAll ns).filterMap view?

/-- The tokens of a tree from left to right. -/
def frontier (n : Node) : List Token := n.postOrder.filterMap token?

@[inherit_doc frontier]
def frontierAll (ns : List Node) : List Token := (postOrderAll ns).filterMap token?

/-! ### Trees -/

@[simp] theorem viewsAll_nil : viewsAll [] = [] := rfl

@[simp] theorem viewsAll_cons (n : Node) (ns : List Node) :
    viewsAll (n :: ns) = n.views ++ viewsAll ns := by
  simp [viewsAll, views, postOrderAll]

theorem views_eq (n : Node) : n.views = viewsAll n.children ++ n.view?.toList := by
  rw [views, postOrder_eq, List.filterMap_append]
  cases h : n.view? <;> simp [viewsAll, h]

theorem mem_views_of_children {n : Node} {v : View} (hv : v ∈ viewsAll n.children) :
    v ∈ n.views := by
  rw [views_eq]
  exact List.mem_append_left _ hv

@[simp] theorem views_list (id : Nat) (items : List Node) (w : Nat) :
    (Node.list id items w).views = viewsAll items := by
  simp [views_eq, view?, children]

@[simp] theorem views_composite (id : Nat) (k : Kind) (cs : List Node) (w : Nat) :
    (Node.composite id k cs w).views = viewsAll cs ++ [⟨k, cs.map face⟩] := views_eq _

@[simp] theorem frontierAll_nil : frontierAll [] = [] := rfl

@[simp] theorem frontierAll_cons (n : Node) (ns : List Node) :
    frontierAll (n :: ns) = n.frontier ++ frontierAll ns := by
  simp [frontierAll, frontier, postOrderAll]

theorem frontier_eq (n : Node) : n.frontier = frontierAll n.children ++ n.token?.toList := by
  rw [frontier, postOrder_eq, List.filterMap_append]
  cases h : n.token? <;> simp [frontierAll, h]

@[simp] theorem frontier_missing : frontier .missing = [] := rfl

@[simp] theorem frontier_token (t : Token) : frontier (.token t) = [t] := rfl

theorem IsInner.token? {n : Node} (h : n.IsInner) : n.token? = none := by
  cases n with
  | missing | token _ => exact h.elim
  | list _ _ _ | composite _ _ _ _ => rfl

theorem frontier_inner {n : Node} (h : n.IsInner) : n.frontier = frontierAll n.children := by
  rw [frontier_eq, h.token?, Option.toList_none, List.append_nil]

@[simp] theorem frontier_list (id : Nat) (items : List Node) (w : Nat) :
    (Node.list id items w).frontier = frontierAll items := frontier_inner trivial

@[simp] theorem frontier_composite (id : Nat) (k : Kind) (cs : List Node) (w : Nat) :
    (Node.composite id k cs w).frontier = frontierAll cs := frontier_inner trivial

theorem fullText_inner {n : Node} (h : n.IsInner) : n.fullText = fullTextAll n.children := by
  cases n with
  | missing | token _ => exact h.elim
  | list _ _ _ | composite _ _ _ _ => rw [fullText, children]

/-- The full text of a tree is that of its tokens. -/
theorem fullText_eq (n : Node) : n.fullText = n.frontier.flatMap Token.fullText := by
  have hall : ∀ ns : List Node, (∀ n ∈ ns, n.fullText = n.frontier.flatMap Token.fullText) →
      fullTextAll ns = (frontierAll ns).flatMap Token.fullText := by
    intro ns h
    induction ns with
    | nil => rfl
    | cons n ns ih =>
        rw [fullTextAll, h n (.head _), ih fun m hm => h m (.tail _ hm), frontierAll_cons,
          List.flatMap_append]
  induction n using induct with
  | missing => rfl
  | token t => simp [fullText]
  | list _ items _ ih | composite _ _ items _ ih =>
      simp [fullText, hall items ih]

/-- The leftmost token is the first one of the frontier. -/
theorem firstToken_eq (n : Node) : n.firstToken = n.frontier.head? := by
  have hall : ∀ ns : List Node, (∀ n ∈ ns, n.firstToken = n.frontier.head?) →
      firstTokenAll ns = (frontierAll ns).head? := by
    intro ns h
    induction ns with
    | nil => rfl
    | cons n ns ih =>
        rw [firstTokenAll, h n (.head _), ih fun m hm => h m (.tail _ hm), frontierAll_cons,
          List.head?_append]
        cases n.frontier.head? <;> rfl
  induction n using induct with
  | missing | token _ => rfl
  | list _ items _ ih | composite _ _ items _ ih =>
      simp [firstToken, hall items ih]

/-- A tree with all its parts. -/
theorem mem_postOrder_iff {n m : Node} :
    m ∈ n.postOrder ↔ m = n ∨ ∃ c ∈ n.children, m ∈ c.postOrder := by
  have hall : ∀ cs : List Node, m ∈ postOrderAll cs ↔ ∃ c ∈ cs, m ∈ c.postOrder := by
    intro cs
    induction cs with
    | nil => simp [postOrderAll]
    | cons c cs ih => simp [postOrderAll, ih]
  rw [postOrder_eq, List.mem_append, hall, List.mem_singleton, or_comm]

theorem mem_postOrder_self (n : Node) : n ∈ n.postOrder := mem_postOrder_iff.mpr (.inl rfl)

theorem children_mem_postOrder {n m c : Node} (hm : m ∈ n.postOrder) (hc : c ∈ m.children) :
    c ∈ n.postOrder := by
  induction n using induct with
  | missing | token _ =>
      obtain rfl : m = _ := List.mem_singleton.mp hm
      cases hc
  | list _ _ _ ih | composite _ _ _ _ ih =>
      refine mem_postOrder_iff.mpr ?_
      rcases mem_postOrder_iff.mp hm with rfl | ⟨d, hd, hm⟩
      · exact .inr ⟨c, hc, mem_postOrder_self c⟩
      · exact .inr ⟨d, hd, ih d hd hm⟩

/-- The nodes of a part stand together among those of the tree. -/
theorem postOrder_sublist {n m : Node} (hm : m ∈ n.postOrder) : m.postOrder.Sublist n.postOrder := by
  -- the order of a child is one segment of the order of its siblings
  have hall : ∀ {cs : List Node} {c : Node}, c ∈ cs → c.postOrder.Sublist (postOrderAll cs) := by
    intro cs c hc
    induction hc with
    | head cs => exact List.sublist_append_left _ _
    | tail d _ ih => exact ih.trans (List.sublist_append_right _ _)
  have hchild : ∀ {n c : Node}, c ∈ n.children → c.postOrder.Sublist n.postOrder := by
    intro n c hc
    rw [postOrder_eq n]
    exact (hall hc).trans (List.sublist_append_left _ _)
  induction n using induct with
  | missing | token _ =>
      obtain rfl : m = _ := List.mem_singleton.mp hm
      exact .refl _
  | list _ _ _ ih | composite _ _ _ _ ih =>
      rcases mem_postOrder_iff.mp hm with rfl | ⟨c, hc, hm⟩
      · exact .refl _
      · exact (ih c hc hm).trans (hchild hc)

/-- The parts of a tree are in every set that has it, and with each node its children. -/
theorem mem_of_mem_postOrder {S : Set Node} (hS : ∀ n ∈ S, ∀ c ∈ n.children, c ∈ S) {n m : Node}
    (hn : n ∈ S) (hm : m ∈ n.postOrder) : m ∈ S := by
  induction n using induct with
  | missing | token _ =>
      obtain rfl : m = _ := List.mem_singleton.mp hm
      exact hn
  | list _ _ _ ih | composite _ _ _ _ ih =>
      rcases mem_postOrder_iff.mp hm with rfl | ⟨c, hc, hm⟩
      · exact hn
      · exact ih c hc (hS _ hn c hc) hm

theorem token_mem_of_mem_frontier {S : Set Node} (hS : ∀ n ∈ S, ∀ c ∈ n.children, c ∈ S)
    {n : Node} (hn : n ∈ S) {t : Token} (ht : t ∈ n.frontier) : .token t ∈ S := by
  obtain ⟨m, hm, hmt⟩ := List.mem_filterMap.mp ht
  cases m with
  | token u =>
      cases hmt
      exact mem_of_mem_postOrder hS hn hm
  | _ => cases hmt

/-- The views of a sound tree are of kinds that are in use and have a face for every slot. -/
theorem Sound.of_mem_views {K : Kind → Prop} {n : Node} (h : n.Sound K) :
    ∀ v ∈ n.views, K v.kind ∧ v.faces.length = v.kind.arity := by
  -- one step for lists and composites: the views of the children, one child after the other
  have hall : ∀ cs : List Node,
      (∀ c ∈ cs, ∀ v ∈ c.views, K v.kind ∧ v.faces.length = v.kind.arity) →
      ∀ v ∈ viewsAll cs, K v.kind ∧ v.faces.length = v.kind.arity := by
    intro cs hcs v hv
    induction cs with
    | nil => cases hv
    | cons c cs ih =>
        rw [viewsAll_cons] at hv
        rcases List.mem_append.mp hv with hv | hv
        · exact hcs c (.head _) v hv
        · exact ih (fun c' hc' => hcs c' (.tail _ hc')) hv
  induction h with
  | missing | token _ => exact nofun
  | list _ ih =>
      rw [views_list]
      exact hall _ ih
  | composite hK hk _ ih =>
      intro v hv
      rw [views_composite] at hv
      rcases List.mem_append.mp hv with hv | hv
      · exact hall _ ih v hv
      · obtain rfl := List.mem_singleton.mp hv
        exact ⟨hK, by rw [List.length_map]; exact hk⟩

/-! ### Nodes built anew -/

theorem face_renewed (n : Node) (id : Nat) (rs : List Node) : (n.renewed id rs).face = n.face := by
  cases n <;> rfl

/-- A node built anew from children with the same faces looks the same. -/
theorem view?_renewed {n : Node} {rs : List Node} (id : Nat)
    (h : rs.map face = n.children.map face) : (n.renewed id rs).view? = n.view? := by
  cases n with
  | missing | token _ | list _ _ _ => rfl
  | composite _ k cs _ =>
      show some (View.mk k (rs.map face)) = some ⟨k, cs.map face⟩
      rw [h]
      rfl

end Node

/-! ### Slots of a view -/

namespace VariantSet

variable {vs : VariantSet} {cls : NodeClass} {kind : String}

/-- What is accepted is of a variant of the set, unless the set stands for every node. -/
theorem exists_of_accepts (hvs : vs ≠ []) (h : vs.accepts cls kind = true) :
    ∃ v ∈ vs, v.matches? cls kind = true := by
  rw [accepts, Bool.or_eq_true, List.isEmpty_iff, List.any_eq_true] at h
  exact h.resolve_left hvs

/-- Variants of one class stand for nodes of that class. -/
theorem class_of_accepts {c : NodeClass} (hvs : vs ≠ [] ∧ ∀ v ∈ vs, v.nodeClass = c)
    (h : vs.accepts cls kind = true) : cls = c := by
  obtain ⟨v, hv, hmatches⟩ := exists_of_accepts hvs.1 h
  rw [Variant.matches?, Bool.and_eq_true, beq_iff_eq] at hmatches
  rw [← hmatches.1, hvs.2 v hv]

end VariantSet

namespace View

/-- The face of the child in a slot. -/
def face (v : View) (slot : String) : Face :=
  match v.kind.slot? slot with
  | none => Node.missing.face
  | some (i, _) => v.faces.getD i Node.missing.face

/-- Whether a slot holds something. -/
def has (v : View) (slot : String) : Bool :=
  match v.kind.slot? slot with
  | none => false
  | some _ => decide ((v.face slot).nodeClass ≠ .missing)

/-- Whether a slot holds a child of a variant that it declares. -/
def accepts (v : View) (slot : String) : Bool :=
  match v.kind.slot? slot with
  | none => false
  | some (_, s) => s.variants.accepts (v.face slot).nodeClass (v.face slot).kind

/-- The view with another child in a slot. -/
def put (v : View) (slot : String) (f : Face) : View :=
  match v.kind.slot? slot with
  | none => v
  | some (i, _) => { v with faces := v.faces.set i f }

/-- Every child is of a variant that its slot declares. -/
def Fits (v : View) : Prop :=
  ∀ p ∈ v.kind.slots.zip v.faces, p.1.variants.accepts p.2.nodeClass p.2.kind = true

@[simp] theorem put_kind (v : View) (slot : String) (f : Face) : (v.put slot f).kind = v.kind := by
  unfold put
  split <;> rfl

@[simp] theorem length_put (v : View) (slot : String) (f : Face) :
    (v.put slot f).faces.length = v.faces.length := by
  unfold put
  split
  · rfl
  · simp

variable {v : View} {slot : String} {i : Nat} {s : Slot}

/-- What is put into a slot stands there. -/
theorem face_put (hlen : v.faces.length = v.kind.arity) (hs : v.kind.slot? slot = some (i, s))
    (f : Face) : (v.put slot f).face slot = f := by
  have hi : i < v.faces.length := hlen ▸ Kind.slot?_lt hs
  rw [face, put_kind, hs]
  simp [put, hs, hi]

theorem Fits.accepts (h : v.Fits) (hlen : v.faces.length = v.kind.arity)
    (hs : v.kind.slot? slot = some (i, s)) : v.accepts slot = true := by
  have hi : i < v.faces.length := hlen ▸ Kind.slot?_lt hs
  have hslot := (Kind.slot?_eq_some hs).1
  have hmem : (s, v.faces[i]) ∈ v.kind.slots.zip v.faces := by
    refine List.mem_of_getElem? (i := i) ?_
    rw [List.getElem?_zip_eq_some]
    exact ⟨hslot, List.getElem?_eq_getElem hi⟩
  have hface : v.face slot = v.faces[i] := by
    simp [View.face, hs, List.getD_eq_getElem?_getD, List.getElem?_eq_getElem hi]
  simp only [View.accepts, hs, hface]
  exact h _ hmem

/-- A slot is filled with a child of a variant that it declares. -/
theorem Fits.put (h : v.Fits) (hs : v.kind.slot? slot = some (i, s)) {f : Face}
    (hf : s.variants.accepts f.nodeClass f.kind = true) : (v.put slot f).Fits := by
  intro p hp
  simp only [View.put, hs] at hp
  obtain ⟨j, hj⟩ := List.mem_iff_getElem?.mp hp
  obtain ⟨hslot, hface⟩ := List.getElem?_zip_eq_some.mp hj
  by_cases hij : i = j
  · subst hij
    obtain rfl : p.1 = s := Option.some.inj (hslot.symm.trans (Kind.slot?_eq_some hs).1)
    have hfilled : f = p.2 := by
      have hi : i < v.faces.length := by
        simpa using (List.getElem?_eq_some_iff.mp hface).1
      rwa [List.getElem?_set_self hi, Option.some.injEq] at hface
    rwa [← hfilled]
  · rw [List.getElem?_set_ne hij] at hface
    exact h p (List.mem_of_getElem? (List.getElem?_zip_eq_some.mpr ⟨hslot, hface⟩))

end View

/-! ### Slots of a composite -/

namespace Composite

variable {c : Composite} {slot : String}

/-- The view of a composite. -/
def view (c : Composite) : View := ⟨c.kind, c.children.map Node.face⟩

theorem view_mem_views (c : Composite) : c.view ∈ c.toNode.views := by
  rw [toNode, Node.views_composite]
  exact List.mem_append_right _ (.head _)

/-- The face of a child is that of the child that a slot holds. -/
theorem face_view {m : Node} (h : c.untyped slot = .ok m) : c.view.face slot = m.face := by
  unfold untyped at h
  split at h
  · cases h
  · next i s hs =>
      cases h
      simp only [View.face, view, hs, List.getD_eq_getElem?_getD, List.getElem?_map]
      cases c.children[i]? <;> rfl

theorem untyped_of_slot {i : Nat} {s : Slot} (hs : c.kind.slot? slot = some (i, s)) :
    c.untyped slot = .ok (c.children.getD i .missing) := by
  simp only [untyped, hs]

theorem has_eq_view (c : Composite) (slot : String) : c.has slot = c.view.has slot := by
  unfold has View.has
  show (match c.kind.slot? slot with | none => _ | some (i, _) => _) =
    match c.kind.slot? slot with | none => _ | some _ => _
  cases hs : c.kind.slot? slot with
  | none => rfl
  | some p =>
      dsimp only
      rw [face_view (untyped_of_slot hs)]
      cases c.children.getD p.1 .missing <;> rfl

/-- A child is reached through its slot when the view accepts it. -/
theorem get_eq_ok_iff {m : Node} :
    c.get slot = .ok m ↔ c.view.accepts slot = true ∧ c.untyped slot = .ok m := by
  unfold get View.accepts
  show (match c.kind.slot? slot with | none => _ | some (i, s) => _) = _ ↔
    (match c.kind.slot? slot with | none => _ | some (_, s) => _) = true ∧ _
  cases hs : c.kind.slot? slot with
  | none => exact ⟨nofun, fun h => nomatch h.1⟩
  | some p =>
      dsimp only
      rw [untyped_of_slot hs, face_view (untyped_of_slot hs)]
      show (if p.2.variants.accepts (c.children.getD p.1 .missing).nodeClass
        (c.children.getD p.1 .missing).kind = true then _ else _) = _ ↔ _
      split
      · next ha => exact ⟨fun h => ⟨ha, h⟩, fun h => h.2⟩
      · next ha => exact ⟨nofun, fun h => absurd h.1 ha⟩

/-- What a view accepts is reached. -/
theorem get_of_accepts (h : c.view.accepts slot = true) :
    ∃ m, c.untyped slot = .ok m ∧ c.get slot = .ok m := by
  cases hs : c.kind.slot? slot with
  | none =>
      have hnone : c.view.accepts slot = false := by simp only [View.accepts, view, hs]
      cases hnone.symm.trans h
  | some p =>
      refine ⟨_, untyped_of_slot hs, ?_⟩
      rw [get_eq_ok_iff]
      exact ⟨h, untyped_of_slot hs⟩

theorem getOfClass_eq_ok_iff {cls : NodeClass} {m : Node} :
    c.getOfClass cls slot = .ok m ↔ c.get slot = .ok m ∧ m.nodeClass = cls := by
  unfold getOfClass
  cases c.get slot with
  | error e => exact ⟨nofun, fun h => nomatch h.1⟩
  | ok child =>
      dsimp only
      split
      · next hcls => exact ⟨fun h => by cases h; exact ⟨rfl, hcls⟩, fun h => by rw [h.1]⟩
      · next hcls => exact ⟨nofun, fun h => by cases h.1; exact absurd h.2 hcls⟩

theorem getToken_eq_ok_iff {t : Token} :
    c.getToken slot = .ok t ↔ c.get slot = .ok (.token t) := by
  unfold getToken
  cases h : c.getOfClass .token slot with
  | error e =>
      refine ⟨nofun, fun hg => ?_⟩
      have hclass : c.getOfClass .token slot = .ok (.token t) := by
        rw [getOfClass_eq_ok_iff]
        exact ⟨hg, rfl⟩
      cases h.symm.trans hclass
  | ok m =>
      rw [getOfClass_eq_ok_iff] at h
      obtain ⟨hg, hcls⟩ := h
      rw [hg]
      cases m with
      | token u => exact ⟨fun h => by cases h; rfl, fun h => by cases h; rfl⟩
      | _ => cases hcls

theorem getComposite_eq_ok_iff {d : Composite} :
    c.getComposite slot = .ok d ↔ c.get slot = .ok d.toNode := by
  unfold getComposite
  cases h : c.getOfClass .composite slot with
  | error e =>
      refine ⟨nofun, fun hg => ?_⟩
      have hclass : c.getOfClass .composite slot = .ok d.toNode := by
        rw [getOfClass_eq_ok_iff]
        exact ⟨hg, rfl⟩
      cases h.symm.trans hclass
  | ok m =>
      rw [getOfClass_eq_ok_iff] at h
      obtain ⟨hg, hcls⟩ := h
      rw [hg]
      cases m with
      | composite id k cs w => exact ⟨fun h => by cases h; rfl, fun h => by cases h; rfl⟩
      | _ => cases hcls

/-- A child of a class is reached through a slot exactly when the view accepts what is there, and that
is of the class. -/
theorem exists_getOfClass_iff {cls : NodeClass} :
    (∃ m, c.getOfClass cls slot = .ok m) ↔
      c.view.accepts slot = true ∧ (c.view.face slot).nodeClass = cls := by
  simp only [getOfClass_eq_ok_iff]
  constructor
  · rintro ⟨m, hget, rfl⟩
    rw [get_eq_ok_iff] at hget
    exact ⟨hget.1, congrArg Face.nodeClass (face_view hget.2)⟩
  · rintro ⟨haccepts, hcls⟩
    obtain ⟨m, hm, hget⟩ := get_of_accepts haccepts
    rw [face_view hm] at hcls
    exact ⟨m, hget, hcls⟩

theorem exists_getToken_iff :
    (∃ t, c.getToken slot = .ok t) ↔
      c.view.accepts slot = true ∧ (c.view.face slot).nodeClass = .token := by
  rw [← exists_getOfClass_iff]
  simp only [getToken_eq_ok_iff, getOfClass_eq_ok_iff]
  constructor
  · rintro ⟨t, hget⟩
    exact ⟨.token t, hget, rfl⟩
  · rintro ⟨m, hget, hcls⟩
    cases m with
    | token t => exact ⟨t, hget⟩
    | _ => cases hcls

theorem exists_getComposite_iff :
    (∃ d, c.getComposite slot = .ok d) ↔
      c.view.accepts slot = true ∧ (c.view.face slot).nodeClass = .composite := by
  rw [← exists_getOfClass_iff]
  simp only [getComposite_eq_ok_iff, getOfClass_eq_ok_iff]
  constructor
  · rintro ⟨d, hget⟩
    exact ⟨d.toNode, hget, rfl⟩
  · rintro ⟨m, hget, hcls⟩
    cases m with
    | composite id k cs w => exact ⟨⟨id, k, cs, w⟩, hget⟩
    | _ => cases hcls

end Composite

end Lossless
