import Lossless.Node.Make
import Lossless.Proofs.Catalog.Slots
import Lossless.Proofs.Node.Sound

/-!
# Node — what the operations give

For every operation on nodes the exact condition under which it gives a node, and which one: what
later proofs cite instead of unfolding it.  An operation that changes part of a node gives either
the node itself or a new object with the next number of the supply (`unlessSame_eq_ok_iff`).

`withSlot` and `withItem` move the width by the difference of two children, which gives the width of
all children because the one that goes is no wider than its parent (`totalWidth_set`).
-/

namespace Lossless

theorem nth?_eq_some_iff {α : Type} {xs : List α} {i : Int} {x : α} :
    nth? xs i = some x ↔ 0 ≤ i ∧ xs[i.toNat]? = some x := by
  unfold nth?
  split
  · next h => simp; omega
  · next h => simp; omega

/-! ### Absent children -/

theorem presentFrom_map_some (owner : String) (i : Nat) (ns : List Node) :
    presentFrom owner i (ns.map some) = .ok ns := by
  induction ns generalizing i with
  | nil => rfl
  | cons n ns ih =>
      rw [List.map_cons, presentFrom, ih (i + 1)]
      rfl

theorem presentFrom_eq_ok_iff {owner : String} {i : Nat} {items : List (Option Node)}
    {ns : List Node} : presentFrom owner i items = .ok ns ↔ items = ns.map some := by
  constructor
  · intro h
    induction items generalizing i ns with
    | nil => cases h; rfl
    | cons item items ih =>
        cases item with
        | none => cases h
        | some n =>
            rw [presentFrom] at h
            cases hr : presentFrom owner (i + 1) items with
            | error e => rw [hr] at h; cases h
            | ok rest => rw [hr] at h; cases h; rw [ih hr]; rfl
  · rintro rfl
    exact presentFrom_map_some owner i ns

/-- Children that are all there, and are object by object those of a node. -/
theorem sameChildren_eq_true {cs : List Node} {items : List (Option Node)}
    (h : sameChildren cs items = true) : ∃ ns : List Node, items = ns.map some := by
  induction cs generalizing items with
  | nil =>
      cases items with
      | nil => exact ⟨[], rfl⟩
      | cons item items => cases item <;> cases h
  | cons c cs ih =>
      cases items with
      | nil => cases h
      | cons item items =>
          cases item with
          | none => cases h
          | some n =>
              rw [sameChildren, Bool.and_eq_true] at h
              obtain ⟨ns, rfl⟩ := ih h.2
              exact ⟨n :: ns, rfl⟩

/-! ### New nodes -/

theorem NodeList.make_eq_ok_iff {items : List (Option Node)} {l : NodeList} {s s' : Supply} :
    NodeList.make items s = .ok (l, s') ↔
      ∃ ns, items = ns.map some ∧ l = ⟨s, ns, Node.totalWidth ns⟩ ∧ s' = s + 1 := by
  rw [NodeList.make, Make.bind_eq_ok]
  constructor
  · rintro ⟨ns, s₁, hp, h⟩
    obtain ⟨hns, rfl⟩ := Make.liftM_eq_ok.mp hp
    cases h
    exact ⟨ns, presentFrom_eq_ok_iff.mp hns, rfl, rfl⟩
  · rintro ⟨ns, rfl, rfl, rfl⟩
    exact ⟨ns, s, Make.liftM_eq_ok.mpr ⟨presentFrom_map_some _ _ ns, rfl⟩, rfl⟩

theorem Composite.ofNodes_eq_ok {k : Kind} {ns : List Node} (h : ns.length = k.arity)
    (s : Supply) : Composite.ofNodes k ns s = .ok (⟨s, k, ns, Node.totalWidth ns⟩, s + 1) := by
  rw [Composite.ofNodes, if_pos h]
  rfl

theorem Composite.make_eq_ok_iff {kind : Option Kind} {children : List (Option Node)}
    {c : Composite} {s s' : Supply} :
    Composite.make kind children s = .ok (c, s') ↔
      ∃ k ns, kind = some k ∧ children = ns.map some ∧ ns.length = k.arity ∧
        c = ⟨s, k, ns, Node.totalWidth ns⟩ ∧ s' = s + 1 := by
  constructor
  · intro h
    cases kind with
    | none => cases h
    | some k =>
        simp only [Composite.make] at h
        split at h
        · next hk =>
            obtain ⟨ns, s₁, hp, ho⟩ := Make.bind_eq_ok.mp h
            obtain ⟨hns, rfl⟩ := Make.liftM_eq_ok.mp hp
            obtain rfl := presentFrom_eq_ok_iff.mp hns
            -- the arity is checked before the children are found to be present
            rw [List.length_map] at hk
            rw [Composite.ofNodes_eq_ok hk] at ho
            cases ho
            exact ⟨k, ns, rfl, rfl, hk, rfl, rfl⟩
        · cases h
  · rintro ⟨k, ns, rfl, rfl, hk, rfl, rfl⟩
    simp only [Composite.make, List.length_map, hk, if_true]
    refine Make.bind_eq_ok.mpr ⟨ns, s, ?_, Composite.ofNodes_eq_ok hk s⟩
    exact Make.liftM_eq_ok.mpr ⟨presentFrom_map_some _ _ ns, rfl⟩

/-- Building anew: only of lists and composites, and of the latter with as many children as there
are slots. -/
theorem Node.rebuild_eq_ok_iff {n m : Node} {children : List (Option Node)} {s s' : Supply} :
    n.rebuild children s = .ok (m, s') ↔
      ∃ ns, children = ns.map some ∧ s' = s + 1 ∧
        ((∃ id items w, n = .list id items w ∧ m = .list s ns (totalWidth ns)) ∨
          ∃ id k cs w, n = .composite id k cs w ∧ ns.length = k.arity ∧
            m = .composite s k ns (totalWidth ns)) := by
  cases n with
  | missing | token t => exact ⟨nofun, fun ⟨_, _, _, h⟩ => by simp at h⟩
  | list id items w =>
      rw [Node.rebuild, Make.bind_eq_ok]
      constructor
      · rintro ⟨l, s₁, hl, h⟩
        obtain ⟨ns, rfl, rfl, rfl⟩ := NodeList.make_eq_ok_iff.mp hl
        cases h
        exact ⟨ns, rfl, rfl, .inl ⟨id, items, w, rfl, rfl⟩⟩
      · rintro ⟨ns, rfl, rfl, h⟩
        rcases h with ⟨_, _, _, _, rfl⟩ | ⟨_, _, _, _, h, _⟩
        · exact ⟨_, _, NodeList.make_eq_ok_iff.mpr ⟨ns, rfl, rfl, rfl⟩, rfl⟩
        · cases h
  | composite id k cs w =>
      rw [Node.rebuild, Make.bind_eq_ok]
      constructor
      · rintro ⟨c, s₁, hc, h⟩
        obtain ⟨k', ns, hk', rfl, hns, rfl, rfl⟩ := Composite.make_eq_ok_iff.mp hc
        cases hk'
        cases h
        exact ⟨ns, rfl, rfl, .inr ⟨id, k, cs, w, rfl, hns, rfl⟩⟩
      · rintro ⟨ns, rfl, rfl, h⟩
        rcases h with ⟨_, _, _, h, _⟩ | ⟨_, _, _, _, h, hns, rfl⟩
        · cases h
        · cases h
          exact ⟨_, _, Composite.make_eq_ok_iff.mpr ⟨k, ns, rfl, rfl, hns, rfl, rfl⟩, rfl⟩

namespace Node

/-- The object with the number `id` that is like `n`, with the children `cs`. Leaves stay. -/
def renewed (n : Node) (id : Nat) (cs : List Node) : Node :=
  match n with
  | .list _ _ _ => .list id cs (totalWidth cs)
  | .composite _ k _ _ => .composite id k cs (totalWidth cs)
  | n => n

/-- The nodes that are no leaves. -/
def IsInner : Node → Prop
  | .missing | .token _ => False
  | .list .. | .composite .. => True

section Renewed

variable {K : Kind → Prop} {n : Node} {id : Nat} {cs : List Node}

theorem renewed_id (h : n.IsInner) : (n.renewed id cs).id = id := by
  cases n with
  | missing | token _ => exact h.elim
  | list _ _ _ | composite _ _ _ _ => rfl

theorem renewed_children (h : n.IsInner) : (n.renewed id cs).children = cs := by
  cases n with
  | missing | token _ => exact h.elim
  | list _ _ _ | composite _ _ _ _ => rfl

theorem Sound.renewed (hn : n.Sound K) (hcs : ∀ c ∈ cs, c.Sound K)
    (hlen : cs.length = n.children.length) : (n.renewed id cs).Sound K := by
  cases hn with
  | missing => exact .missing
  | token hw => exact .token hw
  | list _ => exact .list hcs
  | composite hK hk _ => exact .composite hK (hlen.trans hk) hcs

/-- A sound inner node can be built anew from as many children as it has. -/
theorem Sound.rebuild_eq (hn : n.Sound K) (hinner : n.IsInner)
    (hlen : cs.length = n.children.length) (s : Supply) :
    n.rebuild (cs.map some) s = .ok (n.renewed s cs, s + 1) := by
  refine rebuild_eq_ok_iff.mpr ⟨cs, rfl, rfl, ?_⟩
  cases hn with
  | missing | token _ => exact hinner.elim
  | list _ => exact .inl ⟨_, _, _, rfl, rfl⟩
  | composite _ hk _ => exact .inr ⟨_, _, _, _, rfl, hlen.trans hk, rfl⟩

end Renewed

end Node

/-! ### Changed nodes -/

namespace Node

/-- Replacing one node moves the total width by the difference, and the node that goes is no wider
than all together. -/
theorem totalWidth_set {ns : List Node} {i : Nat} {m : Node} (n : Node) (h : ns[i]? = some m) :
    m.width ≤ totalWidth ns ∧ totalWidth ns - m.width + n.width = totalWidth (ns.set i n) := by
  induction ns generalizing i with
  | nil => cases h
  | cons a ns ih =>
      cases i with
      | zero =>
          cases h
          simp only [List.set_cons_zero, totalWidth_cons]
          omega
      | succ i =>
          obtain ⟨hle, hset⟩ := ih (i := i) h
          simp only [List.set_cons_succ, totalWidth_cons, ← hset]
          omega

end Node

/-- An operation that gives the node itself when a condition holds, and otherwise what another one
gives. -/
theorem unlessSame_eq_ok_iff {ε α : Type} {b : Prop} [Decidable b] {a : α} {m : Make ε α}
    {s : Supply} {r : α × Supply} :
    (if b then pure a else m) s = .ok r ↔ b ∧ r = (a, s) ∨ ¬b ∧ m s = .ok r := by
  split
  · next hb =>
      exact ⟨fun h => by cases h; exact .inl ⟨hb, rfl⟩,
        fun h => h.elim (fun ⟨_, hr⟩ => by rw [hr]; rfl) fun ⟨hn, _⟩ => absurd hb hn⟩
  · next hb =>
      exact ⟨fun h => .inr ⟨hb, h⟩, fun h => h.elim (fun ⟨h, _⟩ => absurd h hb) (·.2)⟩

theorem NodeList.withItem_eq_ok_iff {l l' : NodeList} {i : Int} {item : Option Node}
    {s s' : Supply} :
    l.withItem i item s = .ok (l', s') ↔
      ∃ current n, nth? l.items i = some current ∧ item = some n ∧
        (current.same n = true ∧ (l', s') = (l, s) ∨
          ¬current.same n = true ∧ (l', s') =
            (⟨s, l.items.set i.toNat n, l.width - current.width + n.width⟩, s + 1)) := by
  cases hi : nth? l.items i with
  | none => simp only [withItem, hi]; exact ⟨nofun, nofun⟩
  | some current =>
      cases item with
      | none => simp only [withItem, hi]; exact ⟨nofun, nofun⟩
      | some n =>
          simp only [withItem, hi, unlessSame_eq_ok_iff]
          constructor
          · rintro (h | ⟨hn, h⟩)
            · exact ⟨current, n, rfl, rfl, .inl h⟩
            · cases h
              exact ⟨current, n, rfl, rfl, .inr ⟨hn, rfl⟩⟩
          · rintro ⟨_, _, hcurrent, hitem, h⟩
            cases hcurrent
            cases hitem
            rcases h with h | ⟨hn, h⟩
            · exact .inl h
            · cases h
              exact .inr ⟨hn, rfl⟩

theorem Composite.withSlot_eq_ok_iff {c c' : Composite} {slot : String} {child : Option Node}
    {s s' : Supply} :
    c.withSlot slot child s = .ok (c', s') ↔
      ∃ i sl n, c.kind.slot? slot = some (i, sl) ∧ child = some n ∧
        ((c.children.getD i .missing).same n = true ∧ (c', s') = (c, s) ∨
          ¬(c.children.getD i .missing).same n = true ∧ (c', s') =
            (⟨s, c.kind, c.children.set i n,
              c.width - (c.children.getD i .missing).width + n.width⟩, s + 1)) := by
  cases hi : c.kind.slot? slot with
  | none => simp only [withSlot, hi]; exact ⟨nofun, nofun⟩
  | some p =>
      obtain ⟨i, sl⟩ := p
      cases child with
      | none => simp only [withSlot, hi]; exact ⟨nofun, nofun⟩
      | some n =>
          simp only [withSlot, hi, unlessSame_eq_ok_iff]
          constructor
          · rintro (h | ⟨hn, h⟩)
            · exact ⟨i, sl, n, rfl, rfl, .inl h⟩
            · cases h
              exact ⟨i, sl, n, rfl, rfl, .inr ⟨hn, rfl⟩⟩
          · rintro ⟨_, _, _, hslot, hchild, h⟩
            cases hslot
            cases hchild
            rcases h with h | ⟨hn, h⟩
            · exact .inl h
            · cases h
              exact .inr ⟨hn, rfl⟩

end Lossless
