import Lossless.Proofs.Catalog.Compilation
import Lossless.Proofs.Lists
import Lossless.Proofs.Node.Equality

/-!
# Node — reading and writing one child

A composite is read and written at the names of its slots, a list at its positions.  Either way a place
leads to a position among the children, different places lead to different positions, and writing gives
the node itself when the child stands there already, or an object that is like it with the child at the
position and the others where they were (`Places`).

From this alone follow the laws of reading and writing (`Update.Lawful`): what is written is read,
writing what is read gives the node itself and nothing else does, other places keep their children, the
last of two writes at one place counts, and writes at different places may be exchanged
(`Places.lawful`).  The width is moved by differences, and is the same in every order because it is
that of the children.

**Updates** (`updates_lawful`).  The laws hold for slots of composites and for positions of lists.
-/

namespace Lossless

/-! ### The laws -/

namespace Update

variable {α ι ε : Type} (node : α → Node) (read : α → ι → Except ε Node)
  (write : α → ι → Option Node → Make NodeError α)

/-- A write at one place, and then one at another. -/
def twice (a : α) (i : ι) (x : Node) (j : ι) (y : Node) : Make NodeError α := do
  write (← write a i (some x)) j (some y)

/-- The laws of reading and writing one child of `a`, when the objects `S` are there. -/
structure Lawful (S : Set Node) (s : Supply) (place : ι → Prop) (a : α) : Prop where
  reads : ∀ i, place i → ∃ m, read a i = .ok m
  fails_iff : ∀ i child, (∃ e, write a i child s = .error e) ↔ ¬place i ∨ child = none
  write_read : ∀ i m, read a i = .ok m → write a i (some m) s = .ok (a, s)
  receiver_iff : ∀ i, ∀ x ∈ S, ∀ b s', write a i (some x) s = .ok (b, s') →
    ((node b).same (node a) = true ↔ read a i = .ok x)
  read_write : ∀ i, ∀ x ∈ S, ∀ b s', write a i (some x) s = .ok (b, s') → read b i = .ok x
  read_other : ∀ i j, i ≠ j → ∀ x ∈ S, ∀ b s', write a i (some x) s = .ok (b, s') →
    read b j = read a j
  last_counts : ∀ i, place i → ∀ x ∈ S, ∀ y ∈ S, ∃ b c s',
    (do return (← twice write a i x i y, ← write a i (some y)) : Make NodeError (α × α)) s =
      .ok ((b, c), s') ∧ (node b).equal (node c) = true
  exchange : ∀ i j, place i → place j → i ≠ j → ∀ x ∈ S, ∀ y ∈ S, ∃ b c s',
    (do return (← twice write a i x j y, ← twice write a j y i x) : Make NodeError (α × α)) s =
      .ok ((b, c), s') ∧ (node b).equal (node c) = true ∧ (node b).width = (node c).width

namespace Lawful

variable {node read write} {S : Set Node} {s : Supply} {place : ι → Prop} {a : α}

theorem mono (h : Lawful node read write S s place a) {S' : Set Node} (hsub : S' ⊆ S) :
    Lawful node read write S' s place a where
  reads := h.reads
  fails_iff := h.fails_iff
  write_read := h.write_read
  receiver_iff i x hx := h.receiver_iff i x (hsub hx)
  read_write i x hx := h.read_write i x (hsub hx)
  read_other i j hij x hx := h.read_other i j hij x (hsub hx)
  last_counts i hi x hx y hy := h.last_counts i hi x (hsub hx) y (hsub hy)
  exchange i j hi hj hij x hx y hy := h.exchange i j hi hj hij x (hsub hx) y (hsub hy)

theorem congr (h : Lawful node read write S s place a) {place' : ι → Prop}
    (hplace : ∀ i, place i ↔ place' i) : Lawful node read write S s place' a :=
  (funext fun i => propext (hplace i) : place = place') ▸ h

end Lawful

end Update

/-! ### Places -/

/-- Children that are read and written at places. Every place has a position of its own, which does
not change when children do; a child that is written stands at the position of its place in the node
that results. -/
structure Places {α ι ε : Type} (node : α → Node) (read : α → ι → Except ε Node)
    (write : α → ι → Option Node → Make NodeError α) where
  position : α → ι → Option Nat
  renew : α → Nat → List Node → α
  inner : ∀ a, (node a).IsInner
  node_renew : ∀ a id cs, node (renew a id cs) = (node a).renewed id cs
  position_renew : ∀ a id cs i, position (renew a id cs) i = position a i
  position_inj : ∀ {a i j p}, position a i = some p → position a j = some p → i = j
  read_eq : ∀ {a i p m}, position a i = some p → (node a).children[p]? = some m →
    read a i = .ok m
  read_ok : ∀ {a i m}, (node a).Sound (fun _ => True) → read a i = .ok m →
    ∃ p, position a i = some p ∧ (node a).children[p]? = some m
  read_renew : ∀ {a j} id {cs}, (∀ p, position a j = some p → cs[p]? = (node a).children[p]?) →
    read (renew a id cs) j = read a j
  write_eq : ∀ {a i p m} x s, (node a).Sound (fun _ => True) → position a i = some p →
    (node a).children[p]? = some m →
    write a i (some x) s =
      if m.same x then .ok (a, s) else .ok (renew a s ((node a).children.set p x), s + 1)
  write_ok : ∀ {a i child s r}, (node a).Sound (fun _ => True) → write a i child s = .ok r →
    child ≠ none ∧ ∃ p m, position a i = some p ∧ (node a).children[p]? = some m

namespace Node

theorem Sound.renewed_self {K : Kind → Prop} {n : Node} (h : n.Sound K) :
    n.renewed n.id n.children = n := by
  cases h with
  | missing | token _ | list _ | composite _ _ _ => rfl

theorem renewed_renewed (n : Node) (id id' : Nat) (cs ds : List Node) :
    (n.renewed id cs).renewed id' ds = n.renewed id' ds := by
  cases n <;> rfl

end Node

namespace Places

variable {α ι ε : Type} {node : α → Node} {read : α → ι → Except ε Node}
  {write : α → ι → Option Node → Make NodeError α} (P : Places node read write)
  {S : Set Node} {s s' : Supply} {a b : α} {i j : ι} {p q : Nat} {m x y : Node}

/-- The place leads to a child. -/
def Has (a : α) (i : ι) : Prop :=
  ∃ p m, P.position a i = some p ∧ (node a).children[p]? = some m

/-- What writing at a position gives, among objects. -/
structure Wrote (S : Set Node) (a : α) (p : Nat) (x : Node) (b : α) (s' : Supply) : Prop where
  objects : ∃ S', S ⊆ S' ∧ Objects S' s' ∧ node b ∈ S'
  node_eq : ∃ id, node b = (node a).renewed id ((node a).children.set p x)
  position_eq : ∀ i, P.position b i = P.position a i
  receiver_iff : (node b).same (node a) = true ↔ (node a).children[p]? = some x
  read_other : ∀ j, P.position a j ≠ some p → read b j = read a j

variable {P}

theorem Wrote.children (h : P.Wrote S a p x b s') :
    (node b).children = (node a).children.set p x := by
  obtain ⟨id, hid⟩ := h.node_eq
  rw [hid, Node.renewed_children (P.inner a)]

/-- **Writing** a child at a place that leads to one. -/
theorem exists_write (hS : Objects S s) (ha : node a ∈ S) (hp : P.position a i = some p)
    (hm : (node a).children[p]? = some m) (hx : x ∈ S) :
    ∃ b s', write a i (some x) s = .ok (b, s') ∧ P.Wrote S a p x b s' := by
  have hsound := hS.sound _ ha
  have hmS : m ∈ S := hS.child _ ha m (List.mem_of_getElem? hm)
  have hwrite := P.write_eq x s hsound hp hm
  -- writing what is there gives the receiver, anything else a new object
  by_cases hmx : m = x
  · subst hmx
    have hself : m.same m = true := beq_self_eq_true m.id
    rw [if_pos hself] at hwrite
    refine ⟨a, s, hwrite, ⟨S, subset_rfl, hS, ha⟩, ⟨(node a).id, ?_⟩, fun _ => rfl, ?_, fun _ _ => rfl⟩
    · obtain ⟨hlt, hget⟩ := List.getElem?_eq_some_iff.mp hm
      rw [← hget, List.set_getElem_self, hsound.renewed_self]
    · exact iff_of_true (beq_self_eq_true (node a).id) hm
  · rw [if_neg fun h => hmx (hS.eq_of_same hmS hx h)] at hwrite
    have hcs : ∀ c ∈ (node a).children.set p x, c ∈ S := by
      intro c hc
      rcases List.mem_or_eq_of_mem_set hc with hc | rfl
      · exact hS.child _ ha c hc
      · exact hx
    have hobjects := hS.renew ha (P.inner a) hcs (List.length_set ..)
    rw [← P.node_renew] at hobjects
    refine ⟨_, _, hwrite, ⟨_, Set.subset_insert _ S, hobjects, Set.mem_insert _ S⟩,
      ⟨s, P.node_renew a s _⟩, P.position_renew a s _, iff_of_false ?_ ?_, fun j hj => ?_⟩
    · -- the new object has a number that nothing had before
      have hlt := hS.below _ ha
      rw [Node.same, P.node_renew, Node.renewed_id (P.inner a), beq_iff_eq]
      omega
    · rw [hm]
      exact fun h => hmx (Option.some.inj h)
    · refine P.read_renew s fun q hq => List.getElem?_set_ne ?_
      rintro rfl
      exact hj hq

/-- What a write gives was written at a place that leads to a child. -/
theorem wrote_of_write (hS : Objects S s) (ha : node a ∈ S) (hx : x ∈ S)
    (h : write a i (some x) s = .ok (b, s')) :
    ∃ p m, P.position a i = some p ∧ (node a).children[p]? = some m ∧ P.Wrote S a p x b s' := by
  obtain ⟨-, p, m, hp, hm⟩ := P.write_ok (hS.sound _ ha) h
  obtain ⟨c, t, hc, hwrote⟩ := exists_write hS ha hp hm hx
  cases h.symm.trans hc
  exact ⟨p, m, hp, hm, hwrote⟩

theorem read_iff (ha : (node a).Sound fun _ => True) (hp : P.position a i = some p) :
    read a i = .ok x ↔ (node a).children[p]? = some x := by
  refine ⟨fun h => ?_, P.read_eq hp⟩
  obtain ⟨q, hq, hx⟩ := P.read_ok ha h
  cases hp.symm.trans hq
  exact hx

/-- Two writes give an object that is like the first node, with both children at their positions. -/
theorem exists_twice (hS : Objects S s) (ha : node a ∈ S) (hi : P.Has a i) (hj : P.Has a j)
    (hx : x ∈ S) (hy : y ∈ S) :
    ∃ p q b s', P.position a i = some p ∧ P.position a j = some q ∧
      Update.twice write a i x j y s = .ok (b, s') ∧
      (∃ S', S ⊆ S' ∧ Objects S' s' ∧ node b ∈ S') ∧
      ∃ id, node b = (node a).renewed id (((node a).children.set p x).set q y) := by
  obtain ⟨p, m, hp, hm⟩ := hi
  obtain ⟨q, m', hq, hm'⟩ := hj
  obtain ⟨b, t, hb, hwrote⟩ := exists_write hS ha hp hm hx
  obtain ⟨T, hsub, hT, hbT⟩ := hwrote.objects
  -- the first write keeps the number of children, so the second position is still there
  have hlt : q < (node b).children.length := by
    rw [hwrote.children, List.length_set]
    exact (List.getElem?_eq_some_iff.mp hm').1
  obtain ⟨c, u, hc, hwrote'⟩ := exists_write (P := P) hT hbT ((hwrote.position_eq j).trans hq)
    (List.getElem?_eq_getElem hlt) (hsub hy)
  obtain ⟨U, hsub', hU, hcU⟩ := hwrote'.objects
  refine ⟨p, q, c, u, hp, hq, Make.bind_eq_ok.mpr ⟨b, t, hb, hc⟩, ⟨U, hsub.trans hsub', hU, hcU⟩, ?_⟩
  obtain ⟨id, hid⟩ := hwrote.node_eq
  obtain ⟨id', hid'⟩ := hwrote'.node_eq
  exact ⟨id', by rw [hid', hid, Node.renewed_renewed, ← hid, hwrote.children]⟩

/-- Objects that are like one node, with the same children, are equal and of one width. -/
theorem equal_of_renewed {n c d : Node} {id id' : Nat} {cs : List Node} {S' : Set Node}
    (hc : Objects S s ∧ c ∈ S) (hd : Objects S' s' ∧ d ∈ S') (hceq : c = n.renewed id cs)
    (hdeq : d = n.renewed id' cs) : c.equal d = true ∧ c.width = d.width := by
  have halike : Node.Alike c d := by
    rw [hceq, hdeq]
    exact .renewed (.refl cs)
  have hcs := hc.1.sound c hc.2
  have hds := hd.1.sound d hd.2
  exact ⟨halike.equal hcs hds, by rw [hcs.width_eq, hds.width_eq, halike.fullText]⟩

/-- **Reading and writing at places** obeys the laws. -/
theorem lawful (P : Places node read write) (hS : Objects S s) (ha : node a ∈ S) :
    Update.Lawful node read write S s (P.Has a) a where
  reads i := by
    rintro ⟨p, m, hp, hm⟩
    exact ⟨m, P.read_eq hp hm⟩
  fails_iff i child := by
    cases hw : write a i child s with
    | ok r =>
        obtain ⟨hchild, hhas⟩ := P.write_ok (hS.sound _ ha) hw
        exact iff_of_false nofun (not_or.mpr ⟨not_not_intro hhas, hchild⟩)
    | error e =>
        refine iff_of_true ⟨e, rfl⟩ (or_iff_not_imp_left.mpr fun hhas => ?_)
        obtain ⟨p, m, hp, hm⟩ := not_not.mp hhas
        cases child with
        | none => rfl
        | some x =>
            rw [P.write_eq x s (hS.sound _ ha) hp hm] at hw
            split at hw <;> cases hw
  write_read i m h := by
    obtain ⟨p, hp, hm⟩ := P.read_ok (hS.sound _ ha) h
    have hself : m.same m = true := beq_self_eq_true m.id
    rw [P.write_eq m s (hS.sound _ ha) hp hm, if_pos hself]
  receiver_iff i x hx b s' h := by
    obtain ⟨p, m, hp, hm, hwrote⟩ := wrote_of_write (P := P) hS ha hx h
    exact hwrote.receiver_iff.trans (read_iff (hS.sound _ ha) hp).symm
  read_write i x hx b s' h := by
    obtain ⟨p, m, hp, hm, hwrote⟩ := wrote_of_write (P := P) hS ha hx h
    refine P.read_eq ((hwrote.position_eq i).trans hp) ?_
    rw [hwrote.children, List.getElem?_set_self (List.getElem?_eq_some_iff.mp hm).1]
  read_other i j hij x hx b s' h := by
    obtain ⟨p, m, hp, hm, hwrote⟩ := wrote_of_write (P := P) hS ha hx h
    exact hwrote.read_other j fun hq => hij (P.position_inj hp hq)
  last_counts i hi x hx y hy := by
    obtain ⟨p, q, b, t, hp, hq, hb, ⟨T, hsub, hT, hbT⟩, id, hid⟩ := exists_twice hS ha hi hi hx hy
    cases hp.symm.trans hq
    obtain ⟨p', m, hp', hm⟩ := hi
    cases hp.symm.trans hp'
    obtain ⟨c, u, hc, hwrote⟩ := exists_write hT (hsub ha) hp hm (hsub hy)
    obtain ⟨U, -, hU, hcU⟩ := hwrote.objects
    obtain ⟨id', hid'⟩ := hwrote.node_eq
    rw [List.set_set] at hid
    exact ⟨b, c, u, Make.bind_eq_ok.mpr ⟨b, t, hb, Make.bind_eq_ok.mpr ⟨c, u, hc, rfl⟩⟩,
      (equal_of_renewed ⟨hT, hbT⟩ ⟨hU, hcU⟩ hid hid').1⟩
  exchange i j hi hj hij x hx y hy := by
    obtain ⟨p, q, b, t, hp, hq, hb, ⟨T, hsub, hT, hbT⟩, id, hid⟩ := exists_twice hS ha hi hj hx hy
    obtain ⟨q', p', c, u, hq', hp', hc, ⟨U, -, hU, hcU⟩, id', hid'⟩ :=
      exists_twice hT (hsub ha) hj hi (hsub hy) (hsub hx)
    cases hp.symm.trans hp'
    cases hq.symm.trans hq'
    have hpq : p ≠ q := by
      rintro rfl
      exact hij (P.position_inj hp hq)
    -- at two positions the order does not matter
    rw [List.set_comm _ _ hpq] at hid
    exact ⟨b, c, u, Make.bind_eq_ok.mpr ⟨b, t, hb, Make.bind_eq_ok.mpr ⟨c, u, hc, rfl⟩⟩,
      equal_of_renewed ⟨hT, hbT⟩ ⟨hU, hcU⟩ hid hid'⟩

end Places

/-! ### Slots and positions -/

/-- The position of the slot of a name. -/
def Kind.position? (k : Kind) (name : String) : Option Nat := (k.slot? name).map (·.1)

theorem Kind.position?_eq_some {k : Kind} {name : String} {i : Nat} :
    k.position? name = some i ↔ ∃ sl, k.slot? name = some (i, sl) := by
  rw [position?, Option.map_eq_some_iff]
  constructor
  · rintro ⟨⟨_, sl⟩, hsl, rfl⟩
    exact ⟨sl, hsl⟩
  · rintro ⟨sl, hsl⟩
    exact ⟨(i, sl), hsl, rfl⟩

namespace Composite

variable {c : Composite} {slot : String} {i : Nat}

theorem exists_child (hc : c.toNode.Sound fun _ => True) (hi : c.kind.position? slot = some i) :
    ∃ m, c.children[i]? = some m := by
  obtain ⟨sl, hsl⟩ := Kind.position?_eq_some.mp hi
  exact Node.Sound.exists_child hc (Kind.slot?_eq_some hsl).1

theorem untyped_of_position {m : Node} (hi : c.kind.position? slot = some i)
    (hm : c.children[i]? = some m) : c.untyped slot = .ok m := by
  obtain ⟨sl, hsl⟩ := Kind.position?_eq_some.mp hi
  rw [untyped_of_slot hsl, getD_eq_of_getElem? hm]

theorem untyped_of_none (hi : c.kind.position? slot = none) :
    c.untyped slot = .error (.unknownSlot c.kind.name slot) := by
  simp only [untyped, Option.map_eq_none_iff.mp hi]

/-- The slots of composites. -/
def places : Places toNode untyped withSlot where
  position c := c.kind.position?
  renew c id cs := ⟨id, c.kind, cs, Node.totalWidth cs⟩
  inner _ := trivial
  node_renew _ _ _ := rfl
  position_renew _ _ _ _ := rfl
  position_inj {c slot slot' p} h h' := by
    obtain ⟨sl, hsl⟩ := Kind.position?_eq_some.mp h
    obtain ⟨sl', hsl'⟩ := Kind.position?_eq_some.mp h'
    obtain ⟨hat, rfl⟩ := Kind.slot?_eq_some hsl
    obtain ⟨hat', rfl⟩ := Kind.slot?_eq_some hsl'
    cases hat.symm.trans hat'
    rfl
  read_eq := untyped_of_position
  read_ok {c slot m} hc h := by
    cases hi : c.kind.position? slot with
    | none => cases (untyped_of_none hi).symm.trans h
    | some i =>
        obtain ⟨child, hchild⟩ := exists_child hc hi
        cases (untyped_of_position hi hchild).symm.trans h
        exact ⟨i, rfl, hchild⟩
  read_renew {c slot} id {cs} h := by
    cases hi : c.kind.position? slot with
    | none => exact (untyped_of_none (c := ⟨id, c.kind, cs, _⟩) hi).trans (untyped_of_none hi).symm
    | some i =>
        obtain ⟨sl, hsl⟩ := Kind.position?_eq_some.mp hi
        have hcs : cs[i]? = c.children[i]? := h i hi
        rw [untyped_of_slot hsl, untyped_of_slot (c := ⟨id, c.kind, cs, _⟩) hsl,
          List.getD_eq_getElem?_getD, List.getD_eq_getElem?_getD, hcs]
  write_eq {c slot i m} x s hc hi hm := by
    obtain ⟨sl, hsl⟩ := Kind.position?_eq_some.mp hi
    obtain ⟨-, -, hw, -⟩ := Node.sound_composite_iff.mp hc
    have hget : c.children.getD i .missing = m := getD_eq_of_getElem? hm .missing
    have hm : c.children[i]? = some m := hm
    split
    · next hsame =>
        exact withSlot_eq_ok_iff.mpr ⟨i, sl, x, hsl, rfl, .inl ⟨hget ▸ hsame, rfl⟩⟩
    · next hsame =>
        refine withSlot_eq_ok_iff.mpr ⟨i, sl, x, hsl, rfl, .inr ⟨hget ▸ hsame, ?_⟩⟩
        rw [hget, hw, (Node.totalWidth_set x hm).2, toNode, Node.children]
  write_ok {c slot child s r} hc h := by
    obtain ⟨i, sl, n, hsl, rfl, -⟩ := withSlot_eq_ok_iff.mp h
    have hi := Kind.position?_eq_some.mpr ⟨sl, hsl⟩
    obtain ⟨m, hm⟩ := exists_child hc hi
    exact ⟨nofun, i, m, hi, hm⟩

/-- A slot of the kind leads to a child. -/
theorem has_iff (hc : c.toNode.Sound fun _ => True) :
    places.Has c slot ↔ slot ∈ c.kind.slotNames := by
  constructor
  · rintro ⟨i, m, hi, -⟩
    obtain ⟨sl, hsl⟩ := Kind.position?_eq_some.mp hi
    obtain ⟨hat, rfl⟩ := Kind.slot?_eq_some hsl
    exact List.mem_map_of_mem (List.mem_of_getElem? hat)
  · intro h
    obtain ⟨i, sl, hsl⟩ := Kind.exists_slot? h
    have hi := Kind.position?_eq_some.mpr ⟨sl, hsl⟩
    obtain ⟨m, hm⟩ := exists_child hc hi
    exact ⟨i, m, hi, hm⟩

end Composite

namespace NodeList

/-- The position that an integer is. -/
def position? (i : Int) : Option Nat := if 0 ≤ i then some i.toNat else none

theorem position?_eq_some {i : Int} {p : Nat} : position? i = some p ↔ i = p := by
  rw [position?, Option.ite_none_right_eq_some, Option.some.injEq]
  omega

variable {l : NodeList} {i : Int}

theorem nth?_of_position {α : Type} {xs : List α} {p : Nat} {x : α} (h : position? i = some p) :
    nth? xs i = some x ↔ xs[p]? = some x := by
  obtain rfl := position?_eq_some.mp h
  rw [nth?_eq_some_iff, Int.toNat_natCast]
  exact and_iff_right (by omega)

/-- The positions of lists. -/
def places : Places toNode (fun l i => l.toNode.child i) withItem where
  position _ := position?
  renew l id cs := ⟨id, cs, Node.totalWidth cs⟩
  inner _ := trivial
  node_renew _ _ _ := rfl
  position_renew _ _ _ _ := rfl
  position_inj h h' := (position?_eq_some.mp h).trans (position?_eq_some.mp h').symm
  read_eq {l i p m} h hm := by
    obtain rfl := position?_eq_some.mp h
    exact Node.child_eq_ok_iff.mpr ⟨by omega, hm⟩
  read_ok {l i m} _ h := by
    obtain ⟨hi, hm⟩ := Node.child_eq_ok_iff.mp h
    exact ⟨i.toNat, if_pos hi, hm⟩
  read_renew {l i} id {cs} h := by
    have hnth : nth? cs i = nth? l.items i := by
      unfold nth?
      split
      · rfl
      · exact h i.toNat (if_pos (by omega))
    simp only [toNode, Node.child, Node.children, hnth]
  write_eq {l i p m} x s hl h hm := by
    obtain ⟨hw, -⟩ := Node.sound_list_iff.mp hl
    have hm : l.items[p]? = some m := hm
    have hnth := (nth?_of_position h).mpr hm
    split
    · next hsame => exact withItem_eq_ok_iff.mpr ⟨m, x, hnth, rfl, .inl ⟨hsame, rfl⟩⟩
    · next hsame =>
        refine withItem_eq_ok_iff.mpr ⟨m, x, hnth, rfl, .inr ⟨hsame, ?_⟩⟩
        obtain rfl := position?_eq_some.mp h
        rw [hw, (Node.totalWidth_set x hm).2, toNode, Node.children, Int.toNat_natCast]
  write_ok {l i child s r} _ h := by
    obtain ⟨m, n, hnth, rfl, -⟩ := withItem_eq_ok_iff.mp h
    obtain ⟨hi, hm⟩ := nth?_eq_some_iff.mp hnth
    exact ⟨nofun, i.toNat, m, if_pos hi, hm⟩

/-- A position in range leads to an item. -/
theorem has_iff : places.Has l i ↔ 0 ≤ i ∧ i < l.items.length := by
  constructor
  · rintro ⟨p, m, h, hm⟩
    obtain rfl := position?_eq_some.mp h
    have hlt : p < l.items.length := (List.getElem?_eq_some_iff.mp hm).1
    omega
  · rintro ⟨hi, hlt⟩
    have hpos : i.toNat < l.items.length := by omega
    exact ⟨i.toNat, _, if_pos hi, List.getElem?_eq_getElem (l := l.items) hpos⟩

end NodeList

/-! ### The laws of updates -/

/-- Among nodes that are made one after another, slots of composites and positions of lists obey the
laws of reading and writing. In a composite of a kind of a compiled catalog, the slot at a position is
the one that is read under its name. -/
theorem updates_lawful {d : CatalogDocument} {catalog : Catalog} (hd : d.compile = .ok catalog)
    {S : Set Node} {s : Supply} (hS : Made S s) :
    (∀ c : Composite, c.toNode ∈ S → c.kind ∈ catalog.kinds →
      Update.Lawful Composite.toNode Composite.untyped Composite.withSlot S s
        (· ∈ c.kind.slotNames) c ∧
      ∀ (i : Nat) (sl : Slot), c.kind.slotAt? i = some sl →
        ∃ m, c.toNode.child i = .ok m ∧ c.untyped sl.name = .ok m) ∧
    ∀ l : NodeList, l.toNode ∈ S →
      Update.Lawful NodeList.toNode (fun l i => l.toNode.child i) NodeList.withItem S s
        (fun i => 0 ≤ i ∧ i < l.items.length) l := by
  obtain ⟨T, hsub, hT⟩ := hS.objects
  refine ⟨fun c hc hk => ⟨?_, fun i sl hsl => ?_⟩, fun l hl => ?_⟩
  · have hlawful := Composite.places.lawful hT (hsub hc)
    exact (hlawful.congr fun _ => Composite.has_iff (hT.sound _ (hsub hc))).mono hsub
  · have hdistinct := ((CatalogDocument.compile_wellFormed hd).kinds _ hk).distinct
    have hi := Kind.position?_eq_some.mpr ⟨sl, hdistinct.slot?_eq hsl⟩
    obtain ⟨m, hm⟩ := Composite.exists_child (hT.sound _ (hsub hc)) hi
    exact ⟨m, Node.child_eq_ok_iff.mpr ⟨Int.natCast_nonneg i, hm⟩, Composite.untyped_of_position hi hm⟩
  · have hlawful := NodeList.places.lawful hT (hsub hl)
    exact (hlawful.congr fun _ => NodeList.has_iff).mono hsub

section Pairs

open Parse (pairDocument pairKind pairCatalog)

theorem updates_lawful_twinPair :
    (pairDocument.compile = .ok pairCatalog ∧ Made pairNodes 5 ∧ twinPair ∈ pairNodes) ∧
    Update.Lawful Composite.toNode Composite.untyped Composite.withSlot pairNodes 5
      (· ∈ pairKind.slotNames) ⟨4, pairKind, [blankWord 1, blankWord 2], 8⟩ := by
  have hc : pairDocument.compile = .ok pairCatalog := rfl
  have htwin : twinPair ∈ pairNodes := .inl rfl
  exact ⟨⟨hc, pairNodes_made, htwin⟩,
    ((updates_lawful hc pairNodes_made).1 ⟨4, pairKind, _, 8⟩ htwin (.head _)).1⟩

end Pairs

end Lossless
