import Lossless.Node.Access
import Lossless.Proofs.Node.Objects
import Lossless.Proofs.Parse.Coverage
import Lossless.Proofs.Pass.Preservation

/-!
# Node — nodes that can be built

Nodes come from operations that make nodes, from parser output, and from reaching into nodes that
are there (`Node.Built`).  What one operation can give is said once (`Operation.run_gives`): a sound
node when it is given sound ones (`Operation.run_sound`), an object when it is given objects
(`Operation.run_objects`).  So every node that can be built is sound (`Built.sound`); passes give
nothing new (`Built.closed`).

**The representation invariant** (`built_representation`) is what soundness means for those who use
a node: its width is the length of its full text, no child is absent, a composite has as many
children as slots, and the child in a slot is the one at the position of that name.
-/

namespace Lossless

/-- An operation that makes a node. Children may be absent. -/
inductive Operation where
  | missing
  | token (kind : String) (leading : List Trivia) (text : Text) (trailing : List Trivia)
  | list (items : List (Option Node))
  | composite (kind : Option Kind) (children : List (Option Node))
  | withText (t : Token) (text : Text)
  | withKind (t : Token) (kind : String)
  | withLeading (t : Token) (leading : List Trivia)
  | withTrailing (t : Token) (trailing : List Trivia)
  | withItems (l : NodeList) (items : List (Option Node))
  | withItem (l : NodeList) (i : Int) (item : Option Node)
  | withSlot (c : Composite) (slot : String) (child : Option Node)
  | withChildren (c : Composite) (children : List (Option Node))
  | rebuild (n : Node) (children : List (Option Node))

namespace Operation

/-- What an operation does. -/
def run : Operation → Make NodeError Node
  | .missing => pure .missing
  | .token kind leading text trailing => do
    return .token (← Token.make kind leading text trailing)
  | .list items => do return (← NodeList.make items).toNode
  | .composite kind children => do return (← Composite.make kind children).toNode
  | .withText t text => do return .token (← t.withText text)
  | .withKind t kind => do return .token (← t.withKind kind)
  | .withLeading t leading => do return .token (← t.withLeading leading)
  | .withTrailing t trailing => do return .token (← t.withTrailing trailing)
  | .withItems l items => do return (← l.withItems items).toNode
  | .withItem l i item => do return (← l.withItem i item).toNode
  | .withSlot c slot child => do return (← c.withSlot slot child).toNode
  | .withChildren c children => do return (← c.withChildren children).toNode
  | .rebuild n children => n.rebuild children

/-- The node that an operation is called on. -/
def receiver? : Operation → Option Node
  | .missing | .token .. | .list _ | .composite .. => none
  | .withText t _ | .withKind t _ | .withLeading t _ | .withTrailing t _ => some (.token t)
  | .withItems l _ | .withItem l _ _ => some l.toNode
  | .withSlot c _ _ | .withChildren c _ => some c.toNode
  | .rebuild n _ => some n

/-- The children that an operation is given. -/
def given : Operation → List (Option Node)
  | .list items | .withItems _ items => items
  | .withItem _ _ item => [item]
  | .withSlot _ _ child => [child]
  | .composite _ children | .withChildren _ children | .rebuild _ children => children
  | _ => []

/-- The kind that an operation is given. -/
def kind? : Operation → Option Kind
  | .composite kind _ => kind
  | _ => none

end Operation

/-! ### One operation -/

namespace Operation

/-- The nodes that an operation may make children of its result: those it is given, and the children
of the node that it is called on. -/
def Supplies (op : Operation) (c : Node) : Prop :=
  some c ∈ op.given ∨ ∃ r, op.receiver? = some r ∧ c ∈ r.children

/-- The kinds that an operation may give its result. -/
def Names (op : Operation) (k : Kind) : Prop :=
  op.kind? = some k ∨ ∃ id cs w, op.receiver? = some (.composite id k cs w)

/-- What an operation gives: the missing node, the node that it is called on, or a new object with
the next number of the supply, as wide as its parts. -/
inductive Gives (op : Operation) (s : Supply) : Node → Supply → Prop where
  | missing : Gives op s .missing s
  | receiver {n : Node} (h : op.receiver? = some n) : Gives op s n s
  | token {t : Token} (hid : t.id = s) (hw : t.width = t.fullText.length) :
      Gives op s (.token t) (s + 1)
  | list {ns : List Node} (hns : ∀ c ∈ ns, op.Supplies c) :
      Gives op s (.list s ns (Node.totalWidth ns)) (s + 1)
  | composite {k : Kind} {ns : List Node} (hk : op.Names k) (hlen : ns.length = k.arity)
      (hns : ∀ c ∈ ns, op.Supplies c) :
      Gives op s (.composite s k ns (Node.totalWidth ns)) (s + 1)

end Operation

section Gives

variable {K : Kind → Prop} {op : Operation} {s s' : Supply}

theorem Token.make_gives {kind : String} {leading trailing : List Trivia} {text : Text} {t : Token}
    (h : (Token.make kind leading text trailing : Make NodeError Token) s = .ok (t, s')) :
    op.Gives s (.token t) s' := by
  cases h
  exact .token rfl (by simp only [Token.fullText, Token.leadingText, Token.trailingText,
    triviaWidth_eq, List.length_append])

/-- Changing one part of a token: the token itself when the part is the same, or a new one. -/
theorem Token.change_gives {b : Prop} [Decidable b] {kind : String} {leading trailing : List Trivia}
    {text : Text} {t t' : Token} (ht : op.receiver? = some (.token t))
    (h : (if b then pure t else Token.make kind leading text trailing : Make NodeError Token) s =
      .ok (t', s')) : op.Gives s (.token t') s' := by
  rcases unlessSame_eq_ok_iff.mp h with ⟨-, h⟩ | ⟨-, h⟩
  · cases h; exact .receiver ht
  · exact make_gives h

theorem NodeList.make_gives {l : NodeList} (h : NodeList.make op.given s = .ok (l, s')) :
    op.Gives s l.toNode s' := by
  obtain ⟨ns, hns, rfl, rfl⟩ := NodeList.make_eq_ok_iff.mp h
  exact .list fun c hc => .inl (hns ▸ List.mem_map_of_mem hc)

theorem Composite.make_gives {kind : Option Kind} {c : Composite}
    (hkind : ∀ k, kind = some k → op.Names k)
    (h : Composite.make kind op.given s = .ok (c, s')) : op.Gives s c.toNode s' := by
  obtain ⟨k, ns, rfl, hns, hk, rfl, rfl⟩ := Composite.make_eq_ok_iff.mp h
  exact .composite (hkind k rfl) hk fun c hc => .inl (hns ▸ List.mem_map_of_mem hc)

/-- The nodes of a list with one of them replaced: an old one, or the one that is given. -/
theorem Operation.supplies_set (op : Operation) {r n : Node} (i : Nat)
    (hr : op.receiver? = some r) (hn : some n ∈ op.given) :
    ∀ c ∈ r.children.set i n, op.Supplies c := by
  intro c hc
  rcases List.mem_or_eq_of_mem_set hc with hc | rfl
  · exact .inr ⟨r, hr, hc⟩
  · exact .inl hn

/-- The width is moved by the difference of the two items, which is right because the list is as
wide as its items. -/
theorem NodeList.withItem_gives {l l' : NodeList} {i : Int} {item : Option Node}
    (hl : l.toNode.Sound K) (h : l.withItem i item s = .ok (l', s')) :
    (Operation.withItem l i item).Gives s l'.toNode s' := by
  obtain ⟨current, n, hi, rfl, ⟨-, he⟩ | ⟨-, he⟩⟩ := NodeList.withItem_eq_ok_iff.mp h
  · cases he; exact .receiver rfl
  · cases he
    obtain ⟨hw, -⟩ := Node.sound_list_iff.mp hl
    rw [NodeList.toNode, hw, (Node.totalWidth_set n (nth?_eq_some_iff.mp hi).2).2]
    exact .list (Operation.supplies_set (.withItem l i (some n)) i.toNat rfl (.head _))

theorem Composite.withSlot_gives {c c' : Composite} {slot : String} {child : Option Node}
    (hc : c.toNode.Sound K) (h : c.withSlot slot child s = .ok (c', s')) :
    (Operation.withSlot c slot child).Gives s c'.toNode s' := by
  obtain ⟨i, sl, n, hslot, rfl, ⟨-, he⟩ | ⟨-, he⟩⟩ := Composite.withSlot_eq_ok_iff.mp h
  · cases he; exact .receiver rfl
  · cases he
    obtain ⟨-, hk, hw, -⟩ := Node.sound_composite_iff.mp hc
    have hi : i < c.children.length := hk ▸ Kind.slot?_lt hslot
    have hcurrent : c.children[i]? = some (c.children.getD i .missing) := by
      rw [List.getD_eq_getElem?_getD, List.getElem?_eq_getElem hi, Option.getD_some]
    rw [Composite.toNode, hw, (Node.totalWidth_set n hcurrent).2]
    exact .composite (.inr ⟨_, _, _, rfl⟩) (by rw [List.length_set]; exact hk)
      (Operation.supplies_set (.withSlot c slot (some n)) i rfl (.head _))

theorem Node.rebuild_gives {n m : Node} {children : List (Option Node)}
    (h : n.rebuild children s = .ok (m, s')) :
    (Operation.rebuild n children).Gives s m s' := by
  obtain ⟨ns, rfl, rfl, ⟨_, _, _, -, rfl⟩ | ⟨_, k, _, _, rfl, hk, rfl⟩⟩ := rebuild_eq_ok_iff.mp h
  · exact .list fun c hc => .inl (List.mem_map_of_mem hc)
  · exact .composite (.inr ⟨_, _, _, rfl⟩) hk fun c hc => .inl (List.mem_map_of_mem hc)

namespace Operation

/-- **One operation**, called on a sound node: everything it can give. -/
theorem run_gives {n : Node} (hreceiver : ∀ m, op.receiver? = some m → m.Sound K)
    (h : op.run s = .ok (n, s')) : op.Gives s n s' := by
  cases op with
  | missing => cases h; exact .missing
  | rebuild m children => exact Node.rebuild_gives h
  | token kind leading text trailing =>
      obtain ⟨t, s₁, ht, hr⟩ := Make.bind_eq_ok.mp h
      cases hr
      exact Token.make_gives ht
  | withText t _ | withKind t _ | withLeading t _ | withTrailing t _ =>
      obtain ⟨t', s₁, ht, hr⟩ := Make.bind_eq_ok.mp h
      cases hr
      exact Token.change_gives rfl ht
  | list items =>
      obtain ⟨l, s₁, hl, hr⟩ := Make.bind_eq_ok.mp h
      cases hr
      exact NodeList.make_gives hl
  | composite kind children =>
      obtain ⟨c, s₁, hc, hr⟩ := Make.bind_eq_ok.mp h
      cases hr
      exact Composite.make_gives (fun k hk => .inl hk) hc
  | withItems l items =>
      obtain ⟨l', s₁, hl, hr⟩ := Make.bind_eq_ok.mp h
      cases hr
      -- the same items give the receiver itself, other ones a new list
      rcases unlessSame_eq_ok_iff.mp hl with ⟨-, hl⟩ | ⟨-, hl⟩
      · cases hl; exact .receiver rfl
      · exact NodeList.make_gives hl
  | withChildren c children =>
      obtain ⟨c', s₁, hc, hr⟩ := Make.bind_eq_ok.mp h
      cases hr
      rcases unlessSame_eq_ok_iff.mp hc with ⟨-, hc⟩ | ⟨-, hc⟩
      · cases hc; exact .receiver rfl
      · refine Composite.make_gives (fun k hk => ?_) hc
        cases hk
        exact .inr ⟨_, _, _, rfl⟩
  | withItem l i item =>
      obtain ⟨l', s₁, hl, hr⟩ := Make.bind_eq_ok.mp h
      cases hr
      exact NodeList.withItem_gives (hreceiver _ rfl) hl
  | withSlot c slot child =>
      obtain ⟨c', s₁, hc, hr⟩ := Make.bind_eq_ok.mp h
      cases hr
      exact Composite.withSlot_gives (hreceiver _ rfl) hc

/-- What an operation supplies is in a set that has what it is called on and what it is given. -/
theorem Supplies.mem {S : Node → Prop} (hS : ∀ n, S n → ∀ c ∈ n.children, S c)
    (hreceiver : ∀ m, op.receiver? = some m → S m) (hgiven : ∀ m, some m ∈ op.given → S m)
    {c : Node} (h : op.Supplies c) : S c := by
  rcases h with hc | ⟨r, hr, hc⟩
  · exact hgiven c hc
  · exact hS r (hreceiver r hr) c hc

/-- **One operation** gives a sound node when what it is called on and what it is given are sound.
-/
theorem run_sound {n : Node} (hkind : ∀ k, op.kind? = some k → K k)
    (hreceiver : ∀ m, op.receiver? = some m → m.Sound K)
    (hgiven : ∀ m, some m ∈ op.given → m.Sound K) (h : op.run s = .ok (n, s')) : n.Sound K := by
  have hsupplies : ∀ {c : Node}, op.Supplies c → c.Sound K :=
    Supplies.mem (fun _ hn => hn.children) hreceiver hgiven
  cases run_gives hreceiver h with
  | missing => exact .missing
  | receiver hr => exact hreceiver n hr
  | token _ hw => exact .token hw
  | list hns => exact .list fun c hc => hsupplies (hns c hc)
  | composite hk hlen hns =>
      refine .composite ?_ hlen fun c hc => hsupplies (hns c hc)
      rcases hk with hk | ⟨id, cs, w, hr⟩
      · exact hkind _ hk
      · exact (Node.sound_composite_iff.mp (hreceiver _ hr)).1

/-- **Operations keep objects.** What an operation on objects gives is one of them, or one more. -/
theorem run_objects {S : Set Node} {n : Node} (hS : Objects S s)
    (hreceiver : ∀ m, op.receiver? = some m → m ∈ S)
    (hgiven : ∀ m, some m ∈ op.given → m ∈ S) (h : op.run s = .ok (n, s')) :
    ∃ S', S ⊆ S' ∧ Objects S' s' ∧ n ∈ S' := by
  have hreceiver' := fun m hm => hS.sound m (hreceiver m hm)
  have hsound : n.Sound fun _ => True :=
    run_sound (fun _ _ => trivial) hreceiver' (fun m hm => hS.sound m (hgiven m hm)) h
  have hsupplies : ∀ {c : Node}, op.Supplies c → c ∈ S := Supplies.mem hS.child hreceiver hgiven
  -- one object is added, with the next number and with children that were there
  have hnew : n.id = s → (∀ c ∈ n.children, op.Supplies c) →
      ∃ S', S ⊆ S' ∧ Objects S' (s + 1) ∧ n ∈ S' := fun hid hc =>
    ⟨_, Set.subset_insert n S, hS.insert hid (fun c hmem => hsupplies (hc c hmem)) hsound,
      Set.mem_insert n S⟩
  cases run_gives hreceiver' h with
  | missing => exact ⟨S, subset_rfl, hS, hS.missing⟩
  | receiver hr => exact ⟨S, subset_rfl, hS, hreceiver n hr⟩
  | token hid _ =>
      refine hnew hid fun c hc => ?_
      cases hc
  | list hns => exact hnew rfl hns
  | composite _ _ hns => exact hnew rfl hns

end Operation

end Gives

/-- Children that are absent are refused by every operation. -/
theorem Operation.none_notMem_given {op : Operation} {s : Supply} {r : Node × Supply}
    (h : op.run s = .ok r) : none ∉ op.given := by
  -- where an operation gives a node, the children it was given are all present
  have hsome : ∀ ns : List Node, none ∉ ns.map some := fun ns hm => by simp at hm
  cases op with
  | missing | token _ _ _ _ | withText _ _ | withKind _ _ | withLeading _ _ | withTrailing _ _ =>
      exact nofun
  | list items =>
      obtain ⟨l, s₁, hl, -⟩ := Make.bind_eq_ok.mp h
      obtain ⟨ns, rfl, -⟩ := NodeList.make_eq_ok_iff.mp hl
      exact hsome ns
  | composite kind children =>
      obtain ⟨c, s₁, hc, -⟩ := Make.bind_eq_ok.mp h
      obtain ⟨_, ns, -, rfl, -⟩ := Composite.make_eq_ok_iff.mp hc
      exact hsome ns
  | withItems l items =>
      obtain ⟨l', s₁, hl, -⟩ := Make.bind_eq_ok.mp h
      rcases unlessSame_eq_ok_iff.mp hl with ⟨hsame, -⟩ | ⟨-, hl⟩
      · obtain ⟨ns, rfl⟩ := sameChildren_eq_true hsame
        exact hsome ns
      · obtain ⟨ns, rfl, -⟩ := NodeList.make_eq_ok_iff.mp hl
        exact hsome ns
  | withChildren c children =>
      obtain ⟨c', s₁, hc, -⟩ := Make.bind_eq_ok.mp h
      rcases unlessSame_eq_ok_iff.mp hc with ⟨hsame, -⟩ | ⟨-, hc⟩
      · obtain ⟨ns, rfl⟩ := sameChildren_eq_true hsame
        exact hsome ns
      · obtain ⟨_, ns, -, rfl, -⟩ := Composite.make_eq_ok_iff.mp hc
        exact hsome ns
  | withItem l i item =>
      obtain ⟨l', s₁, hl, -⟩ := Make.bind_eq_ok.mp h
      obtain ⟨_, n, -, rfl, -⟩ := NodeList.withItem_eq_ok_iff.mp hl
      exact hsome [n]
  | withSlot c slot child =>
      obtain ⟨c', s₁, hc, -⟩ := Make.bind_eq_ok.mp h
      obtain ⟨_, _, n, -, rfl, -⟩ := Composite.withSlot_eq_ok_iff.mp hc
      exact hsome [n]
  | rebuild n children =>
      obtain ⟨ns, rfl, -⟩ := Node.rebuild_eq_ok_iff.mp h
      exact hsome ns

/-! ### Nodes that can be built -/

namespace Node

/-- Nodes that are made by operations on nodes that are there, with kinds whose slots have distinct
names; that are built from parser output; or that are children of such nodes. -/
inductive Built : Node → Prop where
  | step {op : Operation} {s s' : Supply} {n : Node}
      (hkind : ∀ k, op.kind? = some k → k.Distinct)
      (hreceiver : ∀ m, op.receiver? = some m → Built m)
      (hgiven : ∀ m, some m ∈ op.given → Built m) (h : op.run s = .ok (n, s')) : Built n
  | child {n m : Node} {i : Int} (hn : Built n) (h : n.child i = .ok m) : Built m
  | fromJson {c : Catalog} {v : Json} {file : String} {offset : Int} {source : Text}
      {s s' : Supply} {n : Node} (hc : ∀ k ∈ c.kinds, k.Distinct)
      (h : Parse.fromJson c v file offset source s = .ok (n, s')) : Built n

theorem Sound.mono {K K' : Kind → Prop} (hK : ∀ k, K k → K' k) {n : Node} (h : n.Sound K) :
    n.Sound K' := by
  induction h with
  | missing => exact .missing
  | token hw => exact .token hw
  | list _ ih => exact .list ih
  | composite hk harity _ ih => exact .composite (hK _ hk) harity ih

theorem child_eq_ok_iff {n m : Node} {i : Int} :
    n.child i = .ok m ↔ 0 ≤ i ∧ n.children[i.toNat]? = some m := by
  cases n with
  | missing | token t => exact ⟨nofun, nofun⟩
  | list _ cs _ | composite _ _ cs _ =>
      rw [← nth?_eq_some_iff]
      unfold child
      dsimp only [children]
      cases nth? cs i with
      | none => exact ⟨nofun, nofun⟩
      | some c => exact ⟨fun h => by cases h; rfl, fun h => by cases h; rfl⟩

/-- **Every node that can be built is sound**: one operation after the other. -/
theorem Built.sound {n : Node} (h : Built n) : n.Sound Kind.Distinct := by
  induction h with
  | step hkind _ _ h hreceiver hgiven => exact Operation.run_sound hkind hreceiver hgiven h
  | child _ h ih => exact ih.children _ (List.mem_of_getElem? (child_eq_ok_iff.mp h).2)
  | fromJson hc h => exact (Parse.fromJson_sound h).mono hc

/-- A pass makes nothing that cannot be built otherwise. -/
theorem Built.closed : Closed Built where
  child hn c hc := by
    obtain ⟨i, hi⟩ := List.getElem?_of_mem hc
    exact .child (i := i) hn (child_eq_ok_iff.mpr ⟨by omega, hi⟩)
  rebuild {n m cs s s'} hn hcs h := by
    have hrun : (Operation.rebuild n (cs.map some)).run s = .ok (m, s') := h
    refine .step (fun k hk => ?_) (fun m hm => ?_) (fun c hc => ?_) hrun
    · cases hk
    · cases hm
      exact hn
    · obtain ⟨c', hc', he⟩ := List.mem_map.mp hc
      cases he
      exact hcs c hc'

/-! ### Slots -/

theorem Sound.exists_child {K : Kind → Prop} {id : Nat} {k : Kind} {cs : List Node} {w i : Nat}
    {s : Slot} (h : (Node.composite id k cs w).Sound K) (hs : k.slots[i]? = some s) :
    ∃ m, cs[i]? = some m := by
  obtain ⟨-, hk, -, -⟩ := sound_composite_iff.mp h
  have hi : i < cs.length := hk ▸ (List.getElem?_eq_some_iff.mp hs).1
  exact ⟨cs[i], List.getElem?_eq_getElem hi⟩

theorem slotName_composite {id : Nat} {k : Kind} {cs : List Node} {w : Nat} {i : Int}
    {name : String} : (Node.composite id k cs w).slotName i = .ok name ↔
      0 ≤ i ∧ ∃ s, k.slots[i.toNat]? = some s ∧ s.name = name := by
  unfold slotName
  dsimp only
  cases hi : nth? k.slots i with
  | none =>
      refine ⟨nofun, fun ⟨h, s, hs, _⟩ => ?_⟩
      cases hi.symm.trans (nth?_eq_some_iff.mpr ⟨h, hs⟩)
  | some s =>
      obtain ⟨h, hs⟩ := nth?_eq_some_iff.mp hi
      constructor
      · intro he
        cases he
        exact ⟨h, s, hs, rfl⟩
      · rintro ⟨-, s', hs', rfl⟩
        cases hs.symm.trans hs'
        rfl

/-- The child in the slot of a position is the one at the position. -/
theorem Sound.untyped_eq {c : Composite} {i : Int} {name : String}
    (h : c.toNode.Sound Kind.Distinct) (hname : c.toNode.slotName i = .ok name) :
    ∃ m, c.toNode.child i = .ok m ∧ c.untyped name = .ok m := by
  obtain ⟨hi, s, hs, rfl⟩ := slotName_composite.mp hname
  obtain ⟨m, hm⟩ := h.exists_child hs
  have hk : c.kind.Distinct := (sound_composite_iff.mp h).1
  refine ⟨m, child_eq_ok_iff.mpr ⟨hi, hm⟩, ?_⟩
  simp only [Composite.untyped, hk.slot?_eq hs, List.getD_eq_getElem?_getD, hm, Option.getD_some]

end Node

/-! ### The representation invariant -/

/-- Every node that can be built is as wide as its full text is long and has a child at every
position; a composite has as many children as its kind has slots, every slot name has a position,
and the child in a slot is the one at a position of that name. No operation accepts an absent child.
Passes over nodes that can be built, with transforms that return only such nodes, return such
nodes. -/
theorem built_representation :
    (∀ n : Node, n.Built →
      n.width = n.fullText.length ∧
      (∀ i : Int, 0 ≤ i → i < n.childCount → ∃ m, n.child i = .ok m) ∧
      ∀ c : Composite, n.composite? = some c →
        c.children.length = c.kind.arity ∧
        (∀ s ∈ c.kind.slotNames, ∃ i, n.slotName i = .ok s) ∧
        ∀ (i : Int) (s : String), n.slotName i = .ok s →
          ∃ m, n.child i = .ok m ∧ c.untyped s = .ok m) ∧
    (∀ (op : Operation) (s : Supply) (r : Node × Supply), op.run s = .ok r → none ∉ op.given) ∧
    ∀ (σ : Type) (J : σ → Prop) (fn : Transform σ) (root n : Node) (supply : Supply) (memory : σ),
      fn.Keeps Node.Built J → root.Built → J memory →
        (∀ a : Ancestors, (∀ p ∈ a.chain, p.Built) →
          (Pass.below root fn a supply memory).result = .ok n → n.Built) ∧
        ((Pass.descendants root fn supply memory).result = .ok n → n.Built) := by
  refine ⟨fun n hn => ⟨hn.sound.width_eq, ?_, ?_⟩, fun op s r => op.none_notMem_given, ?_⟩
  · intro i hi hlt
    have hlt : i.toNat < n.children.length := by
      unfold Node.childCount at hlt
      omega
    exact ⟨_, Node.child_eq_ok_iff.mpr ⟨hi, List.getElem?_eq_getElem hlt⟩⟩
  · intro c hc
    cases n with
    | composite id k cs w =>
        cases hc
        refine ⟨(Node.sound_composite_iff.mp hn.sound).2.1, ?_,
          fun i s => Node.Sound.untyped_eq (c := ⟨id, k, cs, w⟩) hn.sound⟩
        intro s hs
        -- a name of the kind stands at a position of the kind
        obtain ⟨i, hi⟩ := List.getElem?_of_mem hs
        rw [Kind.slotNames, List.getElem?_map] at hi
        obtain ⟨slot, hslot, rfl⟩ := Option.map_eq_some_iff.mp hi
        exact ⟨i, Node.slotName_composite.mpr ⟨by omega, slot, hslot, rfl⟩⟩
    | _ => cases hc
  · intro σ J fn root n supply memory hfn hroot hJ
    exact ⟨fun a ha h => Pass.below_preserves Node.Built.closed hfn hroot ha hJ h,
      fun h => Pass.descendants_preserves Node.Built.closed hfn hroot hJ h⟩

/-- The kind of a box, with one slot. -/
def boxKind : Kind := ⟨"box", "box", [⟨"content", "box_content", []⟩]⟩

/-- A word with a blank before it. -/
def boxedWord : Node := .token ⟨1, "word", [⟨"blank", " "⟩], "abc", [], 4⟩

/-- A box with the word in it. -/
def wordBox : Composite := ⟨2, boxKind, [boxedWord], 4⟩

/-- The transform that takes every token away. -/
def takeTokens : Transform Unit := fun n _ =>
  pure (some (if n.nodeClass = .token then .missing else n))

/-- A box with a word in it can be built, with the word in its slot, and so can the box that a pass
leaves empty. -/
theorem built_representation_wordBox :
    wordBox.toNode.Built ∧ wordBox.width = wordBox.toNode.fullText.length ∧
      (∃ m, wordBox.toNode.child 0 = .ok m ∧ wordBox.untyped "content" = .ok m) ∧
      (Operation.composite (some boxKind) [some boxedWord]).run 2 = .ok (wordBox.toNode, 3) ∧
      none ∉ (Operation.composite (some boxKind) [some boxedWord]).given ∧
      (Pass.descendants wordBox.toNode takeTokens 3 ()).result =
        .ok (.composite 3 boxKind [.missing] 0) ∧
      Node.Built (.composite 3 boxKind [.missing] 0) := by
  obtain ⟨hrepresented, hgiven, hpasses⟩ := built_representation
  have hnothing : Operation.missing.run 1 = .ok (.missing, 1) := rfl
  have hmissing : Node.Built .missing := by
    refine .step ?_ ?_ ?_ hnothing
    all_goals exact nofun
  have hmake : (Operation.token "word" [⟨"blank", " "⟩] "abc" []).run 1 = .ok (boxedWord, 2) := rfl
  have hword : boxedWord.Built := by
    refine .step ?_ ?_ ?_ hmake
    all_goals exact nofun
  have hrun : (Operation.composite (some boxKind) [some boxedWord]).run 2 =
      .ok (wordBox.toNode, 3) := rfl
  have hbox : wordBox.toNode.Built := by
    refine .step (fun k hk => ?_) (fun m hm => ?_) (fun m hm => ?_) hrun
    · cases hk
      decide
    · cases hm
    · cases List.mem_singleton.mp hm
      exact hword
  have hkeeps : takeTokens.Keeps Node.Built fun _ => True := by
    intro n a hn _
    refine .pure fun m hm => ?_
    obtain rfl := Option.some.inj hm
    split
    · exact hmissing
    · exact hn
  have hpass : (Pass.descendants wordBox.toNode takeTokens 3 ()).result =
      .ok (.composite 3 boxKind [.missing] 0) := rfl
  obtain ⟨hwidth, -, hslots⟩ := hrepresented _ hbox
  obtain ⟨m, hchild, hslot⟩ := (hslots wordBox rfl).2.2 0 "content" rfl
  exact ⟨hbox, hwidth, ⟨m, hchild, hslot⟩, hrun, hgiven _ _ _ hrun, hpass,
    (hpasses Unit _ _ _ _ _ _ hkeeps hbox trivial).2 hpass⟩

end Lossless
