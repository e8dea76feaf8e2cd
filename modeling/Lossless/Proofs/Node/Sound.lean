import Lossless.Node.Text

/-!
# Node — sound trees

A node carries its width, and a composite has one child for each slot of its kind.  A tree is
*sound* when both are right at every node: a token is as wide as its text with its trivia, any
other node as wide as its children together, and composites have their arity and are of kinds that
are in use (`Node.Sound`).

**Width** (`Sound.width_eq`).  A sound tree is as wide as its full text is long.

**Places** (`Sound.placed`).  The nodes of a tree stand one behind the other: a child starts where
its parent does, moved on by the widths of the children in front of it (`Node.placed`).  When the
text of a sound tree stands in a source at some position, the text of every node of it stands at the
place of that node.
-/

namespace Lossless

theorem triviaWidth_eq (ts : List Trivia) : triviaWidth ts = (triviaText ts).length := by
  induction ts with
  | nil => rfl
  | cons t ts ih => simpa [triviaWidth, triviaText] using ih

namespace Node

/-- Induction on trees: what holds of a node when it holds of its children holds of every node. -/
@[elab_as_elim]
theorem induct {motive : Node → Prop} (missing : motive .missing)
    (token : ∀ t, motive (.token t))
    (list : ∀ id items w, (∀ c ∈ items, motive c) → motive (.list id items w))
    (composite : ∀ id k cs w, (∀ c ∈ cs, motive c) → motive (.composite id k cs w)) :
    ∀ n, motive n := by
  intro n
  cases n with
  | missing => exact missing
  | token t => exact token t
  | list id items w => exact list id items w fun c _ => induct missing token list composite c
  | composite id k cs w =>
      exact composite id k cs w fun c _ => induct missing token list composite c

/-- What holds of a node when it holds of its children holds of every node. -/
@[elab_as_elim]
theorem children_induct {motive : Node → Prop}
    (step : ∀ n, (∀ c ∈ n.children, motive c) → motive n) (n : Node) : motive n := by
  induction n using induct with
  | missing => exact step _ (List.forall_mem_nil _)
  | token t => exact step _ (List.forall_mem_nil _)
  | list id items w ih => exact step _ ih
  | composite id k cs w ih => exact step _ ih

/-! ### Widths of several nodes -/

@[simp] theorem totalWidth_nil : totalWidth [] = 0 := rfl

@[simp] theorem totalWidth_cons (n : Node) (ns : List Node) :
    totalWidth (n :: ns) = n.width + totalWidth ns := rfl

/-! ### Sound trees -/

/-- Every width is that of the parts, and every composite is of a kind in `K` and has its arity. -/
inductive Sound (K : Kind → Prop) : Node → Prop where
  | missing : Sound K .missing
  | token {t : Token} (hw : t.width = t.fullText.length) : Sound K (.token t)
  | list {id : Nat} {items : List Node} (hc : ∀ c ∈ items, Sound K c) :
      Sound K (.list id items (totalWidth items))
  | composite {id : Nat} {k : Kind} {cs : List Node} (hK : K k) (hk : cs.length = k.arity)
      (hc : ∀ c ∈ cs, Sound K c) : Sound K (.composite id k cs (totalWidth cs))

variable {K : Kind → Prop}

theorem sound_list_iff {id : Nat} {items : List Node} {w : Nat} :
    (Node.list id items w).Sound K ↔ w = totalWidth items ∧ ∀ c ∈ items, c.Sound K :=
  ⟨fun h => by cases h with | list hc => exact ⟨rfl, hc⟩, fun ⟨hw, hc⟩ => hw ▸ .list hc⟩

theorem sound_composite_iff {id : Nat} {k : Kind} {cs : List Node} {w : Nat} :
    (Node.composite id k cs w).Sound K ↔
      K k ∧ cs.length = k.arity ∧ w = totalWidth cs ∧ ∀ c ∈ cs, c.Sound K :=
  ⟨fun h => by cases h with | composite hK hk hc => exact ⟨hK, hk, rfl, hc⟩,
    fun ⟨hK, hk, hw, hc⟩ => hw ▸ .composite hK hk hc⟩

theorem Sound.children {n : Node} (h : n.Sound K) : ∀ c ∈ n.children, c.Sound K := by
  cases h with
  | missing | token _ => exact nofun
  | list hc | composite _ _ hc => exact hc

theorem totalWidth_eq_length {ns : List Node} (h : ∀ n ∈ ns, n.width = n.fullText.length) :
    totalWidth ns = (fullTextAll ns).length := by
  induction ns with
  | nil => rfl
  | cons n ns ih =>
      have hn := h n (.head _)
      have hns := ih fun m hm => h m (.tail _ hm)
      simp [fullTextAll, hn, hns]

/-- **A sound tree is as wide as its full text is long.** -/
theorem Sound.width_eq {n : Node} (h : n.Sound K) : n.width = n.fullText.length := by
  induction h with
  | missing => rfl
  | token hw => exact hw
  | list _ ih | composite _ _ _ ih => exact totalWidth_eq_length ih

/-! ### Places -/

mutual
/-- The nodes of a tree that starts at a position, each with the position where it starts. -/
def placed (start : Nat) : Node → List (Nat × Node)
  | .missing => [(start, .missing)]
  | .token t => [(start, .token t)]
  | .list id items w => (start, .list id items w) :: placedAll start items
  | .composite id k cs w => (start, .composite id k cs w) :: placedAll start cs

@[inherit_doc placed]
def placedAll (start : Nat) : List Node → List (Nat × Node)
  | [] => []
  | n :: rest => placed start n ++ placedAll (start + n.width) rest
end

theorem mem_placed (start : Nat) (n : Node) : (start, n) ∈ n.placed start := by
  cases n <;> exact .head _

/-- A sound node whose text stands at its place. -/
def Stands (K : Kind → Prop) (source : Text) (p : Nat × Node) : Prop :=
  p.2.Sound K ∧ source.At p.1 p.2.fullText

/-- What each of several trees has at its places, all of them have one behind the other. -/
theorem placedAll_stands {source : Text} {ns : List Node}
    (hn : ∀ n ∈ ns, n.Sound K ∧ ∀ start, source.At start n.fullText →
      ∀ p ∈ n.placed start, Stands K source p) :
    ∀ {start : Nat}, source.At start (fullTextAll ns) →
      ∀ p ∈ placedAll start ns, Stands K source p := by
  induction ns with
  | nil => exact fun _ _ hp => nomatch hp
  | cons n ns ih =>
      intro start h p hp
      obtain ⟨hs, hn'⟩ := hn n (.head _)
      obtain ⟨h₁, h₂⟩ := Text.at_append.mp h
      -- the others start where the text of `n` ends, which is where its width ends
      rw [← hs.width_eq] at h₂
      rcases List.mem_append.mp hp with hp | hp
      · exact hn' start h₁ p hp
      · exact ih (fun m hm => hn m (.tail _ hm)) h₂ p hp

/-- **The text of every node of a sound tree stands at its place**, when the text of the tree
does. -/
theorem Sound.placed {source : Text} {n : Node} (h : n.Sound K) :
    ∀ {start : Nat}, source.At start n.fullText →
      ∀ p ∈ n.placed start, Stands K source p := by
  induction h with
  | missing =>
      intro start h p hp
      obtain rfl := List.mem_singleton.mp hp
      exact ⟨.missing, h⟩
  | token hw =>
      intro start h p hp
      obtain rfl := List.mem_singleton.mp hp
      exact ⟨.token hw, h⟩
  | list hc ih =>
      intro start h p hp
      rcases List.mem_cons.mp hp with rfl | hp
      · exact ⟨.list hc, h⟩
      · exact placedAll_stands (fun c m => ⟨hc c m, fun _ => ih c m⟩) h p hp
  | composite hK hk hc ih =>
      intro start h p hp
      rcases List.mem_cons.mp hp with rfl | hp
      · exact ⟨.composite hK hk hc, h⟩
      · exact placedAll_stands (fun c m => ⟨hc c m, fun _ => ih c m⟩) h p hp

end Node

end Lossless
