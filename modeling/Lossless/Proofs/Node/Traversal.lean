import Lossless.Proofs.Node.PreOrder

/-!
# Node — walks

A consumer that is given the nodes of a list (`Consumer.feed`) takes them up to the first that it wants
nothing behind.  Both walks give a consumer the nodes of a list so: the loop with a stack those of
`preOrder`, as what is still to come is always the pre-order of the stack (`walkStack_eq`), and the
recursion those of `postOrder` (`walkUp_eq`).

**Walks** (`traversals_agree`).  The walks give a consumer a node and then the trees of its children, or
the trees of its children and then the node, and no more than it wants; both go through the same
positions, and what is looked for in a tree is found by the walk in pre-order.
-/

namespace Lossless.Node

open Consumer

variable {σ α : Type}

/-! ### Consumers -/

namespace Consumer

/-- Gives a consumer the nodes of a list, as long as it wants more. -/
def feed (yield : Consumer σ) : List Node → σ → Bool × σ
  | [], s => (true, s)
  | n :: ns, s => ifWanted (yield n s) (feed yield ns)

theorem ifWanted_self (r : Bool × σ) : ifWanted r (Prod.mk true) = r := by
  obtain ⟨_ | _, s⟩ := r <;> rfl

theorem ifWanted_assoc (r : Bool × σ) (next last : σ → Bool × σ) :
    ifWanted (ifWanted r next) last = ifWanted r fun s => ifWanted (next s) last := by
  obtain ⟨_ | _, s⟩ := r <;> rfl

theorem feed_singleton (yield : Consumer σ) (n : Node) (s : σ) : feed yield [n] s = yield n s :=
  ifWanted_self (yield n s)

/-- A second list is begun only when more is wanted after the first. -/
theorem feed_append (yield : Consumer σ) (ns ms : List Node) (s : σ) :
    feed yield (ns ++ ms) s = ifWanted (feed yield ns s) (feed yield ms) := by
  induction ns generalizing s with
  | nil => rfl
  | cons n ns ih =>
      rw [List.cons_append, feed, feed, ifWanted_assoc]
      exact congrArg _ (funext ih)

/-- **Stopping**: a consumer that stops among the first nodes is given no other ones. -/
theorem feed_eq_take {yield : Consumer σ} {ns : List Node} {s : σ} {k : Nat}
    (h : (feed yield (ns.take k) s).1 = false) :
    feed yield ns s = feed yield (ns.take k) s := by
  conv_lhs => rw [← List.take_append_drop k ns, feed_append]
  rw [ifWanted, h]
  rfl

theorem feed_forEach (body : σ → Node → σ) (ns : List Node) (s : σ) :
    feed (forEach body) ns s = (true, ns.foldl body s) := by
  induction ns generalizing s with
  | nil => rfl
  | cons n ns ih => exact ih (body s n)

/-- A consumer that still takes `k + 1` nodes takes as many of the first ones. -/
theorem feed_upTo (body : σ → Node → σ) (ns : List Node) (i k : Nat) (s : σ) :
    (feed (upTo (i + k + 1) body) ns (i, s)).2.2 = (ns.take (k + 1)).foldl body s := by
  induction ns generalizing i k s with
  | nil => rfl
  | cons n ns ih =>
      rw [feed, upTo]
      cases k with
      | zero =>
          rw [ifWanted, if_neg (by simp)]
          rfl
      | succ k =>
          have h := ih (i + 1) k (body s n)
          rw [show i + 1 + k + 1 = i + (k + 1) + 1 by omega] at h
          rw [ifWanted, if_pos (by simp), h]
          rfl

theorem foldl_collect (pick : Node → Option α) (ns : List Node) (found : List α) :
    ns.foldl (fun found n => found ++ (pick n).toList) found = found ++ ns.filterMap pick := by
  induction ns generalizing found with
  | nil => rw [List.foldl_nil, List.filterMap_nil, List.append_nil]
  | cons n ns ih =>
      rw [List.foldl_cons, ih, List.filterMap_cons, List.append_assoc]
      cases pick n <;> rfl

end Consumer

/-- A walk gives every consumer the nodes of a list: all of them when it goes through all, none but the
first ones when it stops among these, and the first `k` when it stops after `k`. -/
structure Gives (walk : {σ : Type} → Consumer σ → σ → σ) (ns : List Node) : Prop where
  feeds {σ : Type} (yield : Consumer σ) (s : σ) : walk yield s = (feed yield ns s).2
  all {σ : Type} (body : σ → Node → σ) (s : σ) : walk (forEach body) s = ns.foldl body s
  stops {σ : Type} (yield : Consumer σ) (s : σ) (k : Nat) :
    (feed yield (ns.take k) s).1 = false → walk yield s = (feed yield (ns.take k) s).2
  upTo {σ : Type} (body : σ → Node → σ) (s : σ) (k : Nat) :
    (walk (upTo (k + 1) body) (0, s)).2 = (ns.take (k + 1)).foldl body s

theorem Gives.of_feed {walk : {σ : Type} → Consumer σ → σ → σ} {ns : List Node}
    (h : ∀ {σ : Type} (yield : Consumer σ) s, walk yield s = (feed yield ns s).2) :
    Gives walk ns where
  feeds := h
  all body s := by rw [h, feed_forEach]
  stops yield s k hk := by rw [h, feed_eq_take hk]
  upTo body s k := by
    have htake := feed_upTo body ns 0 k s
    rw [Nat.zero_add] at htake
    rw [h, htake]

/-- A walk of some nodes collects what is picked from them. -/
theorem Gives.collects {walk : {σ : Type} → Consumer σ → σ → σ} {ns : List Node}
    (h : Gives walk ns) (pick : Node → Option α) : walk (collect pick) [] = ns.filterMap pick := by
  rw [collect, h.all, foldl_collect, List.nil_append]

/-! ### The loop and the recursion -/

/-- The loop gives what is left on the stack, tree by tree. -/
theorem walkStack_eq (yield : Consumer σ) (stack : List Node) (s : σ) :
    walkStack yield stack s = feed yield (preOrderStack stack) s := by
  -- by the loop, which goes on with the children in front of the rest
  fun_induction preOrderStack stack generalizing s with
  | case1 => rw [walkStack, feed]
  | case2 n stack ih =>
      rw [walkStack, feed, pushReversed_eq]
      exact congrArg _ (funext ih)

theorem walkPreOrder_gives (n : Node) : Gives n.walkPreOrder n.preOrder :=
  .of_feed fun yield s => congrArg Prod.snd (walkStack_eq yield [n] s)

mutual
theorem walkUp_eq (yield : Consumer σ) : ∀ (n : Node) (s : σ),
    walkUp yield n s = feed yield n.postOrder s
  | .missing, s | .token _, s => (feed_singleton yield _ s).symm
  | .list id items w, s => by
      rw [walkUp, postOrder, feed_append, walkUpAll_eq yield items s]
      exact congrArg _ (funext fun s => (feed_singleton yield _ s).symm)
  | .composite id k cs w, s => by
      rw [walkUp, postOrder, feed_append, walkUpAll_eq yield cs s]
      exact congrArg _ (funext fun s => (feed_singleton yield _ s).symm)

theorem walkUpAll_eq (yield : Consumer σ) : ∀ (ns : List Node) (s : σ),
    walkUpAll yield ns s = feed yield (postOrderAll ns) s
  | [], _ => rfl
  | n :: ns, s => by
      rw [walkUpAll, postOrderAll, feed_append, walkUp_eq yield n s]
      exact congrArg _ (funext (walkUpAll_eq yield ns))
end

theorem walkPostOrder_gives (n : Node) : Gives n.walkPostOrder n.postOrder :=
  .of_feed fun yield s => congrArg Prod.snd (walkUp_eq yield n s)

theorem postOrderAll_eq (ns : List Node) : postOrderAll ns = ns.flatMap postOrder := by
  induction ns with
  | nil => rfl
  | cons n ns ih => rw [postOrderAll, List.flatMap_cons, ih]

/-! ### The positions of both orders -/

theorem topDownAll_perm {ns : List Node} (h : ∀ n ∈ ns, n.topDown.Perm n.positions) (i : Nat) :
    (topDownAll i ns).Perm (positionsAll i ns) := by
  induction ns generalizing i with
  | nil => exact .nil
  | cons n ns ih =>
      rw [topDownAll, positionsAll]
      exact ((h n (.head _)).map _).append (ih (fun m hm => h m (.tail _ hm)) _)

/-- Both orders list the same positions. -/
theorem topDown_perm (n : Node) : n.topDown.Perm n.positions := by
  induction n using children_induct with
  | step n ih =>
      rw [topDown_eq, positions_eq]
      exact ((topDownAll_perm ih 0).cons []).trans (List.perm_append_singleton _ _).symm

theorem mem_positions_iff {n : Node} {p : Position} : p ∈ n.positions ↔ ∃ m, n.at? p = some m := by
  refine ⟨fun hp => ?_, fun ⟨_, hm⟩ => mem_positions_of_at? hm⟩
  have hat : n.at? p ∈ n.postOrder.map some := map_at?_positions n ▸ List.mem_map_of_mem hp
  obtain ⟨m, -, hm⟩ := List.mem_map.mp hat
  exact ⟨m, hm.symm⟩

/-! ### What is looked for -/

/-- What is picked from nodes and made a node again is a part of the nodes. -/
theorem map_filterMap_eq_filter {pick : Node → Option α} {node : α → Node} {p : Node → Bool}
    (h : ∀ n, (pick n).map node = if p n then some n else none) (ns : List Node) :
    (ns.filterMap pick).map node = ns.filter p := by
  rw [List.map_filterMap, ← List.filterMap_eq_filter]
  refine List.filterMap_congr fun n _ => (h n).trans ?_
  rw [Option.guard]

theorem map_toNode_findKind (kind : String) (n : Node) :
    (n.findKind kind).map Composite.toNode =
      n.preOrder.filter fun m => m.nodeClass = .composite ∧ m.kind = kind := by
  refine map_filterMap_eq_filter (fun m => ?_) _
  cases m with
  | composite id k cs w =>
      by_cases h : k.name = kind
      · simp [composite?, nodeClass, Node.kind, h, Composite.toNode]
      · simp [composite?, nodeClass, Node.kind, h]
  | _ => simp [composite?, nodeClass]

theorem map_token_tokens (n : Node) :
    n.tokens.map .token = n.preOrder.filter fun m => m.nodeClass = .token := by
  refine map_filterMap_eq_filter (fun m => ?_) _
  cases m <;> simp [token?, nodeClass]

theorem collect_find (p : Node → Bool) (n : Node) :
    n.walkPreOrder (collect (Option.guard p)) [] = n.find p := by
  rw [(walkPreOrder_gives n).collects, List.filterMap_eq_filter, find]

/-! ### Walks -/

/-- The walk in pre-order gives a consumer a node and then the trees of its children, the one in
post-order the trees of the children and then the node, and each stops as the consumer does. Both list
the positions of the tree, each of them once. The walk in pre-order that collects what is looked for
finds the nodes that satisfy a predicate, are composites of a kind or are tokens, in their order. -/
theorem traversals_agree (n : Node) :
    ((n.preOrder = n :: n.children.flatMap preOrder ∧
        n.postOrder = n.children.flatMap postOrder ++ [n]) ∧
      Gives n.walkPreOrder n.preOrder ∧ Gives n.walkPostOrder n.postOrder) ∧
    ((n.topDown.map n.at? = n.preOrder.map some ∧ n.positions.map n.at? = n.postOrder.map some) ∧
      (n.topDown.Perm n.positions ∧ n.positions.Nodup ∧ n.positions.length = n.size) ∧
      ∀ p, p ∈ n.positions ↔ ∃ m, n.at? p = some m) ∧
    (∀ p, n.walkPreOrder (collect (Option.guard p)) [] = n.find p ∧
      n.find p = n.preOrder.filter p) ∧
    (∀ kind,
      n.walkPreOrder (collect fun m => m.composite?.filter (·.kind.name = kind)) [] =
        n.findKind kind ∧
      (n.findKind kind).map Composite.toNode =
        n.preOrder.filter fun m => m.nodeClass = .composite ∧ m.kind = kind) ∧
    n.walkPreOrder (collect token?) [] = n.tokens ∧
      n.tokens.map .token = n.preOrder.filter fun m => m.nodeClass = .token := by
  have hpre := walkPreOrder_gives n
  have hrec : n.postOrder = n.children.flatMap postOrder ++ [n] := by
    rw [postOrder_eq, postOrderAll_eq]
  have hplaces : n.topDown.Perm n.positions ∧ n.positions.Nodup ∧ n.positions.length = n.size :=
    ⟨topDown_perm n, nodup_positions n, length_positions n⟩
  exact ⟨⟨⟨preOrder_eq n, hrec⟩, hpre, walkPostOrder_gives n⟩,
    ⟨⟨map_at?_topDown n, map_at?_positions n⟩, hplaces, fun _ => mem_positions_iff⟩,
    fun p => ⟨collect_find p n, rfl⟩,
    fun kind => ⟨hpre.collects _, map_toNode_findKind kind n⟩, hpre.collects _, map_token_tokens n⟩

end Lossless.Node
