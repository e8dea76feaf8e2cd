import Lossless.Proofs.Ensures
import Lossless.Proofs.Pass.Eager

/-!
# Pass — what a pass preserves

Whatever a pass returns is made of nodes of its input by building anew and by calling the transform.
So a set of nodes that contains the input, with every node its children and all nodes built anew
from nodes of the set (`Node.Closed`), and that the transform does not leave (`Transform.Keeps`),
contains the result (`below_preserves`, `descendants_preserves`).
-/

namespace Lossless

variable {σ : Type} {S : Node → Prop} {J : σ → Prop} {fn : Transform σ}

/-- A set of nodes with their children and with all nodes built anew. -/
structure Node.Closed (S : Node → Prop) : Prop where
  child : ∀ {n : Node}, S n → ∀ c ∈ n.children, S c
  rebuild : ∀ {n m : Node} {cs : List Node} {s s' : Supply}, S n → (∀ c ∈ cs, S c) →
    n.rebuild (cs.map some) s = .ok (m, s') → S m

/-- A transform that, for a node of a set with ancestors in it, returns nodes of the set only. Its
memory stays in `J`. -/
def Transform.Keeps (fn : Transform σ) (S : Node → Prop) (J : σ → Prop) : Prop :=
  ∀ n a, S n → (∀ p ∈ a.chain, S p) →
    Ensures (fun s => J s.2) (fn n a) (fun r => ∀ m, r = some m → S m) fun _ => True

namespace Pass

/-- What holds of the memory of a pass. -/
def Remembers (J : σ → Prop) (s : PassState σ) : Prop := J s.memory

theorem count_ensures (f : Stats → Stats) :
    Ensures (Remembers J) (count f) (fun _ => True) fun _ => True := fun _ hs => ⟨hs, trivial⟩

theorem making_ensures {α : Type} {Q : α → Prop} {m : Make Failure α}
    (h : ∀ s a s', m s = .ok (a, s') → Q a) :
    Ensures (Remembers J) (making m) Q fun _ => True := by
  intro s hs
  unfold making
  cases hm : m s.supply with
  | error e => exact ⟨hs, trivial⟩
  | ok r => exact ⟨hs, h _ _ _ hm⟩

theorem call_ensures (hfn : fn.Keeps S J) {n : Node} {a : Ancestors} (hn : S n)
    (ha : ∀ p ∈ a.chain, S p) :
    Ensures (Remembers J) (call fn n a) (fun r => ∀ m, r = some m → S m) fun _ => True :=
  fun s hs => hfn n a hn ha (s.supply, s.memory) hs

theorem apply_ensures (hfn : fn.Keeps S J) {n : Node} {a : Ancestors} (hn : S n)
    (ha : ∀ p ∈ a.chain, S p) : Ensures (Remembers J) (apply fn a n) S fun _ => True := by
  refine .bind (count_ensures _) fun _ _ => ?_
  refine .bind (.handle (call_ensures hfn hn ha) fun _ _ => .throw trivial) fun r hr => ?_
  cases r with
  | none => exact .throw trivial
  | some m =>
      dsimp only
      split
      · exact .pure (hr m rfl)
      · exact .bind (count_ensures _) fun _ _ => .pure (hr m rfl)

theorem regrow_ensures (hS : Node.Closed S) {n : Node} {changed : Option (List Node)} (hn : S n)
    (hc : ∀ cs, changed = some cs → ∀ c ∈ cs, S c) :
    Ensures (Remembers J) (regrow n changed) S fun _ => True := by
  cases changed with
  | none => exact .pure hn
  | some cs =>
      refine .bind (.handle (making_ensures ?_) fun _ _ => .throw trivial) fun m hm =>
        .bind (count_ensures _) fun _ _ => .pure hm
      intro s m s' h
      unfold orFail at h
      split at h
      · next r hr => cases h; exact hS.rebuild hn (hc cs rfl) hr
      · cases h

/-- What a pass puts in the place of a node with the children `cs`, for which it has `rs`. -/
theorem regrow_changes_ensures (hS : Node.Closed S) {n : Node} {rs : List Node} (hn : S n)
    (hrs : ∀ r ∈ rs, S r) :
    Ensures (Remembers J) (regrow n (changes n.children rs)) S fun _ => True := by
  refine regrow_ensures hS hn fun xs hxs x hx => ?_
  rcases mem_of_changes hxs x hx with hx | hx
  · exact hS.child hn x hx
  · exact hrs x hx

mutual
theorem eager_ensures (hS : Node.Closed S) (hfn : fn.Keeps S J) :
    ∀ (n : Node) {a : Ancestors}, S n → (∀ p ∈ a.chain, S p) →
      Ensures (Remembers J) (eager fn a n) S fun _ => True
  | .missing, _, hn, ha => apply_ensures hfn hn ha
  | .token _, _, hn, ha => apply_ensures hfn hn ha
  | .list _ items _, _, hn, ha =>
      .bind (eagerAll_ensures hS hfn items (hS.child hn) (List.forall_mem_cons.mpr ⟨hn, ha⟩))
        fun _ hrs => .bind (regrow_changes_ensures hS hn hrs) fun _ hm => apply_ensures hfn hm ha
  | .composite _ _ cs _, _, hn, ha =>
      .bind (eagerAll_ensures hS hfn cs (hS.child hn) (List.forall_mem_cons.mpr ⟨hn, ha⟩))
        fun _ hrs => .bind (regrow_changes_ensures hS hn hrs) fun _ hm => apply_ensures hfn hm ha

theorem eagerAll_ensures (hS : Node.Closed S) (hfn : fn.Keeps S J) :
    ∀ (cs : List Node) {a : Ancestors}, (∀ c ∈ cs, S c) → (∀ p ∈ a.chain, S p) →
      Ensures (Remembers J) (eagerAll fn a cs) (fun rs => ∀ r ∈ rs, S r) fun _ => True
  | [], _, _, _ => .pure nofun
  | c :: cs, _, hcs, ha =>
      .bind (eager_ensures hS hfn c (hcs c (.head _)) ha) fun _ hr =>
        .bind (eagerAll_ensures hS hfn cs (fun c' h => hcs c' (.tail _ h)) ha) fun _ hrs =>
          .pure (List.forall_mem_cons.mpr ⟨hr, hrs⟩)
end

variable {root n : Node} {a : Ancestors} {supply : Supply} {memory : σ}

/-- A pass below ancestors returns a node of every set that it does not leave. -/
theorem below_preserves (hS : Node.Closed S) (hfn : fn.Keeps S J) (hroot : S root)
    (ha : ∀ p ∈ a.chain, S p) (hJ : J memory)
    (h : (below root fn a supply memory).result = .ok n) : S n := by
  have hr := (eager_ensures hS hfn root hroot ha ⟨supply, {}, memory⟩ hJ).2
  rw [below_eq] at h
  have h : (eager fn a root ⟨supply, {}, memory⟩).1 = .ok n := h
  rw [h] at hr
  exact hr

/-- So does a pass over everything below a node. -/
theorem descendants_preserves (hS : Node.Closed S) (hfn : fn.Keeps S J) (hroot : S root)
    (hJ : J memory) (h : (descendants root fn supply memory).result = .ok n) : S n := by
  have hensures : Ensures (Remembers J) (visitBelow fn {} root) S fun _ => True := by
    rw [visitBelow_eq]
    refine .bind (eagerAll_ensures hS hfn root.children (hS.child hroot) ?_) fun _ hrs =>
      regrow_changes_ensures hS hroot hrs
    exact List.forall_mem_cons.mpr ⟨hroot, nofun⟩
  have hr := (hensures ⟨supply, {}, memory⟩ hJ).2
  have h : (visitBelow fn {} root ⟨supply, {}, memory⟩).1 = .ok n := h
  rw [h] at hr
  exact hr

end Pass

end Lossless
