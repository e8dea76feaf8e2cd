import Lossless.Proofs.Edit.Sides
import Mathlib.Data.List.Chain

/-!
# Edit — tidied scripts

A script is `Alternating` when no two chunks that stand side by side are of the same kind.  Merging makes
a script alternate, whatever it was (`alternating_merge`): what is done ends in a kept chunk, so the next
edits or the next kept items can be told from what stands in front of them (`Closed`).

Tidying merges and slides until nothing moves.  It comes to rest, because the `weight` of a script, its
kept chunks and the items of its edits, is not raised by merging (`weight_merge`) and falls with every
sweep that moves an edit (`Slides.weight_le`), which removes a kept chunk.  The bound on the number of
sweeps is above the weight, so the last sweep moved nothing, and **a tidied script alternates**
(`alternating_tidy`).
-/

namespace Lossless.Edit.Script

variable {α : Type}

/-! ### Alternation -/

/-- No two neighbouring chunks are of the same kind. -/
def Alternating (s : Script α) : Prop := s.IsChain fun c d => c.change ≠ d.change

/-- A reversed script that alternates and does not end in an edit. -/
structure Closed (done : Script α) : Prop where
  alternating : Alternating done
  keep : ∀ c ∈ done.head?, c.change = .keep

theorem Alternating.reverse {s : Script α} (h : Alternating s) : Alternating s.reverse := by
  refine List.isChain_reverse.mpr (h.imp fun _ _ hne => hne.symm)

theorem Alternating.tail {c : Chunk α} {s : Script α} (h : Alternating (c :: s)) : Alternating s :=
  (List.isChain_cons.mp h).2

theorem closed_nil : Closed ([] : Script α) := ⟨.nil, nofun⟩

/-- A kept chunk behind an edit. -/
theorem closed_keep_cons {e : Chunk α} {done : Script α} (x : List α) (he : e.change ≠ .keep)
    (h : Alternating (e :: done)) : Closed (⟨.keep, x⟩ :: e :: done) :=
  ⟨List.isChain_cons_cons.mpr ⟨he.symm, h⟩, by simp⟩

/-- An edit behind what is closed. -/
theorem Closed.cons {e : Chunk α} {done : Script α} (h : Closed done) (he : e.change ≠ .keep) :
    Alternating (e :: done) :=
  List.isChain_cons.mpr ⟨fun c hc => (h.keep c hc).symm ▸ he, h.alternating⟩

theorem Closed.extendKept {done : Script α} (h : Closed done) (x : List α) :
    Closed (extendKept done x) := by
  unfold Script.extendKept
  split
  · next kept rest =>
      refine ⟨?_, by simp⟩
      exact List.isChain_cons.mpr (List.isChain_cons.mp h.alternating)
  · next hdone =>
      refine ⟨List.isChain_cons.mpr ⟨fun c hc => ?_, h.alternating⟩, by simp⟩
      obtain ⟨rest, rfl⟩ := List.head?_eq_some_iff.mp hc
      have hkeep := h.keep c hc
      obtain ⟨change, items⟩ := c
      cases hkeep
      exact absurd rfl (hdone items rest)

theorem Closes.closed {done edits out : Script α} {kept : List α} (h : Closes done edits kept out)
    (hdone : Closed done) : Closed out := by
  cases h with
  | nothing _ => exact hdone.extendKept kept
  | single e he _ => exact closed_keep_cons kept he (hdone.cons he)
  | both start deleted inserted finish front hfront _ =>
      have hclosed : Closed front := by
        rcases hfront with ⟨-, rfl⟩ | ⟨-, rfl⟩
        · exact hdone
        · exact hdone.extendKept start
      refine closed_keep_cons _ nofun (List.isChain_cons_cons.mpr ⟨nofun, hclosed.cons nofun⟩)

section Alternation

variable [BEq α] [LawfulBEq α]

theorem mergeEdits_closed {done : Script α} (hdone : Closed done) {p : Pending α} (hp : p.Sound)
    (s : Script α) : Closed (mergeEdits done p s) := by
  induction s generalizing done p with
  | nil => exact (closeEdits_closes done hp []).closed hdone
  | cons c rest ih =>
      rw [mergeEdits]
      split
      · exact ih ((closeEdits_closes done hp c.items).closed hdone) Pending.sound_empty
      · next hedit => exact ih hdone (hp.push hedit)

/-- **Merging** makes a script alternate. -/
theorem alternating_merge (s : Script α) : Alternating (merge s) := by
  have h := (mergeEdits_closed closed_nil Pending.sound_empty s).alternating
  unfold merge
  split
  · exact .nil
  · next last rest hcons =>
      rw [hcons] at h
      split
      · exact h.tail.reverse
      · exact h.reverse

end Alternation

/-! ### Weight -/

/-- The kept chunks of a script and the items of its edits. -/
def weight : Script α → Nat
  | [] => 0
  | c :: s => (if c.change = .keep then 1 else c.items.length) + weight s

@[simp] theorem weight_nil : weight ([] : Script α) = 0 := rfl

theorem weight_cons (c : Chunk α) (s : Script α) :
    weight (c :: s) = (if c.change = .keep then 1 else c.items.length) + weight s := rfl

@[simp] theorem weight_keep (x : List α) (s : Script α) :
    weight (⟨.keep, x⟩ :: s) = 1 + weight s := rfl

@[simp] theorem weight_delete (x : List α) (s : Script α) :
    weight (⟨.delete, x⟩ :: s) = x.length + weight s := rfl

@[simp] theorem weight_insert (x : List α) (s : Script α) :
    weight (⟨.insert, x⟩ :: s) = x.length + weight s := rfl

@[simp] theorem weight_append (s t : Script α) : weight (s ++ t) = weight s + weight t := by
  induction s with
  | nil => rw [List.nil_append, weight_nil, Nat.zero_add]
  | cons c s ih => rw [List.cons_append, weight_cons, weight_cons, ih, Nat.add_assoc]

@[simp] theorem weight_reverse (s : Script α) : weight s.reverse = weight s := by
  induction s with
  | nil => rfl
  | cons c s ih => rw [List.reverse_cons, weight_append, ih, weight_cons, weight_cons, weight_nil,
      Nat.add_zero, Nat.add_comm]

/-- The weight of edits is what is on their sides. -/
theorem weight_eq_of_edits {s : Script α} (h : ∀ c ∈ s, c.change ≠ .keep) :
    weight s = (source s).length + (target s).length := by
  induction s with
  | nil => rfl
  | cons c s ih =>
      obtain ⟨hc, hs⟩ := List.forall_mem_cons.mp h
      obtain ⟨change, items⟩ := c
      cases change with
      | keep => exact absurd rfl hc
      | delete | insert =>
          simp [ih hs]
          omega

/-- Edits with the same sides have the same weight. -/
theorem SameSides.weight_eq {s t : Script α} (h : SameSides s t) (hs : ∀ c ∈ s, c.change ≠ .keep)
    (ht : ∀ c ∈ t, c.change ≠ .keep) : weight s = weight t := by
  rw [weight_eq_of_edits hs, weight_eq_of_edits ht, h.1, h.2]

theorem weight_extendKept (done : Script α) (x : List α) :
    weight (extendKept done x) ≤ weight done + 1 := by
  unfold extendKept
  split
  · simp
  · rw [weight_keep]
    omega

/-- Closing edits in front of a kept chunk raises the weight by that chunk at most, and not at all when
the chunk has only what the edits have in common. -/
theorem Closes.weight_le {done edits out : Script α} {kept : List α} (h : Closes done edits kept out)
    (hedits : ∀ c ∈ edits, c.change ≠ .keep) :
    ∃ x rest, out = ⟨.keep, x⟩ :: rest ∧ weight rest ≤ weight done + weight edits ∧
      (kept = [] → x ≠ [] → weight rest + 1 ≤ weight done + weight edits) := by
  cases h with
  | nothing h =>
      subst h
      unfold extendKept
      split
      · next items rest =>
          refine ⟨items ++ kept, rest, rfl, ?_, fun _ _ => ?_⟩
          all_goals
            rw [weight_keep, weight_nil]
            omega
      · exact ⟨kept, done, rfl, by simp, absurd⟩
  | single e he h =>
      refine ⟨kept, e :: done, rfl, ?_, absurd⟩
      have hweight : weight edits = weight [e] := h.weight_eq hedits (by simpa using he)
      rw [← List.singleton_append, weight_append, hweight]
      omega
  | both start deleted inserted finish front hfront h =>
      have hweight : weight edits = _ := h.weight_eq hedits (by simp)
      -- what the edits share at their start goes to the chunk in front
      have hfrontWeight : weight front ≤ weight done + start.length := by
        rcases hfront with ⟨-, rfl⟩ | ⟨hne, rfl⟩
        · omega
        · have := weight_extendKept done start
          have := List.length_pos_of_ne_nil hne
          omega
      simp only [weight_delete, weight_insert, List.length_append, weight_nil] at hweight
      refine ⟨finish ++ kept, _, rfl, ?_, fun hkept hne => ?_⟩
      · rw [weight_insert, weight_delete]
        omega
      · have hpos : 0 < finish.length := by
          refine List.length_pos_of_ne_nil ?_
          simpa [hkept] using hne
        rw [weight_insert, weight_delete]
        omega

/-- An edit that moves costs one of the two kept chunks around it. -/
theorem Slides.weight_le {s out : Script α} {moves : Bool} (h : Slides s out moves) :
    weight out + moves.toNat ≤ weight s := by
  induction h with
  | nil => simp
  | stay c _ ih =>
      rw [weight_cons, weight_cons]
      omega
  | back change x y z _ ih =>
      simp only [weight_cons, List.length_append, if_pos, Bool.toNat_true] at ih ⊢
      rw [Nat.add_comm y.length]
      omega
  | on change x y z _ ih =>
      simp only [weight_cons, List.length_append, if_pos, Bool.toNat_true] at ih ⊢
      rw [Nat.add_comm z.length]
      omega

theorem Slides.eq_of_still {s out : Script α} {moves : Bool} (h : Slides s out moves)
    (hstill : moves = false) : out = s := by
  induction h with
  | nil => rfl
  | stay c _ ih => rw [ih hstill]
  | back | on => cases hstill

/-- The bound on the number of sweeps is high enough. -/
theorem weight_lt_sweeps (s : Script α) : weight s < s.sweeps := by
  have hle : weight s ≤ s.length + (s.map (·.items.length)).foldr (· + ·) 0 := by
    induction s with
    | nil => simp
    | cons c s ih =>
        rw [weight_cons, List.map_cons, List.foldr_cons, List.length_cons]
        split <;> omega
  rw [sweeps]
  exact Nat.lt_of_lt_of_le (by omega) (Nat.le_mul_of_pos_left _ (Nat.succ_pos _))

section Weight

variable [BEq α] [LawfulBEq α]

theorem weight_mergeEdits (done : Script α) {p : Pending α} (hp : p.Sound) (s : Script α) :
    ∃ x rest, mergeEdits done p s = ⟨.keep, x⟩ :: rest ∧
      weight rest + (if x = [] then 0 else 1) ≤ weight done + weight p.edits + weight s := by
  induction s generalizing done p with
  | nil =>
      obtain ⟨x, rest, heq, hle, hlast⟩ := (closeEdits_closes done hp []).weight_le hp.edit
      refine ⟨x, rest, heq, ?_⟩
      split
      · exact hle
      · next hne => exact hlast rfl hne
  | cons c s ih =>
      rw [mergeEdits]
      split
      · next hkeep =>
          obtain ⟨x, rest, heq, hle, -⟩ := (closeEdits_closes done hp c.items).weight_le hp.edit
          obtain ⟨y, others, hmerge, hweight⟩ := ih (closeEdits done p c.items) Pending.sound_empty
          refine ⟨y, others, hmerge, hweight.trans ?_⟩
          rw [heq, weight_keep, weight_cons, if_pos hkeep, weight_nil]
          omega
      · next hedit =>
          obtain ⟨y, others, hmerge, hweight⟩ := ih done (hp.push hedit)
          refine ⟨y, others, hmerge, hweight.trans ?_⟩
          rw [Pending.edits_push, weight_append, weight_cons, weight_cons, weight_nil]
          omega

/-- Merging makes no script heavier: it adds a kept chunk only for what it takes out of the edits. -/
theorem weight_merge (s : Script α) : weight (merge s) ≤ weight s := by
  obtain ⟨x, rest, heq, hle⟩ := weight_mergeEdits [] Pending.sound_empty s
  simp only [weight_nil, Nat.zero_add] at hle
  unfold merge
  rw [heq]
  cases x with
  | nil => simpa using hle
  | cons => simpa [Nat.add_comm] using hle

/-- Enough sweeps come to rest, and what has come to rest is a merged script. -/
theorem exists_merge_of_weight_lt {fuel : Nat} {s : Script α} (h : weight s < fuel) :
    ∃ t, tidyLoop fuel s = merge t := by
  induction fuel generalizing s with
  | zero => omega
  | succ fuel ih =>
      have hmerge := weight_merge s
      unfold tidyLoop
      split
      · next hnil => exact ⟨s, hnil.symm⟩
      · next first rest hcons =>
          have hslide := slide_slides first rest
          rw [hcons] at hmerge
          dsimp only
          split
          · next hmoves =>
              have hless := hslide.weight_le
              rw [hmoves, Bool.toNat_true] at hless
              -- a round that moves something makes the script lighter
              exact ih (by omega)
          · next hstill =>
              refine ⟨s, ?_⟩
              rw [hcons]
              exact hslide.eq_of_still (Bool.eq_false_iff.mpr hstill)

/-- **A tidied script alternates.** -/
theorem alternating_tidy (s : Script α) : Alternating (tidy s) := by
  obtain ⟨t, ht⟩ := exists_merge_of_weight_lt (weight_lt_sweeps s)
  rw [tidy, ht]
  exact alternating_merge t

/-- The script between two sequences is tidied at last, or has no edits at all. -/
theorem alternating_between (a b : List α) : Alternating (between a b) := by
  unfold between betweenLoop
  split
  · split
    · exact .nil
    · exact .singleton _
  · exact alternating_tidy _

end Weight

end Lossless.Edit.Script
