import Lossless.Edit.Script
import Mathlib.Data.List.Basic

/-!
# Edit — the two sides of a script

What a script starts from and what it ends with are its sides.  Two scripts have the `SameSides` when
both agree; this is a congruence for standing one behind the other.

Tidying a script stays within it, and what one step of tidying can do is said once:

* `Closes` for the edits in front of a kept chunk (`closeEdits_closes`).  Merging reads a script from the
  front and keeps what is done in reverse, so statements about it are about
  `done.reverse ++ edits ++ rest`.
* `Slides` for the edits between two kept chunks (`slide_slides`).

So merging, sliding and any number of sweeps of both keep the sides (`merge_sameSides`,
`tidy_sameSides`).
-/

namespace Lossless.Edit.Script

variable {α : Type}

/-! ### Sides -/

@[simp] theorem source_nil : source ([] : Script α) = [] := rfl

@[simp] theorem target_nil : target ([] : Script α) = [] := rfl

@[simp] theorem source_append (s t : Script α) : source (s ++ t) = source s ++ source t :=
  List.flatMap_append

@[simp] theorem target_append (s t : Script α) : target (s ++ t) = target s ++ target t :=
  List.flatMap_append

@[simp] theorem source_keep (x : List α) (s : Script α) :
    source (⟨.keep, x⟩ :: s) = x ++ source s := rfl

@[simp] theorem target_keep (x : List α) (s : Script α) :
    target (⟨.keep, x⟩ :: s) = x ++ target s := rfl

@[simp] theorem source_delete (x : List α) (s : Script α) :
    source (⟨.delete, x⟩ :: s) = x ++ source s := rfl

@[simp] theorem target_delete (x : List α) (s : Script α) :
    target (⟨.delete, x⟩ :: s) = target s := rfl

@[simp] theorem source_insert (x : List α) (s : Script α) :
    source (⟨.insert, x⟩ :: s) = source s := rfl

@[simp] theorem target_insert (x : List α) (s : Script α) :
    target (⟨.insert, x⟩ :: s) = x ++ target s := rfl

/-- Two scripts lead from the same sequence to the same sequence. -/
def SameSides (s t : Script α) : Prop := s.source = t.source ∧ s.target = t.target

namespace SameSides

variable {s s' t t' u : Script α}

theorem refl (s : Script α) : SameSides s s := ⟨rfl, rfl⟩

theorem symm (h : SameSides s t) : SameSides t s := ⟨h.1.symm, h.2.symm⟩

theorem trans (h : SameSides s t) (h' : SameSides t u) : SameSides s u :=
  ⟨h.1.trans h'.1, h.2.trans h'.2⟩

theorem append (h : SameSides s s') (h' : SameSides t t') : SameSides (s ++ t) (s' ++ t') := by
  simp [SameSides, h.1, h.2, h'.1, h'.2]

theorem cons (c : Chunk α) (h : SameSides s t) : SameSides (c :: s) (c :: t) :=
  (refl [c]).append h

end SameSides

/-- A chunk without items makes no difference. -/
theorem sameSides_empty (change : Change) : SameSides [⟨change, ([] : List α)⟩] [] := by
  cases change <;> simp [SameSides]

/-! ### Common parts -/

section Common

variable [BEq α]

theorem commonStart_le_left (a b : List α) : commonStart a b ≤ a.length := by
  fun_induction commonStart a b with
  | case1 a as b bs heq ih => exact Nat.succ_le_succ ih
  | case2 | case3 => exact Nat.zero_le _

theorem commonStart_le_right (a b : List α) : commonStart a b ≤ b.length := by
  fun_induction commonStart a b with
  | case1 a as b bs heq ih => exact Nat.succ_le_succ ih
  | case2 | case3 => exact Nat.zero_le _

theorem commonEnd_le_left (a b : List α) : commonEnd a b ≤ a.length := by
  simpa [commonEnd] using commonStart_le_left a.reverse b.reverse

theorem commonEnd_le_right (a b : List α) : commonEnd a b ≤ b.length := by
  simpa [commonEnd] using commonStart_le_right a.reverse b.reverse

variable [LawfulBEq α]

theorem take_commonStart (a b : List α) : a.take (commonStart a b) = b.take (commonStart a b) := by
  fun_induction commonStart a b with
  | case1 a as b bs heq ih => rw [List.take_succ_cons, List.take_succ_cons, beq_iff_eq.mp heq, ih]
  | case2 | case3 => rfl

theorem drop_commonEnd (a b : List α) :
    a.drop (a.length - commonEnd a b) = b.drop (b.length - commonEnd a b) := by
  have h := take_commonStart a.reverse b.reverse
  rw [List.take_reverse, List.take_reverse] at h
  exact List.reverse_injective h

/-- Two sequences in three parts each: their common start, what is in between, and the common end of what
is behind the start. -/
theorem eq_between_common (a b : List α) :
    let n := commonStart a b
    let m := commonEnd (a.drop n) (b.drop n)
    a = a.take n ++ (a.drop n).take ((a.drop n).length - m)
        ++ (a.drop n).drop ((a.drop n).length - m) ∧
      b = a.take n ++ (b.drop n).take ((b.drop n).length - m)
        ++ (a.drop n).drop ((a.drop n).length - m) := by
  intro n m
  have hstart : a.take n = b.take n := take_commonStart a b
  have hend : (a.drop n).drop ((a.drop n).length - m) = (b.drop n).drop ((b.drop n).length - m) :=
    drop_commonEnd _ _
  constructor
  · rw [List.append_assoc, List.take_append_drop, List.take_append_drop]
  · rw [hend, hstart, List.append_assoc, List.take_append_drop, List.take_append_drop]

end Common

/-! ### Merging -/

/-- What is known of the edits that were collected: none of them is a kept chunk, they are counted, and
their items are their two sides. -/
structure Pending.Sound (p : Pending α) : Prop where
  edit : ∀ c ∈ p.edits, c.change ≠ .keep
  length : p.edits.length = p.deletions + p.insertions
  source : source p.edits = p.deleted
  target : target p.edits = p.inserted
  deleted : p.deletions = 0 → p.deleted = []
  inserted : p.insertions = 0 → p.inserted = []

theorem Pending.sound_empty : ({} : Pending α).Sound :=
  ⟨nofun, rfl, rfl, rfl, fun _ => rfl, fun _ => rfl⟩

@[simp] theorem Pending.edits_push (p : Pending α) (c : Chunk α) :
    (p.push c).edits = p.edits ++ [c] := by
  unfold push
  split <;> rfl

theorem Pending.Sound.push {p : Pending α} (h : p.Sound) {c : Chunk α} (hc : c.change ≠ .keep) :
    (p.push c).Sound := by
  have hedit : ∀ d ∈ (p.push c).edits, d.change ≠ .keep := by
    rw [edits_push]
    exact List.forall_mem_append.mpr ⟨h.edit, List.forall_mem_singleton.mpr hc⟩
  obtain ⟨change, items⟩ := c
  cases change with
  | keep => exact absurd rfl hc
  | delete =>
      refine ⟨hedit, ?_, ?_, ?_, ?_, h.inserted⟩
      · simp [Pending.push, h.length]
        omega
      · simp [Pending.push, h.source]
      · simp [Pending.push, h.target]
      · simp [Pending.push]
  | insert =>
      refine ⟨hedit, ?_, ?_, ?_, h.deleted, ?_⟩
      · simp [Pending.push, h.length]
        omega
      · simp [Pending.push, h.source]
      · simp [Pending.push, h.target]
      · simp [Pending.push]

/-- What becomes of the reversed script `done` when edits are closed in front of a kept chunk: without
edits the chunk goes to the kept one that is done; what is a single edit stands in between; a deletion
and an insertion stand in between without the start and the end that they have in common. -/
inductive Closes (done edits : Script α) (kept : List α) : Script α → Prop where
  | nothing (h : edits = []) : Closes done edits kept (extendKept done kept)
  | single (e : Chunk α) (he : e.change ≠ .keep) (h : SameSides edits [e]) :
      Closes done edits kept (⟨.keep, kept⟩ :: e :: done)
  | both (start deleted inserted finish : List α) (front : Script α)
      (hfront : (start = [] ∧ front = done) ∨ (start ≠ [] ∧ front = extendKept done start))
      (h : SameSides edits
        [⟨.delete, start ++ deleted ++ finish⟩, ⟨.insert, start ++ inserted ++ finish⟩]) :
      Closes done edits kept
        (⟨.keep, finish ++ kept⟩ :: ⟨.insert, inserted⟩ :: ⟨.delete, deleted⟩ :: front)

theorem extendKept_sameSides (done : Script α) (items : List α) :
    SameSides (extendKept done items).reverse (done.reverse ++ [⟨.keep, items⟩]) := by
  unfold extendKept
  split <;> simp [SameSides]

theorem Closes.sameSides {done edits out : Script α} {kept : List α}
    (h : Closes done edits kept out) :
    SameSides out.reverse (done.reverse ++ edits ++ [⟨.keep, kept⟩]) := by
  cases h with
  | nothing h =>
      rw [h, List.append_nil]
      exact extendKept_sameSides done kept
  | single e he h =>
      simpa using ((SameSides.refl done.reverse).append h.symm).append (.refl [⟨.keep, kept⟩])
  | both start deleted inserted finish front hfront h =>
      have hstart : SameSides front.reverse (done.reverse ++ [⟨.keep, start⟩]) := by
        rcases hfront with ⟨rfl, rfl⟩ | ⟨-, rfl⟩
        · simp [SameSides]
        · exact extendKept_sameSides done start
      simp only [SameSides, source_append, target_append] at hstart
      simp [SameSides, h.1, h.2, hstart.1, hstart.2]

section Merging

variable [BEq α] [LawfulBEq α]

theorem closeEdits_closes (done : Script α) {p : Pending α} (hp : p.Sound) (kept : List α) :
    Closes done p.edits kept (closeEdits done p kept) := by
  have hedits : SameSides p.edits [⟨.delete, p.deleted⟩, ⟨.insert, p.inserted⟩] := by
    simp [SameSides, hp.source, hp.target]
  unfold closeEdits
  split
  · next hfew =>
      have hlength := hp.length
      split
      · next hnil => exact .nothing hnil
      · next hne =>
          obtain ⟨e, he⟩ : ∃ e, p.edits = [e] := by
            refine List.length_eq_one_iff.mp ?_
            have := List.length_pos_of_ne_nil hne
            omega
          rw [he]
          exact .single e (hp.edit e (by simp [he])) (.refl _)
  split
  · next hdeletions =>
      refine .single _ nofun (hedits.trans ?_)
      simp [SameSides, hp.deleted hdeletions]
  split
  · next hinsertions =>
      refine .single _ nofun (hedits.trans ?_)
      simp [SameSides, hp.inserted hinsertions]
  · obtain ⟨hinserted, hdeleted⟩ := eq_between_common p.inserted p.deleted
    extract_lets n front inserted deleted m kept'
    -- both sides have a text: the ends that they share are moved out of the edits
    refine .both (p.inserted.take n) _ _ (inserted.drop (inserted.length - m)) front ?_ ?_
    · by_cases hn : n = 0
      · exact .inl ⟨by simp [hn], if_pos hn⟩
      · have hle : n ≤ p.inserted.length := commonStart_le_left _ _
        exact .inr ⟨fun h => hn (by simpa [Nat.min_eq_left hle] using congrArg List.length h),
          if_neg hn⟩
    · replace hinserted : p.inserted = p.inserted.take n ++ inserted.take (inserted.length - m)
        ++ inserted.drop (inserted.length - m) := hinserted
      replace hdeleted : p.deleted = p.inserted.take n ++ deleted.take (deleted.length - m)
        ++ inserted.drop (inserted.length - m) := hdeleted
      rwa [← hinserted, ← hdeleted]

theorem mergeEdits_sameSides (done : Script α) {p : Pending α} (hp : p.Sound) (s : Script α) :
    SameSides (mergeEdits done p s).reverse (done.reverse ++ p.edits ++ s) := by
  -- edits wait for the next chunk that is kept, and close together
  induction s generalizing done p with
  | nil =>
      rw [mergeEdits]
      exact (closeEdits_closes done hp []).sameSides.trans
        ((SameSides.refl _).append (sameSides_empty _))
  | cons c rest ih =>
      obtain ⟨change, items⟩ := c
      rw [mergeEdits]
      split
      · next hkeep =>
          dsimp only at hkeep
          subst hkeep
          refine (ih _ Pending.sound_empty).trans ?_
          simpa using (closeEdits_closes done hp items).sameSides.append (.refl rest)
      · next hedit =>
          refine (ih done (hp.push hedit)).trans ?_
          simp [SameSides]

theorem merge_sameSides (s : Script α) : SameSides (merge s) s := by
  have h := mergeEdits_sameSides [] Pending.sound_empty s
  unfold merge
  split
  · next hnil =>
      rw [hnil] at h
      exact h
  · next last rest hcons =>
      rw [hcons, List.reverse_cons] at h
      refine .trans ?_ h
      split
      · next hempty =>
          obtain ⟨change, items⟩ := last
          cases List.isEmpty_iff.mp hempty
          simpa using (SameSides.refl rest.reverse).append (sameSides_empty change).symm
      · rw [List.reverse_cons]
        exact .refl _

end Merging

/-! ### Sliding -/

/-- What sliding does to a script, and whether anything moved: a chunk between two kept ones that ends
with the one in front goes in front of it, one that starts with the one behind goes behind it, and
any other chunk stays. -/
inductive Slides : Script α → Script α → Bool → Prop where
  | nil : Slides [] [] false
  | stay (c : Chunk α) {s out : Script α} {moves : Bool} (h : Slides s out moves) :
      Slides (c :: s) (c :: out) moves
  | back (change : Change) (x y z : List α) {s out : Script α} {moves : Bool}
      (h : Slides (⟨.keep, x ++ z⟩ :: s) out moves) :
      Slides (⟨.keep, x⟩ :: ⟨change, y ++ x⟩ :: ⟨.keep, z⟩ :: s) (⟨change, x ++ y⟩ :: out) true
  | on (change : Change) (x y z : List α) {s out : Script α} {moves : Bool}
      (h : Slides (⟨change, y ++ z⟩ :: s) out moves) :
      Slides (⟨.keep, x⟩ :: ⟨change, z ++ y⟩ :: ⟨.keep, z⟩ :: s) (⟨.keep, x ++ z⟩ :: out) true

theorem Slides.sameSides {s out : Script α} {moves : Bool} (h : Slides s out moves) :
    SameSides out s := by
  induction h with
  | nil => exact .refl []
  | stay c _ ih => exact ih.cons c
  | back change x y z _ ih =>
      refine (ih.cons _).trans ?_
      cases change <;> simp [SameSides]
  | on change x y z _ ih =>
      refine (ih.cons _).trans ?_
      cases change <;> simp [SameSides]

section Sliding

variable [BEq α] [LawfulBEq α]

theorem slide_slides (prev : Chunk α) (s : Script α) :
    Slides (prev :: s) (slide prev s).1 (slide prev s).2 := by
  fun_induction slide prev s with
  | case1 prev => exact .stay prev .nil
  | case2 prev cur => exact .stay prev (.stay cur .nil)
  | case3 prev cur next rest hkeep hsuffix moved tail moves heq ih =>
      obtain ⟨prevChange, x⟩ := prev
      obtain ⟨change, items⟩ := cur
      obtain ⟨nextChange, z⟩ := next
      obtain ⟨rfl, rfl⟩ : prevChange = .keep ∧ nextChange = .keep := by simpa using hkeep
      obtain ⟨y, rfl⟩ : x <:+ items := List.isSuffixOf_iff_suffix.mp hsuffix
      have hmoved : moved = x ++ y := by simp [moved]
      rw [heq] at ih
      rw [hmoved]
      exact .back change x y z ih
  | case4 prev cur next rest hkeep _ hprefix moved tail moves heq ih =>
      obtain ⟨prevChange, x⟩ := prev
      obtain ⟨change, items⟩ := cur
      obtain ⟨nextChange, z⟩ := next
      obtain ⟨rfl, rfl⟩ : prevChange = .keep ∧ nextChange = .keep := by simpa using hkeep
      obtain ⟨y, rfl⟩ : z <+: items := List.isPrefixOf_iff_prefix.mp hprefix
      have hmoved : moved = y ++ z := by simp [moved]
      rw [heq, hmoved] at ih
      exact .on change x y z ih
  | case5 prev cur next rest _ _ _ tail moves heq ih
  | case6 prev cur next rest _ tail moves heq ih =>
      rw [heq] at ih
      exact .stay prev ih

theorem tidyLoop_sameSides (fuel : Nat) (s : Script α) : SameSides (tidyLoop fuel s) s := by
  induction fuel generalizing s with
  | zero => exact .refl s
  | succ fuel ih =>
      have hmerge := merge_sameSides s
      unfold tidyLoop
      split
      · next hnil => rwa [hnil] at hmerge
      · next first rest hcons =>
          rw [hcons] at hmerge
          have hslide := (slide_slides first rest).sameSides
          dsimp only
          split
          · exact (ih _).trans (hslide.trans hmerge)
          · exact hslide.trans hmerge

/-- **Tidying** a script keeps its sides. -/
theorem tidy_sameSides (s : Script α) : SameSides (tidy s) s := tidyLoop_sameSides s.sweeps s

end Sliding

end Lossless.Edit.Script
