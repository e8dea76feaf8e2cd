import Lossless.Text.Basic
import Mathlib.Data.List.Count

/-!
# Text — bytes that are put in

A text from which another one arises by putting in copies of one byte: without saying where
(`Text.Inserted`), and at given offsets (`Text.insertAt`).  Offsets are those of the text before; an
offset that is given several times gets that many copies.

Texts that stand one behind the other take insertions each for itself (`Inserted.append`,
`insertFrom_append`).
-/

namespace Lossless.Text

/-- `y` is `x` with `k` bytes `b` put in. -/
inductive Inserted (b : UInt8) : Nat → Text → Text → Prop where
  | nil : Inserted b 0 [] []
  | keep {k : Nat} {c : UInt8} {x y : Text} (h : Inserted b k x y) :
      Inserted b k (c :: x) (c :: y)
  | put {k : Nat} {x y : Text} (h : Inserted b k x y) : Inserted b (k + 1) x (b :: y)

namespace Inserted

variable {b : UInt8} {k k' : Nat} {x x' y y' : Text}

theorem refl : ∀ x : Text, Inserted b 0 x x
  | [] => .nil
  | _ :: x => .keep (refl x)

theorem length_eq (h : Inserted b k x y) : y.length = x.length + k := by
  induction h with
  | nil => rfl
  | keep _ ih | put _ ih =>
      simp only [List.length_cons, ih]
      omega

theorem append (h : Inserted b k x y) (h' : Inserted b k' x' y') :
    Inserted b (k + k') (x ++ x') (y ++ y') := by
  induction h with
  | nil => simpa using h'
  | keep _ ih => exact .keep ih
  | @put k x y _ ih =>
      rw [Nat.add_right_comm]
      exact .put ih

/-- One more byte, anywhere. -/
theorem insert {u w : Text} (h : Inserted b k x (u ++ w)) :
    Inserted b (k + 1) x (u ++ b :: w) := by
  induction u generalizing k x with
  | nil => exact .put h
  | cons c u ih =>
      cases h with
      | keep h => exact .keep (ih h)
      | put h => exact .put (ih h)

end Inserted

/-- The text `t`, which starts at `i`, with a byte `b` in front of what stands at each of the
offsets. -/
def insertFrom (b : UInt8) (offsets : List Nat) : (i : Nat) → (t : Text) → Text
  | i, [] => List.replicate (offsets.count i) b
  | i, c :: t => List.replicate (offsets.count i) b ++ c :: insertFrom b offsets (i + 1) t

/-- The text with a byte `b` in front of what stands at each of the offsets. -/
def insertAt (b : UInt8) (offsets : List Nat) (t : Text) : Text := insertFrom b offsets 0 t

section InsertFrom

variable {b : UInt8} {p q : List Nat}

@[simp] theorem insertFrom_nil (b : UInt8) : ∀ (i : Nat) (t : Text), insertFrom b [] i t = t
  | _, [] => rfl
  | i, c :: t => by simp [insertFrom, insertFrom_nil b (i + 1) t]

/-- Offsets in front of the text do not count, and those at its start are put in first. -/
theorem insertFrom_low {i : Nat} (h : ∀ x ∈ p, x ≤ i) (t : Text) :
    insertFrom b (p ++ q) i t = List.replicate (p.count i) b ++ insertFrom b q i t := by
  have hnot : ∀ j, i < j → p.count j = 0 := fun j hj => List.count_eq_zero.mpr fun hmem => by
    have := h j hmem
    omega
  have hbehind : ∀ (t : Text) (j : Nat), i < j →
      insertFrom b (p ++ q) j t = insertFrom b q j t := by
    intro t
    induction t with
    | nil => exact fun j hj => by simp [insertFrom, hnot j hj]
    | cons c t ih => exact fun j hj => by simp [insertFrom, hnot j hj, ih (j + 1) (by omega)]
  cases t with
  | nil => simp [insertFrom, ← List.replicate_append_replicate]
  | cons c t => simp [insertFrom, ← List.replicate_append_replicate, hbehind t (i + 1) (by omega)]

/-- Two texts one behind the other: the first takes the offsets up to its end, the second those from
there on. -/
theorem insertFrom_append {i : Nat} {t : Text} (h : ∀ x ∈ p, x ≤ i + t.length)
    (h' : ∀ x ∈ q, i + t.length ≤ x) (u : Text) :
    insertFrom b (p ++ q) i (t ++ u) =
      insertFrom b p i t ++ insertFrom b q (i + t.length) u := by
  induction t generalizing i with
  | nil => exact insertFrom_low h u
  | cons c t ih =>
      simp only [List.length_cons] at h h'
      have hlen : i + (t.length + 1) = i + 1 + t.length := by omega
      have hnot : q.count i = 0 := List.count_eq_zero.mpr fun hmem => by
        have := h' i hmem
        omega
      have hrest := ih (i := i + 1) (hlen ▸ h) (hlen ▸ h')
      simp only [List.cons_append, insertFrom, List.count_append, hnot, Nat.add_zero, hrest,
        List.length_cons, hlen, List.append_assoc]

/-- Nothing is put into a text that ends before all offsets. -/
theorem insertFrom_front {i : Nat} {t : Text} (h : ∀ x ∈ p, i + t.length ≤ x) (u : Text) :
    insertFrom b p i (t ++ u) = t ++ insertFrom b p (i + t.length) u := by
  have happend := insertFrom_append (b := b) (p := []) (q := p) nofun h u
  rwa [insertFrom_nil, List.nil_append] at happend

/-- One offset in front of all others. -/
theorem insertFrom_cons {i : Nat} {t : Text} (h : ∀ x ∈ p, i + t.length ≤ x) (u : Text) :
    insertFrom b ((i + t.length) :: p) i (t ++ u) =
      t ++ b :: insertFrom b p (i + t.length) u := by
  rw [insertFrom_front (List.forall_mem_cons.mpr ⟨Nat.le_refl _, h⟩)]
  have hlow := insertFrom_low (b := b) (p := [i + t.length]) (q := p) (i := i + t.length)
    (fun x hx => Nat.le_of_eq (List.mem_singleton.mp hx)) u
  rw [List.singleton_append] at hlow
  rw [hlow]
  simp

/-- One more byte, in front of all others. -/
theorem insertFrom_put {i : Nat} {t u y : Text} (h : ∀ x ∈ p, i + t.length ≤ x)
    (hy : t ++ y = insertFrom b p i (t ++ u)) :
    t ++ b :: y = insertFrom b ((i + t.length) :: p) i (t ++ u) := by
  rw [insertFrom_front h] at hy
  rw [insertFrom_cons h, List.append_cancel_left hy]

end InsertFrom

end Lossless.Text
