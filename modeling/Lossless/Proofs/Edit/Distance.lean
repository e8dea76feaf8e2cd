import Lossless.Edit.Distance
import Mathlib.Data.List.Basic
import Mathlib.Order.Bounds.Basic

/-!
# Edit — the distance is the least number of edits

A single edit inserts, deletes or substitutes one item anywhere in a sequence (`SingleEdit`), and
`EditedIn n a b` says that `n` of them lead from `a` to `b`.  Both can be turned around, end by end and
back to front, and runs of edits can be joined, so whatever is the least number of edits is a metric.

* `levenshtein` is the recursion over both sequences, from their first items on.  It is a number of
  edits that suffices (`editedIn_levenshtein`), and one edit changes it by at most one
  (`levenshtein_le_of_singleEdit`), so no smaller number does.
* A row of the table holds the `levenshtein` numbers of the source read so far against all initial
  segments of the target (`row`).  Both stand back to front in it, because a row is reached by reading
  one more item at the end and the recursion looks at the first one.

**The distance** of two texts (`distance_isLeast`) is the entry at the end of the last row.
-/

namespace Lossless.Edit

variable {α : Type} {a b c x y : List α} {m n : Nat}

/-! ### Edits -/

/-- One item is inserted, deleted or substituted. -/
inductive SingleEdit : List α → List α → Prop where
  | insert (x y : List α) (d : α) : SingleEdit (x ++ y) (x ++ d :: y)
  | delete (x y : List α) (d : α) : SingleEdit (x ++ d :: y) (x ++ y)
  | substitute (x y : List α) (d e : α) : SingleEdit (x ++ d :: y) (x ++ e :: y)

/-- `n` edits lead from one sequence to the other. -/
inductive EditedIn : Nat → List α → List α → Prop where
  | refl (a : List α) : EditedIn 0 a a
  | step {n : Nat} {a b c : List α} (h : SingleEdit a b) (t : EditedIn n b c) :
      EditedIn (n + 1) a c

namespace SingleEdit

theorem symm (h : SingleEdit a b) : SingleEdit b a := by
  cases h with
  | insert x y d => exact .delete x y d
  | delete x y d => exact .insert x y d
  | substitute x y d e => exact .substitute x y e d

theorem reverse (h : SingleEdit a b) : SingleEdit a.reverse b.reverse := by
  cases h with
  | insert x y d => simpa using SingleEdit.insert y.reverse x.reverse d
  | delete x y d => simpa using SingleEdit.delete y.reverse x.reverse d
  | substitute x y d e => simpa using SingleEdit.substitute y.reverse x.reverse d e

theorem cons (d : α) (h : SingleEdit a b) : SingleEdit (d :: a) (d :: b) := by
  cases h with
  | insert x y e => exact .insert (d :: x) y e
  | delete x y e => exact .delete (d :: x) y e
  | substitute x y e f => exact .substitute (d :: x) y e f

end SingleEdit

namespace EditedIn

theorem one (h : SingleEdit a b) : EditedIn 1 a b := .step h (.refl b)

theorem trans (h : EditedIn m a b) (h' : EditedIn n b c) : EditedIn (m + n) a c := by
  induction h with
  | refl => rwa [Nat.zero_add]
  | step h _ ih =>
      rw [Nat.add_right_comm]
      exact .step h (ih h')

theorem symm (h : EditedIn n a b) : EditedIn n b a := by
  induction h with
  | refl => exact .refl _
  | step h _ ih => exact ih.trans (one h.symm)

theorem reverse (h : EditedIn n a b) : EditedIn n a.reverse b.reverse := by
  induction h with
  | refl => exact .refl _
  | step h _ ih => exact .step h.reverse ih

theorem cons (d : α) (h : EditedIn n a b) : EditedIn n (d :: a) (d :: b) := by
  induction h with
  | refl => exact .refl _
  | step h _ ih => exact .step (h.cons d) ih

theorem eq (h : EditedIn 0 a b) : a = b := by
  cases h
  rfl

end EditedIn

/-- Back to front, the same numbers of edits lead from one sequence to the other. -/
theorem editedIn_reverse : EditedIn n a.reverse b.reverse ↔ EditedIn n a b := by
  refine ⟨fun h => ?_, .reverse⟩
  have h := h.reverse
  rwa [List.reverse_reverse, List.reverse_reverse] at h

theorem editedIn_length (b : List α) : EditedIn b.length [] b := by
  induction b with
  | nil => exact .refl []
  | cons e b ih => exact ih.trans (.one (.insert [] b e))

/-! ### The recursion -/

variable [DecidableEq α]

/-- The recursion over two sequences: the last edit deletes the first item of the one, inserts the
first item of the other, or turns the one into the other, which is free when they are the same. -/
def levenshtein : List α → List α → Nat
  | [], b => b.length
  | a, [] => a.length
  | d :: a, e :: b =>
    min (min (levenshtein a (e :: b) + 1) (levenshtein (d :: a) b + 1))
      (levenshtein a b + if d = e then 0 else 1)

@[simp] theorem levenshtein_nil (b : List α) : levenshtein [] b = b.length := by
  rw [levenshtein]

@[simp] theorem levenshtein_nil_right (a : List α) : levenshtein a [] = a.length := by
  cases a <;> simp [levenshtein]

theorem levenshtein_cons (d e : α) (a b : List α) :
    levenshtein (d :: a) (e :: b) =
      min (min (levenshtein a (e :: b) + 1) (levenshtein (d :: a) b + 1))
        (levenshtein a b + if d = e then 0 else 1) := by
  rw [levenshtein]

/-- That many edits suffice. -/
theorem editedIn_levenshtein (a b : List α) : EditedIn (levenshtein a b) a b := by
  fun_induction levenshtein a b with
  | case1 b => exact editedIn_length b
  | case2 a => exact (editedIn_length a).symm
  | case3 d a e b ihDelete ihInsert ihSubstitute =>
      refine min_rec' (EditedIn · (d :: a) (e :: b)) (min_rec' (EditedIn · _ _) ?_ ?_) ?_
      · exact .step (.delete [] a d) ihDelete
      · exact ihInsert.trans (.one (.insert [] b e))
      · split
        · next h => exact h ▸ ihSubstitute.cons d
        · exact (ihSubstitute.cons d).trans (.one (.substitute [] b d e))

/-- A first item more makes a difference of at most one. -/
theorem levenshtein_cons_le (d : α) (a b : List α) :
    levenshtein (d :: a) b ≤ levenshtein a b + 1 := by
  cases b with
  | nil => simp
  | cons e b =>
      rw [levenshtein_cons]
      omega

theorem levenshtein_le_cons (d : α) (a b : List α) :
    levenshtein a b ≤ levenshtein (d :: a) b + 1 := by
  induction b with
  | nil => simp; omega
  | cons e b ih =>
      have hinsert : levenshtein a (e :: b) ≤ levenshtein a b + 1 := by
        cases a with
        | nil => simp
        | cons f a =>
            rw [levenshtein_cons]
            omega
      rw [levenshtein_cons]
      omega

/-- Two sequences stay one apart behind a common first item. -/
theorem levenshtein_cons_mono (d : α) (h : ∀ c, levenshtein a c ≤ levenshtein b c + 1)
    (c : List α) : levenshtein (d :: a) c ≤ levenshtein (d :: b) c + 1 := by
  induction c with
  | nil => simpa using h []
  | cons e c ih =>
      have hdelete := h (e :: c)
      have hsubstitute := h c
      rw [levenshtein_cons, levenshtein_cons]
      omega

theorem levenshtein_substitute_le (d e : α) (a c : List α) :
    levenshtein (d :: a) c ≤ levenshtein (e :: a) c + 1 := by
  induction c with
  | nil => simp
  | cons f c ih =>
      have hcost : (if d = f then 0 else 1) ≤ 1 := by split <;> omega
      rw [levenshtein_cons, levenshtein_cons]
      omega

/-- One edit makes a difference of at most one. -/
theorem levenshtein_le_of_singleEdit (h : SingleEdit a b) (c : List α) :
    levenshtein a c ≤ levenshtein b c + 1 := by
  have behind : ∀ (x y z : List α), (∀ c, levenshtein y c ≤ levenshtein z c + 1) →
      ∀ c, levenshtein (x ++ y) c ≤ levenshtein (x ++ z) c + 1 := by
    intro x y z hyz
    induction x with
    | nil => exact hyz
    | cons d x ih => exact levenshtein_cons_mono d ih
  cases h with
  | insert x y d => exact behind x _ _ (levenshtein_le_cons d y) c
  | delete x y d => exact behind x _ _ (levenshtein_cons_le d y) c
  | substitute x y d e => exact behind x _ _ (levenshtein_substitute_le d e y) c

@[simp] theorem levenshtein_self (a : List α) : levenshtein a a = 0 := by
  induction a with
  | nil => rw [levenshtein_nil, List.length_nil]
  | cons d a ih => rw [levenshtein_cons, ih, if_pos rfl, Nat.add_zero, Nat.min_zero]

/-- No smaller number of edits will do. -/
theorem levenshtein_le (h : EditedIn n a b) : levenshtein a b ≤ n := by
  induction h with
  | refl a => rw [levenshtein_self]
  | step h _ ih => exact (levenshtein_le_of_singleEdit h _).trans (Nat.succ_le_succ ih)

/-- **The recursion gives the least number of edits.** -/
theorem levenshtein_isLeast (a b : List α) : IsLeast {n | EditedIn n a b} (levenshtein a b) :=
  ⟨editedIn_levenshtein a b, fun _ => levenshtein_le⟩

theorem levenshtein_comm (a b : List α) : levenshtein a b = levenshtein b a :=
  le_antisymm (levenshtein_le (editedIn_levenshtein b a).symm)
    (levenshtein_le (editedIn_levenshtein a b).symm)

theorem levenshtein_reverse (a b : List α) :
    levenshtein a.reverse b.reverse = levenshtein a b :=
  le_antisymm (levenshtein_le (editedIn_levenshtein a b).reverse)
    (levenshtein_le (editedIn_reverse.mp (editedIn_levenshtein a.reverse b.reverse)))

theorem levenshtein_eq_zero : levenshtein a b = 0 ↔ a = b := by
  constructor
  · intro h
    exact (h ▸ editedIn_levenshtein a b).eq
  · rintro rfl
    exact levenshtein_self a

theorem levenshtein_triangle (a b c : List α) :
    levenshtein a c ≤ levenshtein a b + levenshtein b c :=
  levenshtein_le ((editedIn_levenshtein a b).trans (editedIn_levenshtein b c))

/-! ### The rows of the table -/

/-- The row of a source that was read up to `p` (back to front), from the initial segment `q` of the
target (back to front) on; `target` is the rest of it. -/
def row (p : List Char) : (q target : List Char) → List Nat
  | q, [] => [levenshtein p q]
  | q, d :: target => levenshtein p q :: row p (d :: q) target

theorem row_eq_cons (p q target : List Char) :
    row p q target = levenshtein p q :: (row p q target).tail := by
  cases target <;> rfl

theorem row_nil (q target : List Char) :
    row [] q target = List.range' q.length (target.length + 1) := by
  induction target generalizing q with
  | nil => simp [row]
  | cons d target ih => simp [row, ih, List.range'_succ]

theorem getLastD_row (p q target : List Char) (n : Nat) :
    (row p q target).getLastD n = levenshtein p (target.reverse ++ q) := by
  induction target generalizing q n with
  | nil => rfl
  | cons d target ih =>
      rw [row, List.getLastD_cons, ih, List.reverse_cons, List.append_assoc,
        List.singleton_append]

/-- Each entry is made of its neighbours on the left, above and on the diagonal. -/
theorem fillRow_row (c : Char) (p q target : List Char) :
    fillRow c (levenshtein (c :: p) q) target (row p q target) = (row (c :: p) q target).tail := by
  induction target generalizing q with
  | nil => rfl
  | cons d target ih =>
      rw [row, row_eq_cons p (d :: q), fillRow, ← row_eq_cons, ← levenshtein_cons, ih, row,
        List.tail_cons, ← row_eq_cons]

/-- One more item of the source leads from row to row. -/
theorem nextRow_row (target p : List Char) (c : Char) :
    nextRow target (row p [] target) c = row (c :: p) [] target := by
  have hfirst : levenshtein p [] + 1 = levenshtein (c :: p) [] := by simp
  rw [row_eq_cons (c :: p), ← fillRow_row, ← hfirst]
  conv_lhs => rw [row_eq_cons p, nextRow]
  rw [← row_eq_cons]

/-- The rows of a source that is read from `p` on. -/
theorem foldl_nextRow (source target p : List Char) :
    source.foldl (nextRow target) (row p [] target) = row (source.reverse ++ p) [] target := by
  induction source generalizing p with
  | nil => rfl
  | cons c source ih =>
      rw [List.foldl_cons, nextRow_row, ih, List.reverse_cons, List.append_assoc,
        List.singleton_append]

theorem lastRow_eq_row (source target : List Char) :
    lastRow source target = row source.reverse [] target := by
  have h := foldl_nextRow source target []
  rwa [row_nil, List.append_nil, List.length_nil, ← List.range_eq_range'] at h

theorem getLastD_lastRow (source target : List Char) :
    (lastRow source target).getLastD 0 = levenshtein source target := by
  rw [lastRow_eq_row, getLastD_row, List.append_nil, levenshtein_reverse]

theorem charDistance_eq_levenshtein (a b : List Char) : charDistance a b = levenshtein a b := by
  unfold charDistance
  split
  · rw [getLastD_lastRow, levenshtein_comm]
  · rw [getLastD_lastRow]

theorem distance_eq_levenshtein (a b : Text) : distance a b = levenshtein a.chars b.chars :=
  charDistance_eq_levenshtein a.chars b.chars

/-- **The distance** of two texts is the least number of insertions, deletions and substitutions of one
character that lead from the characters of the one to those of the other. So it is given by the
recursion over both sequences and is a metric on the sequences of characters. -/
theorem distance_isLeast (a b : Text) :
    IsLeast {n | EditedIn n a.chars b.chars} (distance a b) ∧
      distance a b = levenshtein a.chars b.chars ∧
      distance a b = distance b a ∧
      (distance a b = 0 ↔ a.chars = b.chars) ∧
      ∀ c, distance a c ≤ distance a b + distance b c := by
  refine ⟨?_, distance_eq_levenshtein a b, ?_, ?_, fun c => ?_⟩
  all_goals simp only [distance_eq_levenshtein]
  · exact levenshtein_isLeast a.chars b.chars
  · exact levenshtein_comm a.chars b.chars
  · exact levenshtein_eq_zero
  · exact levenshtein_triangle a.chars b.chars c.chars

example : distance "kitten" "sitting" = 3 := by decide +kernel

end Lossless.Edit
