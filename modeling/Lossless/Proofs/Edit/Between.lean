import Lossless.Proofs.Edit.Sides

/-!
# Edit — the script between two sequences

Whatever the search for a short script does, it cuts both sequences into parts that stand one behind the
other and scripts the parts, so the script between two sequences has them as its sides
(`betweenLoop_sameSides`).  Three of the cuts are at something that both have in common: what they start
and end with (`eq_between_common`), the shorter one in the longer one (`eq_of_indexOf?`), and a run
around two positions at which the same items stand (`of_halfMatch?`).  The last one is at a point of a
path through the edit graph; every point would do, because each side is cut in two there.
-/

namespace Lossless.Edit.Script

variable {α : Type}

/-! ### Half matches -/

/-- A common run stands in both sequences. -/
structure HalfMatch.Of (h : HalfMatch α) (a b : List α) : Prop where
  left : a = h.leftBefore ++ h.shared ++ h.leftAfter
  right : b = h.rightBefore ++ h.shared ++ h.rightAfter

theorem HalfMatch.Of.swap {h : HalfMatch α} {a b : List α} (hof : h.Of a b) : h.swap.Of b a :=
  ⟨hof.right, hof.left⟩

/-- What stands around a position of a sequence, and in front of it and behind it. -/
theorem eq_around (xs : List α) {k before : Nat} (h : before ≤ k) (after : Nat) :
    xs = xs.take (k - before) ++ (xs.drop (k - before)).take (before + after)
      ++ xs.drop (k + after) := by
  have hbehind : xs.drop (k + after) = (xs.drop (k - before)).drop (before + after) := by
    rw [List.drop_drop]
    congr 1
    omega
  rw [hbehind, List.append_assoc, List.take_append_drop, List.take_append_drop]

theorem take_around (xs : List α) {k before : Nat} (h : before ≤ k) (after : Nat) :
    (xs.drop (k - before)).take (before + after)
      = (xs.take k).drop (k - before) ++ (xs.drop k).take after := by
  rw [List.take_add, List.drop_drop, List.drop_take, Nat.sub_add_cancel h, Nat.sub_sub_self h]

section Occurrences

variable [BEq α]

theorem le_of_mem_occurrences {part a : List α} {start j : Nat} (h : j ∈ occurrences part start a) :
    start ≤ j ∧ j < start + a.length := by
  induction a generalizing start with
  | nil => cases h
  | cons x xs ih =>
      have hlater : j ∈ occurrences part (start + 1) xs → start ≤ j ∧ j < start + (xs.length + 1) := by
        intro h
        have := ih h
        omega
      rw [occurrences] at h
      split at h
      · rcases List.mem_cons.mp h with rfl | h
        · exact ⟨Nat.le_refl _, by simp⟩
        · exact hlater h
      · exact hlater h

variable [LawfulBEq α]

/-- A sequence around the first place where a part occurs in it. -/
theorem eq_of_indexOf? {part a : List α} {i : Nat} (h : indexOf? part a = some i) :
    a = a.take i ++ part ++ a.drop (i + part.length) := by
  have hstart : ∀ {a : List α}, part.isPrefixOf a → a = part ++ a.drop part.length := by
    intro a hpart
    obtain ⟨rest, rfl⟩ := List.isPrefixOf_iff_prefix.mp hpart
    simp
  induction a generalizing i with
  | nil =>
      unfold indexOf? at h
      split at h
      · next hempty => simp [List.isEmpty_iff.mp hempty]
      · cases h
  | cons x xs ih =>
      unfold indexOf? at h
      split at h
      · next hpart =>
          cases h
          simpa using hstart hpart
      · obtain ⟨j, hj, rfl⟩ := Option.map_eq_some_iff.mp h
        have hxs := ih hj
        rw [Nat.add_right_comm, List.drop_succ_cons, List.take_succ_cons, List.cons_append,
          List.cons_append, ← hxs]

/-- What two sequences have in common around a position of either. -/
theorem of_around {long short : List α} {i j : Nat} (hi : i ≤ long.length) (hj : j ≤ short.length) :
    let before := commonEnd (long.take i) (short.take j)
    let after := commonStart (long.drop i) (short.drop j)
    HalfMatch.Of ⟨long.take (i - before), long.drop (i + after), short.take (j - before),
      short.drop (j + after), (short.drop (j - before)).take (before + after)⟩ long short := by
  intro before after
  have hlefti : (long.take i).length = i := by simp [hi]
  have hleftj : (short.take j).length = j := by simp [hj]
  have hbeforei : before ≤ i := hlefti ▸ commonEnd_le_left (long.take i) (short.take j)
  have hbeforej : before ≤ j := hleftj ▸ commonEnd_le_right (long.take i) (short.take j)
  -- both sides agree before the places and behind them, so they agree around them
  have hshared : (long.drop (i - before)).take (before + after)
      = (short.drop (j - before)).take (before + after) := by
    have hends := drop_commonEnd (long.take i) (short.take j)
    rw [hlefti, hleftj] at hends
    rw [take_around long hbeforei, take_around short hbeforej, hends,
      take_commonStart (long.drop i) (short.drop j)]
  constructor
  · dsimp only
    rw [← hshared]
    exact eq_around long hbeforei after
  · exact eq_around short hbeforej after

/-- The best place found so far, if any, is a position of the shorter sequence, with what both have in
common in front of it and behind it. -/
def BestAround (long short : List α) (i : Nat) (best : Option (Nat × Nat × Nat)) : Prop :=
  ∀ j before after, best = some (j, before, after) → j ≤ short.length ∧
    before = commonEnd (long.take i) (short.take j) ∧ after = commonStart (long.drop i) (short.drop j)

theorem of_seededMatch? {long short : List α} {i : Nat} (hi : i ≤ long.length) {h : HalfMatch α}
    (hmatch : seededMatch? long short i = some h) : h.Of long short := by
  unfold seededMatch? at hmatch
  extract_lets seed best at hmatch
  have hbest : BestAround long short i best := by
    -- whatever is best so far lies around one of the places, and so does what replaces it
    refine List.foldlRecOn _ _ (motive := BestAround long short i) nofun fun best hbest j hj => ?_
    have hle : j ≤ short.length := by
      have := le_of_mem_occurrences hj
      omega
    have hnew : BestAround long short i (some (j, commonEnd (long.take i) (short.take j),
        commonStart (long.drop i) (short.drop j))) := by
      rintro _ _ _ ⟨⟩
      exact ⟨hle, rfl, rfl⟩
    dsimp only
    split <;> split
    all_goals first | exact hnew | exact hbest
  clear_value best
  split at hmatch
  · cases hmatch
  · next _ j before after =>
      obtain ⟨hj, rfl, rfl⟩ := hbest j before after rfl
      split at hmatch
      · cases hmatch
      · cases hmatch
        exact of_around hi hj

theorem of_halfMatch? {a b : List α} {h : HalfMatch α} (hmatch : halfMatch? a b = some h) :
    h.Of a b := by
  unfold halfMatch? at hmatch
  extract_lets long short first second best at hmatch
  split at hmatch
  · cases hmatch
  next hlong =>
  -- with four items or more both seeds start within the longer side
  have hfour : 4 ≤ long.length := by
    simp only [Bool.or_eq_true, decide_eq_true_eq] at hlong
    omega
  have hfirst : ∀ h, first = some h → h.Of long short := fun _ => of_seededMatch? (by omega)
  have hsecond : ∀ h, second = some h → h.Of long short := fun _ => of_seededMatch? (by omega)
  have hbest : ∀ h, best = some h → h.Of long short := by
    intro h hh
    simp only [best] at hh
    clear_value first second
    split at hh
    · split at hh
      · exact hfirst h hh
      · exact hsecond h hh
    · exact hfirst h hh
    · exact hsecond h hh
  split at hmatch
  · next hlt =>
      have hof := hbest h hmatch
      simp only [long, short, if_pos hlt] at hof
      exact hof
  · next hge =>
      obtain ⟨g, hg, rfl⟩ := Option.map_eq_some_iff.mp hmatch
      have hof := (hbest g hg).swap
      simp only [long, short, if_neg hge] at hof
      exact hof

end Occurrences

/-! ### The script -/

theorem sameSides_keep (x : List α) :
    SameSides (if x.isEmpty then [] else [⟨.keep, x⟩]) [⟨.keep, x⟩] := by
  split
  · next hempty =>
      cases List.isEmpty_iff.mp hempty
      exact (sameSides_empty .keep).symm
  · exact .refl _

section Between

variable [BEq α] [LawfulBEq α]

theorem betweenLoop_sameSides (fuel : Nat) (a b : List α) :
    SameSides (betweenLoop fuel a b) [⟨.delete, a⟩, ⟨.insert, b⟩] := by
  induction fuel generalizing a b with
  | zero => exact .refl _
  | succ fuel ih =>
      unfold betweenLoop
      split
      · next heq =>
          cases beq_iff_eq.mp heq
          exact (sameSides_keep a).trans (by simp [SameSides])
      · obtain ⟨ha, hb⟩ := eq_between_common a b
        extract_lets n start a₁ b₁ m finish a₂ b₂ long short change middle
        replace ha : a = start ++ a₂ ++ finish := ha
        replace hb : b = start ++ b₂ ++ finish := hb
        -- from here on only the equations about the parts count
        clear_value n m start finish a₂ b₂
        -- whatever way the middle is found, it has the two middles as its sides
        have hmiddle : SameSides middle [⟨.delete, a₂⟩, ⟨.insert, b₂⟩] := by
          simp only [middle]
          split
          · next hempty => simp [SameSides, List.isEmpty_iff.mp hempty]
          split
          · next hempty => simp [SameSides, List.isEmpty_iff.mp hempty]
          split
          · next i hi =>
              have hlong := eq_of_indexOf? hi
              simp only [long, short, change] at hlong ⊢
              split at hlong
              · next hlt => constructor <;> simp [hlt, ← List.append_assoc, ← hlong]
              · next hge => constructor <;> simp [hge, ← List.append_assoc, ← hlong]
          split
          · exact .refl _
          split
          · next h hh =>
              have hof := of_halfMatch? hh
              refine (((ih _ _).append (.refl _)).append (ih _ _)).trans ?_
              constructor
              · simp [← List.append_assoc, ← hof.left]
              · simp [← List.append_assoc, ← hof.right]
          split
          · next x y _ =>
              refine ((ih _ _).append (ih _ _)).trans ?_
              simp [SameSides]
          · exact .refl _
        refine (tidy_sameSides _).trans ?_
        refine (((sameSides_keep start).append hmiddle).append (sameSides_keep finish)).trans ?_
        simp [SameSides, ha, hb]

/-- **The script between two sequences** starts from the first. -/
theorem source_between (a b : List α) : source (between a b) = a := by
  have h := (betweenLoop_sameSides (a.length + b.length + 1) a b).1
  simpa [between] using h

theorem target_between (a b : List α) : target (between a b) = b := by
  have h := (betweenLoop_sameSides (a.length + b.length + 1) a b).2
  simpa [between] using h

end Between

end Lossless.Edit.Script
