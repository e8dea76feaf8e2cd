import Lossless.Edit.Suggestion
import Mathlib.Data.List.Basic

/-!
# Edit — the suggestion is the nearest candidate

`Nearest name candidates c` says that `c` is a candidate within the limit of the name, and the least
such in distance and, at equal distances, in byte order.  At most one candidate is nearest
(`Nearest.unique`), and which one it is depends on what is among the candidates, not on where or how
often.

A scan keeps the first of the nearest candidates.  In a sorted list that is the least of them
(`foldl_nearer`), so scanning the sorted candidates finds the nearest one (`suggest_eq_some_iff`).
The empty text is the mark for "none found": it hides the others where it is nearest itself, and is
never suggested.
-/

namespace Lossless.Edit

variable {name c d : Text} {candidates : List Text}

/-- `c` comes before `d`, or is `d`: it is nearer to the name, or as near and not behind it in byte
order. -/
def Before (name c d : Text) : Prop :=
  distance name c < distance name d ∨ (distance name c = distance name d ∧ c ≤ d)

/-- `c` is near enough to the name and comes before all the candidates. -/
structure Nearest (name : Text) (candidates : List Text) (c : Text) : Prop where
  mem : c ∈ candidates
  near : distance name c ≤ suggestionLimit name
  before : ∀ d ∈ candidates, Before name c d

theorem Before.antisymm (h : Before name c d) (h' : Before name d c) : c = d := by
  rcases h with h | ⟨h, hle⟩
  · rcases h' with h' | ⟨h', -⟩ <;> omega
  · rcases h' with h' | ⟨-, hle'⟩
    · omega
    · exact List.le_antisymm hle hle'

theorem Nearest.unique (h : Nearest name candidates c) (h' : Nearest name candidates d) : c = d :=
  (h.before d h'.mem).antisymm (h'.before c h.mem)

/-- Being the nearest is a matter of what is among the candidates. -/
theorem Nearest.congr {others : List Text} (h : Nearest name candidates c)
    (hsame : ∀ d, d ∈ others ↔ d ∈ candidates) : Nearest name others c :=
  ⟨(hsame c).mpr h.mem, h.near, fun d hd => h.before d ((hsame d).mp hd)⟩

/-- Scanning a sorted list from a best text at some distance: it stays the best when nothing is nearer,
and otherwise the best is the first in the order of distance and bytes. -/
theorem foldl_nearer (name : Text) (hsorted : candidates.Pairwise (· ≤ ·)) (best : Text) (n : Nat) :
    (candidates.foldl (nearer name) (best, n) = (best, n) ∧ ∀ c ∈ candidates, n ≤ distance name c) ∨
      ∃ c ∈ candidates, candidates.foldl (nearer name) (best, n) = (c, distance name c) ∧
        distance name c < n ∧ ∀ d ∈ candidates, Before name c d := by
  induction candidates generalizing best n with
  | nil => exact .inl ⟨rfl, nofun⟩
  | cons a rest ih =>
      obtain ⟨hfirst, hrest⟩ := List.pairwise_cons.mp hsorted
      rw [List.foldl_cons, nearer]
      split
      · next hlt =>
          -- the first candidate is nearer, and the scan goes on from it
          rcases ih hrest a (distance name a) with ⟨hfold, hfar⟩ | ⟨c, hc, hfold, hnear, hbefore⟩
          · refine .inr ⟨a, .head _, hfold, hlt, List.forall_mem_cons.mpr ⟨?_, fun d hd => ?_⟩⟩
            · exact .inr ⟨rfl, List.le_refl a⟩
            · rcases Nat.lt_or_eq_of_le (hfar d hd) with h | h
              · exact .inl h
              · exact .inr ⟨h, hfirst d hd⟩
          · exact .inr ⟨c, .tail _ hc, hfold, Nat.lt_trans hnear hlt,
              List.forall_mem_cons.mpr ⟨.inl hnear, hbefore⟩⟩
      · next hge =>
          rcases ih hrest best n with ⟨hfold, hfar⟩ | ⟨c, hc, hfold, hnear, hbefore⟩
          · exact .inl ⟨hfold, List.forall_mem_cons.mpr ⟨Nat.le_of_not_lt hge, hfar⟩⟩
          · exact .inr ⟨c, .tail _ hc, hfold, hnear,
              List.forall_mem_cons.mpr ⟨.inl (by omega), hbefore⟩⟩

theorem sorted_mergeSort_textLe (candidates : List Text) :
    (candidates.mergeSort textLe).Pairwise (· ≤ ·) := by
  have htrans : ∀ a b c : Text, textLe a b → textLe b c → textLe a c := by
    simp only [textLe, decide_eq_true_eq]
    exact fun a b c => List.le_trans
  have htotal : ∀ a b : Text, textLe a b || textLe b a := by
    simp only [textLe, Bool.or_eq_true, decide_eq_true_eq]
    exact List.le_total
  exact (List.pairwise_mergeSort htrans htotal candidates).imp of_decide_eq_true

/-- There is no near candidate and no suggestion, or there is a nearest candidate, and it is suggested
unless it is the empty text. -/
theorem suggest_cases (name : Text) (candidates : List Text) :
    ((∀ c ∈ candidates, suggestionLimit name < distance name c) ∧ suggest name candidates = none) ∨
      ∃ c, Nearest name candidates c ∧
        suggest name candidates = if c.isEmpty then none else some c := by
  have hmem : ∀ {d}, d ∈ candidates.mergeSort textLe ↔ d ∈ candidates := List.mem_mergeSort
  unfold suggest
  rcases foldl_nearer name (sorted_mergeSort_textLe candidates) [] (suggestionLimit name + 1) with
    ⟨hfold, hfar⟩ | ⟨c, hc, hfold, hnear, hbefore⟩
  · exact .inl ⟨fun c hc => hfar c (hmem.mpr hc), by rw [hfold]; rfl⟩
  · exact .inr ⟨c, ⟨hmem.mp hc, Nat.le_of_lt_succ hnear, fun d hd => hbefore d (hmem.mpr hd)⟩,
      by rw [hfold]⟩

/-- What is suggested is the nearest candidate, unless that is the empty text. -/
theorem suggest_eq_some_iff :
    suggest name candidates = some c ↔ c ≠ [] ∧ Nearest name candidates c := by
  rcases suggest_cases name candidates with ⟨hfar, hnone⟩ | ⟨b, hb, hsome⟩
  · rw [hnone]
    refine iff_of_false nofun fun ⟨_, hc⟩ => ?_
    exact absurd hc.near (Nat.not_le_of_lt (hfar c hc.mem))
  · rw [hsome]
    constructor
    · intro h
      split at h
      · cases h
      · next hne =>
          cases h
          exact ⟨fun hnil => hne (List.isEmpty_iff.mpr hnil), hb⟩
    · rintro ⟨hne, hc⟩
      cases hc.unique hb
      rw [if_neg fun h => hne (List.isEmpty_iff.mp h)]

/-- A near candidate is enough for there to be a nearest one. -/
theorem exists_nearest (hc : c ∈ candidates) (hnear : distance name c ≤ suggestionLimit name) :
    ∃ b, Nearest name candidates b := by
  rcases suggest_cases name candidates with ⟨hfar, -⟩ | ⟨b, hb, -⟩
  · exact absurd hnear (Nat.not_le_of_lt (hfar c hc))
  · exact ⟨b, hb⟩

/-- Lists with the same candidates lead to the same suggestion. -/
theorem suggest_congr {others : List Text} (hsame : ∀ d, d ∈ others ↔ d ∈ candidates) :
    suggest name others = suggest name candidates := by
  refine Option.ext fun c => ?_
  rw [suggest_eq_some_iff, suggest_eq_some_iff]
  exact and_congr_right' ⟨fun h => h.congr fun d => (hsame d).symm, fun h => h.congr hsame⟩

/-- **The suggestion** is the best candidate, whatever the order.  Among candidates that are not empty
it is the least in distance and then byte order, as soon as one is within a third of the name's
length (and at least one edit), and there is none otherwise.  For all candidates, it depends on nothing
but what is among them. -/
theorem suggest_best (name : Text) (candidates : List Text) :
    ((∀ c ∈ candidates, c ≠ []) →
      ((∃ c ∈ candidates, distance name c ≤ max (name.chars.length / 3) 1) →
        ∃ c, suggest name candidates = some c ∧ c ∈ candidates ∧
          ∀ d ∈ candidates, distance name c < distance name d ∨
            (distance name c = distance name d ∧ c ≤ d)) ∧
      ((¬∃ c ∈ candidates, distance name c ≤ max (name.chars.length / 3) 1) →
        suggest name candidates = none)) ∧
    ∀ others, (∀ c, c ∈ others ↔ c ∈ candidates) → suggest name others = suggest name candidates := by
  refine ⟨fun hne => ⟨?_, fun hfar => ?_⟩, fun others => suggest_congr⟩
  · rintro ⟨c, hc, hnear⟩
    obtain ⟨b, hb⟩ := exists_nearest hc hnear
    exact ⟨b, suggest_eq_some_iff.mpr ⟨hne b hb.mem, hb⟩, hb.mem, hb.before⟩
  · refine Option.eq_none_iff_forall_ne_some.mpr fun c hc => hfar ?_
    obtain ⟨-, hc⟩ := suggest_eq_some_iff.mp hc
    exact ⟨c, hc.mem, hc.near⟩

/-- Two candidates that are equally near to `cat`, the second one first in byte order. -/
def rhymes : List Text := ["rat", "bat"]

theorem suggest_best_rhymes :
    (∀ c ∈ rhymes, c ≠ []) ∧
      (∃ c ∈ rhymes, distance "cat" c ≤ max ((Text.chars "cat").length / 3) 1) ∧
      (∃ c, suggest "cat" rhymes = some c ∧ c ∈ rhymes ∧
        ∀ d ∈ rhymes, distance "cat" c < distance "cat" d ∨
          (distance "cat" c = distance "cat" d ∧ c ≤ d)) ∧
      suggest "cat" (rhymes.reverse ++ rhymes) = suggest "cat" rhymes := by
  have hne : ∀ c ∈ rhymes, c ≠ [] := by decide +kernel
  have hnear : ∃ c ∈ rhymes, distance "cat" c ≤ max ((Text.chars "cat").length / 3) 1 :=
    ⟨"rat", .head _, by decide +kernel⟩
  exact ⟨hne, hnear, ((suggest_best "cat" rhymes).1 hne).1 hnear,
    (suggest_best "cat" rhymes).2 _ (by simp)⟩

end Lossless.Edit
