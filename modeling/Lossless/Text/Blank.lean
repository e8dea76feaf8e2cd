/-!
# Text — white space

The characters of the property White_Space, and strings without them at their ends.
-/

namespace Lossless.Text

/-- Whether a character is white space. -/
def isBlank (c : Char) : Bool :=
  let n := c.toNat
  (9 ≤ n && n ≤ 13) || n == 0x20 || n == 0x85 || n == 0xa0 || n == 0x1680
    || (0x2000 ≤ n && n ≤ 0x200a) || n == 0x2028 || n == 0x2029 || n == 0x202f || n == 0x205f
    || n == 0x3000

/-- The characters without the white space at the start. -/
def trimLeftChars (cs : List Char) : List Char := cs.dropWhile isBlank

/-- The characters without the white space at either end. -/
def trimChars (cs : List Char) : List Char :=
  (trimLeftChars (trimLeftChars cs).reverse).reverse

/-- The runs of characters between white space. -/
def words (cs : List Char) : List (List Char) :=
  (cs.splitOnP isBlank).filter (!·.isEmpty)

/-- The string without the white space at either end. -/
def trim (s : String) : String := String.ofList (trimChars s.toList)

/-- Nothing is added by leaving out white space. -/
theorem mem_of_mem_trim {s : String} {c : Char} (h : c ∈ (trim s).toList) : c ∈ s.toList := by
  have hsub : ∀ cs : List Char, trimLeftChars cs ⊆ cs := fun _ => (List.dropWhile_sublist _).subset
  rw [trim, String.toList_ofList, trimChars, List.mem_reverse] at h
  exact hsub _ (List.mem_reverse.mp (hsub _ h))

end Lossless.Text
