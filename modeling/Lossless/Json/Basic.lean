import Lossless.Decimal.General

/-!
# Json — values

JSON values.  A number is kept as it was written, or is a double or an integer when a caller
decoded it further.  The members of an object have distinct keys.
-/

namespace Lossless

/-- A JSON number: its literal, or the value it was converted to. -/
inductive Numeral where
  | literal (text : String)
  | float (value : Float)
  | int (value : Int)

namespace Numeral

/-- The number as a message shows it. -/
def text : Numeral → String
  | .literal t => t
  | .float x => Decimal.general x
  | .int i => toString i

end Numeral

/-- A JSON value. -/
inductive Json where
  | null
  | bool (value : Bool)
  | number (value : Numeral)
  | str (value : String)
  | arr (items : List Json)
  | obj (members : List (String × Json))

namespace Json

instance : Inhabited Json := ⟨.null⟩

/-- The member of an association list under `key`. -/
def member? (members : List (String × Json)) (key : String) : Option Json :=
  match members with
  | [] => none
  | (k, v) :: rest => if k = key then some v else member? rest key

/-- A member is smaller than the list it stands in. -/
theorem sizeOf_member? {members : List (String × Json)} {key : String} {v : Json}
    (h : member? members key = some v) : sizeOf v < sizeOf members := by
  induction members with
  | nil => simp [member?] at h
  | cons p rest ih =>
    obtain ⟨k, w⟩ := p
    rw [member?] at h
    split at h
    · cases h
      simp only [List.cons.sizeOf_spec, Prod.mk.sizeOf_spec]
      omega
    · have := ih h
      simp only [List.cons.sizeOf_spec]
      omega

/-- The items of an array are smaller than the list it is a member of. -/
theorem sizeOf_items {members : List (String × Json)} {key : String} {items : List Json}
    (h : member? members key = some (.arr items)) : sizeOf items < sizeOf members := by
  have := sizeOf_member? h
  simp only [Json.arr.sizeOf_spec] at this
  omega

/-- Sets a member: replaces the value in place when the key is there, else adds it at the end. -/
def setMember (members : List (String × Json)) (key : String) (v : Json) :
    List (String × Json) :=
  match members with
  | [] => [(key, v)]
  | (k, w) :: rest => if k = key then (k, v) :: rest else (k, w) :: setMember rest key v

/-- The member of an object; none for other values. -/
def get? : Json → String → Option Json
  | .obj members, key => member? members key
  | _, _ => none

mutual
/-- The value with every number converted. -/
def mapNumbers (f : Numeral → Numeral) : Json → Json
  | .number n => .number (f n)
  | .arr items => .arr (mapNumbersAll f items)
  | .obj members => .obj (mapNumbersMembers f members)
  | v => v

@[inherit_doc mapNumbers]
def mapNumbersAll (f : Numeral → Numeral) : List Json → List Json
  | [] => []
  | v :: rest => mapNumbers f v :: mapNumbersAll f rest

@[inherit_doc mapNumbers]
def mapNumbersMembers (f : Numeral → Numeral) : List (String × Json) → List (String × Json)
  | [] => []
  | (k, v) :: rest => (k, mapNumbers f v) :: mapNumbersMembers f rest
end

end Json

end Lossless
