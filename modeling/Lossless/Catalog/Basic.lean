import Lossless.Catalog.Variant

/-!
# Catalog — grammars of syntax trees

A catalog describes the trees of one language: for every composite kind the ordered list of its
named slots, and the kinds of tokens and trivia.
-/

namespace Lossless

/-- A named child position of a composite kind. Parser documents hold the child under `key`. -/
structure Slot where
  name : String
  key : String
  variants : VariantSet
  deriving DecidableEq, Repr

/-- A kind of composite nodes. The keys of its slots start with `stem` by default. -/
structure Kind where
  name : String
  stem : String
  slots : List Slot
  deriving DecidableEq, Repr

namespace Kind

/-- The number of slots. -/
def arity (k : Kind) : Nat := k.slots.length

/-- The names of the slots in declared order. -/
def slotNames (k : Kind) : List String := k.slots.map (·.name)

/-- The first slot of a list with the given name, and its position counted from `i`. -/
def findSlot (name : String) : (i : Nat) → List Slot → Option (Nat × Slot)
  | _, [] => none
  | i, s :: rest => if s.name = name then some (i, s) else findSlot name (i + 1) rest

/-- The slot with the given name, and its position. -/
def slot? (k : Kind) (name : String) : Option (Nat × Slot) := findSlot name 0 k.slots

/-- The slot at a position. -/
def slotAt? (k : Kind) (i : Nat) : Option Slot := k.slots[i]?

end Kind

/-- The grammar of one language. -/
structure Catalog where
  language : String
  extensions : List String
  /-- The composite kinds in declared order. -/
  kinds : List Kind
  /-- The declared token kinds; none means that every non-empty name is one. -/
  tokens : List String
  /-- The declared trivia kinds; none means that every non-empty name is one. -/
  trivia : List String
  deriving DecidableEq, Repr

/-- Names in ascending byte order, each once. -/
def sortedNames (names : List String) : List String :=
  names.eraseDups.mergeSort fun a b => decide (a ≤ b)

namespace Catalog

/-- The composite kind of a name. -/
def kind? (c : Catalog) (name : String) : Option Kind := c.kinds.find? (·.name = name)

/-- The composite kinds in ascending order of their names. -/
def sortedKinds (c : Catalog) : List Kind :=
  c.kinds.mergeSort fun a b => decide (a.name ≤ b.name)

/-- Membership in a declared list of names, where an empty list stands for all non-empty names. -/
def declares (names : List String) (name : String) : Bool :=
  if names.isEmpty then name != "" else names.contains name

/-- Whether `kind` is a token kind. -/
def isToken (c : Catalog) (kind : String) : Bool := declares c.tokens kind

/-- Whether `kind` is a trivia kind. -/
def isTrivia (c : Catalog) (kind : String) : Bool := declares c.trivia kind

/-- The declared token kinds in ascending order. -/
def tokenKinds (c : Catalog) : List String := sortedNames c.tokens

/-- The declared trivia kinds in ascending order. -/
def triviaKinds (c : Catalog) : List String := sortedNames c.trivia

end Catalog

end Lossless
