import Lossless.Text.Blank
import Lossless.Text.Quoted

/-!
# Catalog — variants

A variant names a set of nodes: the missing node, lists, tokens (of one kind or of any) or
composites of one kind.  A slot of a composite declares which variants it may hold.
-/

namespace Lossless

/-- The structural class of a node. Codes other than those of the four classes are representable,
since callers may name a class by its code. -/
inductive NodeClass where
  | composite
  | list
  | token
  | missing
  | other (code : UInt8)
  deriving DecidableEq, Repr

namespace NodeClass

/-- The class of a code, which is one byte. -/
def ofCode : UInt8 → NodeClass
  | 1 => .composite
  | 2 => .list
  | 3 => .token
  | 4 => .missing
  | n => .other n

/-- The name of a class. -/
def name : NodeClass → String
  | .composite => "composite"
  | .list => "list"
  | .token => "token"
  | .missing => "missing"
  | .other n => "Class(" ++ toString n.toNat ++ ")"

end NodeClass

/-- A kind of node that a slot may hold. A token variant without a kind stands for every token. -/
structure Variant where
  nodeClass : NodeClass
  kind : String
  deriving DecidableEq, Repr

/-- Why an expression is no variant. -/
inductive VariantError where
  | empty
  | invalid (expr : String)
  deriving DecidableEq, Repr

/-- The text of a variant error. -/
def VariantError.message : VariantError → String
  | .empty => "invalid variant: empty expression"
  | .invalid expr => "invalid variant: " ++ Text.quoteString expr

namespace Variant

/-- The characters that start a token variant with a kind. -/
def tokenStem : List Char := "token:".toList

/-- The variant of a trimmed expression: `missing`, `list`, `token`, `token:` and a kind, or the
name of a composite kind, which has neither a colon nor a blank. -/
def ofTrimmed (expr : String) : Except VariantError Variant :=
  if expr = "" then .error .empty
  else if expr = "missing" then .ok ⟨.missing, "missing"⟩
  else if expr = "list" then .ok ⟨.list, "list"⟩
  else if expr = "token" then .ok ⟨.token, ""⟩
  else if tokenStem.isPrefixOf expr.toList then
    let kind := String.ofList (expr.toList.drop tokenStem.length)
    if kind = "" then .error (.invalid expr) else .ok ⟨.token, kind⟩
  else if expr.toList.any fun c => c = ':' || c = ' ' then .error (.invalid expr)
  else .ok ⟨.composite, expr⟩

/-- The variant of an expression; white space around it does not matter. -/
def parse (expr : String) : Except VariantError Variant := ofTrimmed (Text.trim expr)

/-- Whether a node of the given class and kind is of this variant. -/
def matches? (v : Variant) (cls : NodeClass) (kind : String) : Bool :=
  v.nodeClass == cls && ((v.nodeClass == .token && v.kind == "") || v.kind == kind)

/-- The expression of a variant. -/
def text (v : Variant) : String :=
  match v.nodeClass with
  | .token => if v.kind = "" then "token" else "token:" ++ v.kind
  | .other _ => "?" ++ v.kind
  | _ => v.kind

end Variant

/-- The variants that a slot may hold. The empty set stands for every node. -/
abbrev VariantSet := List Variant

namespace VariantSet

/-- Whether a node of the given class and kind belongs to the set. -/
def accepts (vs : VariantSet) (cls : NodeClass) (kind : String) : Bool :=
  vs.isEmpty || vs.any (·.matches? cls kind)

/-- Whether the missing node belongs to the set. -/
def allowsMissing (vs : VariantSet) : Bool := vs.accepts .missing "missing"

/-- The expressions of the set with bars between them. -/
def text (vs : VariantSet) : String :=
  if vs.isEmpty then "any" else String.intercalate " | " (vs.map Variant.text)

end VariantSet

end Lossless
