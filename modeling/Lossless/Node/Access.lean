import Lossless.Node.Basic
import Lossless.Node.Error
import Lossless.Node.Make

/-!
# Node — reaching children

Children are reached by position or by slot name.  Reaching a child through its slot also narrows it
to the variants that the slot declares, and further to a class if the caller asks for one.
-/

namespace Lossless

namespace Node

/-- The child at a position. -/
def child (n : Node) (i : Int) : Except Misuse Node :=
  match n with
  | .token t => .error (.tokenChild t.kind i)
  | .missing => .error (.missingChild i)
  | n => match nth? n.children i with
    | some c => .ok c
    | none => .error .outOfRange

/-- The name of a child position. List positions are named by their number, whatever it is. -/
def slotName (n : Node) (i : Int) : Except Misuse String :=
  match n with
  | .token t => .error (.tokenSlot t.kind i)
  | .missing => .error (.missingSlot i)
  | .list .. => .ok (toString i)
  | .composite _ k _ _ => match nth? k.slots i with
    | some s => .ok s.name
    | none => .error .outOfRange

/-- The children with the names of their positions. -/
def namedChildren (n : Node) : List (String × Node) := n.slotNames.zip n.children

/-- Checks a node against a set of variants. -/
def narrow (n : Node) (want : VariantSet) : Except NodeError Node :=
  if want.accepts n.nodeClass n.kind then .ok n
  else .error (.unexpected { want, got := n.kind, gotClass := n.nodeClass })

end Node

/-- The variants of a set that are of one class; if there is none, the variant for any node of
that class. -/
def VariantSet.ofClass (vs : VariantSet) (cls : NodeClass) : VariantSet :=
  match vs.filter (·.nodeClass = cls) with
  | [] => [⟨cls, if cls = .token then "" else cls.name⟩]
  | members => members

namespace Composite

/-- The child in a slot, as it is. -/
def untyped (c : Composite) (slot : String) : Except NodeError Node :=
  match c.kind.slot? slot with
  | none => .error (.unknownSlot c.kind.name slot)
  | some (i, _) => .ok (c.children.getD i .missing)

/-- Whether a slot holds something. Unknown slots hold nothing. -/
def has (c : Composite) (slot : String) : Bool :=
  match c.kind.slot? slot with
  | none => false
  | some (i, _) => !(c.children.getD i .missing).isMissing

/-- The child in a slot, which has to be of a variant that the slot declares. -/
def get (c : Composite) (slot : String) : Except NodeError Node :=
  match c.kind.slot? slot with
  | none => .error (.unknownSlot c.kind.name slot)
  | some (i, s) =>
    let child := c.children.getD i .missing
    if s.variants.accepts child.nodeClass child.kind then .ok child
    else .error (.unexpected
      { parent := c.kind.name, slot, want := s.variants, got := child.kind,
        gotClass := child.nodeClass })

/-- The child in a slot, which has to be of a declared variant and of the given class. -/
def getOfClass (c : Composite) (cls : NodeClass) (slot : String) : Except NodeError Node :=
  match c.get slot with
  | .error e => .error e
  | .ok child =>
    if child.nodeClass = cls then .ok child
    else
      let declared := match c.kind.slot? slot with
        | some (_, s) => s.variants
        | none => []
      .error (.unexpected
        { parent := c.kind.name, slot, want := VariantSet.ofClass declared cls, got := child.kind,
          gotClass := child.nodeClass })

/-- The token in a slot. -/
def getToken (c : Composite) (slot : String) : Except NodeError Token :=
  match c.getOfClass .token slot with
  | .ok (.token t) => .ok t
  | .ok _ => .error .noChild
  | .error e => .error e

/-- The composite in a slot. -/
def getComposite (c : Composite) (slot : String) : Except NodeError Composite :=
  match c.getOfClass .composite slot with
  | .ok (.composite id k cs w) => .ok ⟨id, k, cs, w⟩
  | .ok _ => .error .noChild
  | .error e => .error e

end Composite

end Lossless
