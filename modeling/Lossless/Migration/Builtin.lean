import Lossless.Migration.Basic
import Lossless.Migration.Trivia
import Lossless.Node.Access

/-!
# Migration — the built-in migrations

Two migrations of Hack trees: shape fields with a nullable type become optional, and switch labels
end with a colon.
-/

namespace Lossless

namespace Migration

/-- A failed look at a node as a failure of the transform. -/
def looking {α : Type} (r : Except NodeError α) : Make Failure α := fun supply =>
  match r with
  | .ok a => .ok (a, supply)
  | .error e => .error (.node e)

/-- Puts a question mark in front of a shape field that has none although its type is nullable. -/
def optionalField : PureTransform := fun n _ =>
  match n.composite? with
  | none => pure (some n)
  | some field =>
    if field.kind.name ≠ "field_specifier" || field.has "question" then pure (some n)
    else do
      let type ← looking (field.get "type")
      if type.kind ≠ "nullable_type_specifier" then return some n
      let name ← looking (field.getComposite "name")
      let mark ← Token.make "question" [] "?" []
      let (name, mark) ← moveLeadingTrivia name.toNode mark
      let field ← orFail (field.withSlot "question" (some (.token mark)))
      let field ← orFail (field.withSlot "name" (some name))
      return some field.toNode

/-- Ends the labels of a kind with a colon. Labels without an end stay as they are. -/
def labelColon (kind : String) : PureTransform := fun n _ =>
  match n.composite? with
  | none => pure (some n)
  | some label =>
    if label.kind.name ≠ kind || !label.has "colon" then pure (some n)
    else do
      let stop ← looking (label.getToken "colon")
      let colon ← stop.withKindAndText "colon" ":"
      let label ← orFail (label.withSlot "colon" (some (.token colon)))
      return some label.toNode

/-- Makes shape fields with a nullable type optional. -/
def optionalShapeFields : Migration where
  name := "optional-shape-fields"
  description :=
    "Mark shape fields with a nullable type as optional: 'a' => ?int becomes ?'a' => ?int."
  steps := [⟨"make-nullable-fields-optional", optionalField⟩]
  steps_ne_nil := by simp

/-- Ends switch labels with a colon. -/
def labelColons : Migration where
  name := "label-colons"
  description := "Terminate switch labels with ':' instead of ';'."
  steps := [⟨"default-label-colon", labelColon "default_label"⟩,
    ⟨"case-label-colon", labelColon "case_label"⟩]
  steps_ne_nil := by simp

/-- The built-in migrations. -/
def builtins : List Migration := [optionalShapeFields, labelColons]

end Migration

end Lossless
