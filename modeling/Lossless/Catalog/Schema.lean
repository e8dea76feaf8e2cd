import Lossless.Catalog.Basic
import Lossless.Schema.Basic

/-!
# Catalog — the schema of parser documents

The schema accepts the trees that parser documents describe for a catalog: missing nodes, lists,
tokens with their trivia, and every composite kind with all its keys.
-/

namespace Lossless.Catalog

/-- The definition that describes a composite kind. -/
def kindDefinition (name : String) : String := "kind." ++ name

/-- The reference to any node. -/
def anyNode : Schema := .ref "node"

/-- Sets a property: a later one with the same key replaces the value. -/
def setProperty (props : List (String × Schema)) (p : String × Schema) : List (String × Schema) :=
  if props.any (·.1 = p.1) then props.map fun q => if q.1 = p.1 then p else q else props ++ [p]

/-- Objects of a kind with further required keys and properties. -/
def objectSchema (kind : String) (required : List String) (props : List (String × Schema)) :
    Schema :=
  .rules [
    .type .object,
    .required ("kind" :: required),
    .properties (props.foldl setProperty [("kind", .rules [.const kind])])]

/-- The schema of a composite kind. -/
def kindSchema (k : Kind) : Schema :=
  objectSchema k.name (k.slots.map (·.key)) (k.slots.map fun s => (s.key, anyNode))

/-- The schema of a kind name: one of the declared names, or any non-empty one. -/
def kindNameSchema (declared : List String) : Schema :=
  if declared.isEmpty then .rules [.type .string, .minLength 1] else .rules [.enum declared]

/-- A text is given by its characters or by its width. -/
def textProperties : List (String × Schema) :=
  [("text", .rules [.type .string]), ("width", .rules [.type .integer, .minimum 0])]

/-- Either the text or its width is there. -/
def textOrWidth : Constraint :=
  .anyOf [.rules [.required ["text"]], .rules [.required ["width"]]]

/-- The schema of a piece of trivia. -/
def triviaSchema (c : Catalog) : Schema :=
  .rules [
    .type .object,
    .required ["kind"],
    .properties (("kind", kindNameSchema c.triviaKinds) :: textProperties),
    textOrWidth]

/-- The schema of the body of a token. -/
def tokenBodySchema (c : Catalog) : Schema :=
  let triviaList : Schema := .rules [.type .array, .items (.ref "trivia")]
  .rules [
    .type .object,
    .required ["kind"],
    .properties (("kind", kindNameSchema c.tokenKinds) :: textProperties
      ++ [("leading", triviaList), ("trailing", triviaList)]),
    textOrWidth]

/-- The references to all shapes of nodes. -/
def nodeAlternatives (c : Catalog) : List Schema :=
  [.ref "missing", .ref "list", .ref "token"]
    ++ c.sortedKinds.map fun k => .ref (kindDefinition k.name)

/-- The schema of the trees of a catalog. -/
def schema (c : Catalog) : SchemaDocument where
  title := c.language ++ " parse tree"
  definitions :=
    c.sortedKinds.map (fun k => (kindDefinition k.name, kindSchema k)) ++ [
      ("node", .rules [.oneOf c.nodeAlternatives]),
      ("missing", objectSchema "missing" [] []),
      ("list", objectSchema "list" ["elements"]
        [("elements", .rules [.type .array, .items anyNode])]),
      ("trivia", c.triviaSchema),
      ("token", objectSchema "token" ["token"] [("token", c.tokenBodySchema)])]
  root := .rules [.oneOf c.nodeAlternatives]

/-- The text of the schema. -/
def schemaText (c : Catalog) : String := c.schema.toJson.indented

end Lossless.Catalog
