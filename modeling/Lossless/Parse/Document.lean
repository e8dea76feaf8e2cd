import Lossless.Catalog.Schema
import Lossless.Json.Reader
import Lossless.Parse.Build
import Lossless.Schema.Reference

/-!
# Parse — parser documents

A parser document is a JSON object that holds the described tree under `parse_tree` and its source
under `program_text`.  What follows the object is ignored.

Why data cannot be decoded, and what a schema is found to be violated by, is told in words that others
choose (`Wording`).
-/

namespace Lossless.Parse

/-- A decoded parser document: the described tree and the source text. -/
structure Document where
  tree : Json
  source : Text

/-- What a validator objects to: a place in the tree, what is wrong there, and one text for both. -/
structure Objection where
  field : String
  description : String
  text : String

/-- The words for faults that are found by others. -/
structure Wording where
  /-- What a decoder says of data that are no JSON object. -/
  undecodable : Text → String
  /-- What a validator objects to in a tree that does not conform to a schema. -/
  objections : SchemaDocument → Json → List Objection

/-- Decodes a parser document. A null document has no members. -/
def Document.decode (words : Wording) (data : Text) (file : String) : Except Malformed Document :=
  let invalid (reason : MalformedReason) : Except Malformed Document :=
    .error { file, path := "$", reason }
  let split (members : List (String × Json)) : Except Malformed Document :=
    match Json.member? members "parse_tree" with
    | none => invalid .noTree
    | some tree =>
      match Json.member? members "program_text" with
      | some (.str source) => .ok ⟨tree, source⟩
      | _ => invalid .noProgramText
  match Json.readFirst? data.chars with
  | some (.obj members, _) => split members
  | some (.null, _) => split []
  | _ => invalid (.invalidJson (words.undecodable data))

/-- The tree of a parser document. -/
def fromDocument (words : Wording) (c : Catalog) (data : Text) (file : String) :
    Make Malformed Node := do
  let d ← Document.decode words data file
  fromDecoded c d.tree d.source file

/-- The schema of a catalog cannot be used. -/
structure BadSchema where
  language : String
  fault : SchemaFault
  deriving DecidableEq, Repr

/-- The text of the error. -/
def BadSchema.message (e : BadSchema) : Text :=
  Text.ofString ("validate " ++ e.language ++ " parse tree: ") ++ e.fault.message

/-- Whether a described tree conforms to the schema of its catalog. Source offsets are not
checked. -/
def validate (c : Catalog) (tree : Json) : Except BadSchema Bool :=
  match c.schema.linked with
  | .ok d => .ok (d.conforms tree)
  | .error f => .error ⟨c.language, f⟩

/-- The error for a tree that does not conform to the schema. Its place is that of the first
objection. -/
def schemaError (file : String) : List Objection → Malformed
  | [] => { file, path := "$", reason := .schema [] }
  | first :: rest =>
    { file, path := "$." ++ first.field, reason := .schema ((first :: rest).map (·.text)) }

end Lossless.Parse
