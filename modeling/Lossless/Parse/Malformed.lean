import Lossless.Json.Basic
import Lossless.Node.Error

/-!
# Parse — malformed parser input

Where and why parser input cannot be turned into a tree: the path to the offending value, the kind
of node being built, the offset reached in the source, and a reason.
-/

namespace Lossless

/-- A step from a JSON value to one of its parts. -/
inductive PathStep where
  | key (key : String)
  | index (i : Nat)
  deriving DecidableEq, Repr

/-- A path from the root of a JSON value to one of its parts. -/
abbrev ValuePath := List PathStep

/-- The text of a step. -/
def PathStep.text : PathStep → String
  | .key k => "." ++ k
  | .index i => "[" ++ toString i ++ "]"

/-- The text of a path. -/
def ValuePath.text (p : ValuePath) : String := "$" ++ String.join (p.map PathStep.text)

/-- What a message says of an unexpected JSON value; an absent one is described like null. -/
def Json.describe : Json → String
  | .null => "null"
  | .bool _ => "boolean"
  | .number n => "number " ++ n.text
  | .str s => "string " ++ Text.quoteString s
  | .arr _ => "array"
  | .obj _ => "object"

/-- Why parser input is malformed. -/
inductive MalformedReason where
  | startOutside (length : Nat)
  | notObject (got : String)
  | noKind
  | unknownKind
  | missingKey (key : String)
  | noElements
  | noToken
  | unknownToken (got : String)
  | notTriviaList (got : String)
  | notTrivia (got : String)
  | unknownTrivia (got : String)
  | textNotString
  | textDiffers (text : String)
  | noInteger (got : String)
  | widthOutside (width : Int)
  | node (e : NodeError)
  | uncovered (width length : Nat)
  | invalidJson (detail : String)
  | noTree
  | noProgramText
  | schema (objections : List String)
  deriving DecidableEq, Repr

/-- The text of a reason. -/
def MalformedReason.message : MalformedReason → String
  | .startOutside n => "start offset outside source of " ++ toString n ++ " bytes"
  | .notObject got => "expected object, got " ++ got
  | .noKind => "missing or non-string \"kind\""
  | .unknownKind => "unknown kind"
  | .missingKey key => "missing key " ++ Text.quoteString key
  | .noElements => "missing or non-array \"elements\""
  | .noToken => "missing or non-object \"token\""
  | .unknownToken got => "unknown token kind " ++ got
  | .notTriviaList got => "expected trivia array, got " ++ got
  | .notTrivia got => "expected trivia object, got " ++ got
  | .unknownTrivia got => "unknown trivia kind " ++ got
  | .textNotString => "non-string \"text\""
  | .textDiffers text => "text " ++ Text.quoteString text ++ " does not match source"
  | .noInteger got => "need \"text\" or \"width\": not an integer: " ++ got
  | .widthOutside w => "width " ++ toString w ++ " runs past end of source"
  | .node e => e.message
  | .uncovered w n => "tree covers " ++ toString w ++ " of " ++ toString n ++ " source bytes"
  | .invalidJson detail => "invalid JSON: " ++ detail
  | .noTree => "missing key \"parse_tree\""
  | .noProgramText => "missing or non-string \"program_text\""
  | .schema [] => "schema validation failed"
  | .schema objections => String.intercalate "; " objections

/-- Parser input that cannot be turned into a tree. -/
structure Malformed where
  file : String
  path : String
  kind : String := ""
  offset : Int := 0
  reason : MalformedReason
  deriving DecidableEq, Repr

/-- The text of the error. -/
def Malformed.message (e : Malformed) : String :=
  "malformed parser input" ++ (if e.file = "" then "" else " in " ++ e.file)
    ++ " at " ++ e.path ++ " (offset " ++ toString e.offset
    ++ (if e.kind = "" then "" else ", kind " ++ e.kind) ++ "): " ++ e.reason.message

end Lossless
