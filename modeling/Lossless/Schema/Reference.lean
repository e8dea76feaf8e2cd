import Lossless.Schema.Basic
import Lossless.Text.Quoted

/-!
# Schema — references

A reference is the fragment of a web address: bytes may be written as a percent sign and two
hexadecimal digits, and the decoded fragment is a pointer into the JSON form of the document.  The
pointer has tokens with slashes between them; in a token `~1` stands for a slash and `~0` for a
tilde.  A definition whose name has none of these characters is found under its name; any other
reference leads where its pointer leads, if anywhere.
-/

namespace Lossless

/-- Why a schema document cannot be used. -/
inductive SchemaFault where
  /-- A rule requires the same key twice. -/
  | repeatedKey
  /-- A reference has a percent sign without two digits. -/
  | badEscape (reference : String) (part : Text)
  /-- An object has no member of this name. -/
  | noMember (key : Text)
  /-- A token is no position of an array. -/
  | noPosition (token : Text)
  /-- An array has no item at this position. -/
  | noItem (length : Nat) (position : Int)
  /-- A value has no parts for a token to pick. -/
  | noParts (token : Text)
  /-- What is referred to is no schema. -/
  | noSchema
  deriving DecidableEq, Repr

/-- The text of a fault. -/
def SchemaFault.message : SchemaFault → Text
  | .repeatedKey => "required items must be unique"
  | .badEscape r part =>
    "parse " ++ Text.quoteString r ++ ": invalid URL escape " ++ Text.quote part
  | .noMember k => Text.ofString "Object has no key '" ++ k ++ Text.ofString "'"
  | .noPosition t => Text.ofString "Invalid array index '" ++ t ++ Text.ofString "'"
  | .noItem n i => "Out of bound array[0," ++ toString n ++ "] index '" ++ toString i ++ "'"
  | .noParts t => Text.ofString "Invalid token reference '" ++ t ++ Text.ofString "'"
  | .noSchema => "valid schema must be of type object"

namespace Reference

def percent : UInt8 := 37
def slash : UInt8 := 47
def tilde : UInt8 := 126

/-- The value of a hexadecimal digit. -/
def hexValue? (b : UInt8) : Option UInt8 :=
  if 48 ≤ b && b ≤ 57 then some (b - 48)
  else if 97 ≤ b && b ≤ 102 then some (b - 87)
  else if 65 ≤ b && b ≤ 70 then some (b - 55)
  else none

/-- The bytes that a fragment stands for; the first bytes of a faulty escape when it has one. -/
def unescape : Text → Except Text Text
  | [] => .ok []
  | b :: rest =>
    if b ≠ percent then (unescape rest).map (b :: ·)
    else match rest with
      | x :: y :: more =>
        match hexValue? x, hexValue? y with
        | some h, some l => (unescape more).map ((16 * h + l) :: ·)
        | _, _ => .error [b, x, y]
      | _ => .error (b :: rest)

/-- Replaces a tilde and `digit` by a byte. -/
def replaceTilde (digit new : UInt8) : Text → Text
  | [] => []
  | [b] => [b]
  | b :: c :: rest =>
    if b = tilde && c = digit then new :: replaceTilde digit new rest
    else b :: replaceTilde digit new (c :: rest)

/-- The key that a token stands for. -/
def keyOf (token : Text) : Text := replaceTilde 48 tilde (replaceTilde 49 slash token)

/-- The part of a value that a token picks. -/
def pick (v : Json) (token : Text) : Except SchemaFault Json :=
  match v with
  | .obj ms =>
    match ms.find? fun m => Text.ofString m.1 = keyOf token with
    | some m => .ok m.2
    | none => .error (.noMember (keyOf token))
  | .arr vs =>
    match Decimal.int64? token.chars with
    | none => .error (.noPosition token)
    | some i =>
      match (if 0 ≤ i then vs[i.toNat]? else none) with
      | some w => .ok w
      | none => .error (.noItem vs.length i)
  | _ => .error (.noParts token)

end Reference

/-! ### Schemas from their JSON form -/

/-- The strings of an array. -/
def Json.strings : Json → List String
  | .arr vs => vs.filterMap fun
    | .str s => some s
    | _ => none
  | _ => []

/-- A small number. -/
def Json.toNat : Json → Nat
  | .number n => (n.text.toNat?).getD 0
  | _ => 0

/-- The type of a name. -/
def JsonType.ofName? (name : String) : Option JsonType :=
  [JsonType.object, .array, .string, .integer].find? (·.name = name)

mutual
/-- The schema of a JSON form. Members that state no rule say nothing. -/
def Schema.ofJson : Json → Schema
  | .obj ms => schemaOfMembers ms
  | _ => .rules []

/-- The schema of members: the reference among them, or the rules that they state. -/
def schemaOfMembers (ms : List (String × Json)) : Schema :=
  let rules := rulesOfMembers ms
  match Json.member? ms "$ref" with
  | some (.str s) => .ref (String.ofList (s.toList.drop (definitionPointer "").length))
  | _ => .rules rules

/-- The rules that members state. -/
def rulesOfMembers : List (String × Json) → List Constraint
  | [] => []
  | (k, v) :: rest => (ruleOfMember? k v).toList ++ rulesOfMembers rest

/-- The rule that a member states. -/
def ruleOfMember? (key : String) : Json → Option Constraint
  | .str s =>
    if key = "type" then (JsonType.ofName? s).map .type
    else if key = "const" then some (.const s)
    else none
  | .arr vs =>
    if key = "enum" then some (.enum (Json.strings (.arr vs)))
    else if key = "required" then some (.required (Json.strings (.arr vs)))
    else if key = "oneOf" then some (.oneOf (schemasOfItems vs))
    else if key = "anyOf" then some (.anyOf (schemasOfItems vs))
    else none
  | .obj ms =>
    if key = "properties" then some (.properties (propsOfMembers ms))
    else if key = "items" then some (.items (schemaOfMembers ms))
    else none
  | .number n =>
    if key = "minLength" then some (.minLength (Json.number n).toNat)
    else if key = "minimum" then some (.minimum (Json.number n).toNat)
    else none
  | _ => none

/-- The schemas of the items of an array. -/
def schemasOfItems : List Json → List Schema
  | [] => []
  | v :: rest => Schema.ofJson v :: schemasOfItems rest

/-- The schemas of the members of an object. -/
def propsOfMembers : List (String × Json) → List (String × Schema)
  | [] => []
  | (k, v) :: rest => (k, Schema.ofJson v) :: propsOfMembers rest
end

/-! ### Resolution -/

/-- Whether a name is found as it stands when it is part of a reference. -/
def isPlainName (name : String) : Bool :=
  name.toList.all fun c => c ≠ '%' && c ≠ '/' && c ≠ '~'

namespace SchemaDocument

/-- The schema that the reference to a name leads to. -/
def resolve (d : SchemaDocument) (name : String) : Except SchemaFault Schema := do
  let pointer := definitionPointer name
  let written := Text.ofString (String.ofList (pointer.toList.drop 1))
  let fragment ← (Reference.unescape written).mapError (.badEscape pointer)
  let target ← ((fragment.splitOn Reference.slash).drop 1).foldlM Reference.pick d.toJson
  match target with
  | .obj _ => return Schema.ofJson target
  | _ => throw .noSchema

/-- Whether no rule of a schema requires the same key twice. -/
def requiresOnce : Schema → Bool
  | .ref _ => true
  | .rules rules => rules.all fun
    | .required keys => keys.eraseDups.length == keys.length
    | _ => true

/-- The document with every definition replaced by what the reference to its name leads to. -/
def linked (d : SchemaDocument) : Except SchemaFault SchemaDocument := do
  let definitions ← d.definitions.mapM fun (name, own) => do
    let s ← if isPlainName name then .ok own else d.resolve name
    if requiresOnce s && requiresOnce own then return (name, s) else throw .repeatedKey
  return { d with definitions }

end SchemaDocument

end Lossless
