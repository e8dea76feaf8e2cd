import Lossless.Json.Writer
import Lossless.Decimal.Reading

/-!
# Schema — shapes of JSON values

A schema is a reference to a definition or a list of rules; a value conforms to it when it obeys
every rule.  A schema document adds named definitions.  Besides its meaning (`Schema.accepts`) a
schema has a JSON form (`Schema.toJson`).
-/

namespace Lossless

/-- The types of values that a schema tells apart. -/
inductive JsonType where
  | object
  | array
  | string
  | integer
  deriving DecidableEq, Repr

mutual
/-- A schema. -/
inductive Schema where
  | ref (definition : String)
  | rules (rules : List Constraint)

/-- A rule of a schema. -/
inductive Constraint where
  | type (type : JsonType)
  | const (value : String)
  | enum (values : List String)
  | minLength (n : Nat)
  | minimum (n : Nat)
  | required (keys : List String)
  | properties (props : List (String × Schema))
  | items (schema : Schema)
  | oneOf (alternatives : List Schema)
  | anyOf (alternatives : List Schema)
end

/-- A schema with named definitions. -/
structure SchemaDocument where
  title : String
  definitions : List (String × Schema)
  root : Schema

/-! ### Meaning -/

/-- Whether the exponent of a numeral, as it is written, has at most 64 bits. -/
def hasShortExponent (cs : List Char) : Bool :=
  match cs.dropWhile fun c => c ≠ 'e' && c ≠ 'E' with
  | [] => true
  | _ :: e => (Decimal.int64? e).isSome

/-- The greatest power of ten that a numeral other than zero may be scaled by. -/
def exponentLimit : Nat := 1000000

/-- Whether a numeral stands for an integer, whatever its notation. Numerals that are scaled too far
stand for nothing. -/
def Numeral.isIntegral (n : Numeral) : Bool :=
  match Decimal.scientific? n.text.toList with
  | none => false
  | some s =>
    hasShortExponent n.text.toList && (s.significand = 0 || (s.exponent.natAbs ≤ exponentLimit
      && (0 ≤ s.exponent
        || (decide ((-s.exponent).toNat < (Nat.toDigits 10 s.significand).length)
          && s.significand % Nat.pow 10 (-s.exponent).toNat == 0))))

/-- Whether a numeral stands for a number below zero. -/
def Numeral.isNegative (n : Numeral) : Bool :=
  match Decimal.scientific? n.text.toList with
  | none => false
  | some s => s.negative && s.significand != 0

/-- Whether a numeral stands for a number below `k`. -/
def Numeral.isBelow (n : Numeral) (k : Nat) : Bool :=
  match Decimal.scientific? n.text.toList with
  | none => false
  | some s =>
    if s.significand = 0 then 0 < k
    else s.negative
      || if 0 ≤ s.exponent then s.significand * Nat.pow 10 s.exponent.toNat < k
        else s.significand < k * Nat.pow 10 (-s.exponent).toNat

@[simp] theorem Numeral.isBelow_zero (n : Numeral) : n.isBelow 0 = n.isNegative := by
  unfold isBelow isNegative
  split
  · rfl
  · next s _ => by_cases h : s.significand = 0 <;> simp [h]

/-- Whether a value is of a type. -/
def JsonType.holds : JsonType → Json → Bool
  | .object, .obj _ => true
  | .array, .arr _ => true
  | .string, .str _ => true
  | .integer, .number n => n.isIntegral
  | _, _ => false

/-- The definition of a name. -/
def SchemaDocument.definition? (d : SchemaDocument) (name : String) : Option Schema :=
  (d.definitions.find? (·.1 = name)).map (·.2)

mutual
/-- Whether a value conforms to a schema of a document. Each step to a definition, a rule or a part
of the value spends one unit of `fuel`. -/
def SchemaDocument.accepts (d : SchemaDocument) (fuel : Nat) (s : Schema) (v : Json) : Bool :=
  match fuel with
  | 0 => false
  | fuel + 1 =>
    match s with
    | .ref name =>
      match d.definition? name with
      | some s => d.accepts fuel s v
      | none => false
    | .rules rules => rules.all fun r => d.obeys fuel r v

/-- Whether a value obeys a rule. A rule about one type of values says nothing about others. -/
def SchemaDocument.obeys (d : SchemaDocument) (fuel : Nat) (r : Constraint) (v : Json) : Bool :=
  match fuel with
  | 0 => false
  | fuel + 1 =>
    match r, v with
    | .type t, v => t.holds v
    | .const c, v => match v with
      | .str s => s == c
      | _ => false
    | .enum cs, v => match v with
      | .str s => cs.contains s
      | _ => false
    | .minLength n, .str s => n ≤ s.length
    | .minimum k, .number n => !n.isBelow k
    | .required keys, .obj ms => keys.all fun k => (Json.member? ms k).isSome
    | .properties props, .obj ms => props.all fun (k, s) =>
      match Json.member? ms k with
      | some w => d.accepts fuel s w
      | none => true
    | .items s, .arr vs => vs.all fun w => d.accepts fuel s w
    | .oneOf alts, v => (alts.filter fun s => d.accepts fuel s v).length == 1
    | .anyOf alts, v => alts.any fun s => d.accepts fuel s v
    | _, _ => true
end

mutual
/-- The number of levels of a value. -/
def Json.depth : Json → Nat
  | .arr items => Json.depthAll items + 1
  | .obj members => Json.depthMembers members + 1
  | _ => 1

@[inherit_doc Json.depth]
def Json.depthAll : List Json → Nat
  | [] => 0
  | v :: rest => max v.depth (Json.depthAll rest)

@[inherit_doc Json.depth]
def Json.depthMembers : List (String × Json) → Nat
  | [] => 0
  | (_, v) :: rest => max v.depth (Json.depthMembers rest)
end

/-- Steps that are spent between one level of a value and the next, at most. -/
def SchemaDocument.stepsPerLevel : Nat := 16

/-- Whether a value conforms to a document. -/
def SchemaDocument.conforms (d : SchemaDocument) (v : Json) : Bool :=
  d.accepts (SchemaDocument.stepsPerLevel * (v.depth + 1)) d.root v

/-! ### The JSON form -/

/-- The name of a type. -/
def JsonType.name : JsonType → String
  | .object => "object"
  | .array => "array"
  | .string => "string"
  | .integer => "integer"

/-- The pointer to a definition of the same document. -/
def definitionPointer (name : String) : String := "#/definitions/" ++ name

/-- An array of strings. -/
def Json.ofStrings (ss : List String) : Json := .arr (ss.map .str)

/-- A natural number. -/
def Json.ofNat (n : Nat) : Json := .number (.literal (toString n))

mutual
/-- The JSON form of a schema. -/
def Schema.toJson : Schema → Json
  | .ref name => .obj [("$ref", .str (definitionPointer name))]
  | .rules rules => .obj (rulesToJson rules)

@[inherit_doc Schema.toJson]
def rulesToJson : List Constraint → List (String × Json)
  | [] => []
  | r :: rest => r.toMember :: rulesToJson rest

/-- The member that states a rule. -/
def Constraint.toMember : Constraint → String × Json
  | .type t => ("type", .str t.name)
  | .const c => ("const", .str c)
  | .enum cs => ("enum", .ofStrings cs)
  | .minLength n => ("minLength", .ofNat n)
  | .minimum n => ("minimum", .ofNat n)
  | .required keys => ("required", .ofStrings keys)
  | .properties props => ("properties", .obj (propsToJson props))
  | .items s => ("items", s.toJson)
  | .oneOf alts => ("oneOf", .arr (schemasToJson alts))
  | .anyOf alts => ("anyOf", .arr (schemasToJson alts))

@[inherit_doc Schema.toJson]
def schemasToJson : List Schema → List Json
  | [] => []
  | s :: rest => s.toJson :: schemasToJson rest

@[inherit_doc Schema.toJson]
def propsToJson : List (String × Schema) → List (String × Json)
  | [] => []
  | (k, s) :: rest => (k, s.toJson) :: propsToJson rest
end

/-- The dialect of the JSON form. -/
def schemaDialect : String := "http://json-schema.org/draft-07/schema#"

/-- The JSON form of a document: the root's rules beside the definitions. -/
def SchemaDocument.toJson (d : SchemaDocument) : Json :=
  let root := match d.root.toJson with
    | .obj ms => ms
    | _ => []
  .obj ([("$schema", .str schemaDialect), ("title", .str d.title),
    ("definitions", .obj (propsToJson d.definitions))] ++ root)

end Lossless
