import Lossless.Decimal.Numeral
import Lossless.Json.Reader
import Lossless.Text.Case
import Lossless.Text.Rune
import Lossless.Yaml.Document

/-!
# Config — values of a file

What a configuration file says is a tree of values.  YAML and JSON files are read into the same
trees: plain YAML scalars stand for what they look like, JSON numbers are doubles, and the keys of
mappings are in lower case.
-/

namespace Lossless.Config

/-- A value of a configuration file. -/
inductive Value where
  | null
  | bool (value : Bool)
  | int (value : Int)
  | float (value : Float)
  | moment
  | str (value : String)
  | list (items : List Value)
  | map (entries : List (String × Value))

namespace Value

instance : Inhabited Value := ⟨.null⟩

/-! ### Files -/

/-- The value that an atom stands for. -/
def ofAtom : Yaml.Atom → Value
  | .null => .null
  | .bool b => .bool b
  | .int i => .int i
  | .float x => .float x
  | .moment => .moment
  | .str s => .str s

mutual
/-- The value of the data of a YAML document. Of entries with the same key the last one counts. -/
def ofYaml : Yaml.Value → Value
  | .atom meaning _ => ofAtom meaning
  | .list items => .list (ofYamlItems items)
  | .map entries => .map (ofYamlEntries entries)

@[inherit_doc ofYaml]
def ofYamlItems : List Yaml.Value → List Value
  | [] => []
  | v :: rest => ofYaml v :: ofYamlItems rest

@[inherit_doc ofYaml]
def ofYamlEntries : List (Option String × Yaml.Value) → List (String × Value)
  | [] => []
  | (none, _) :: rest => ofYamlEntries rest
  | (some key, v) :: rest =>
    let vs := ofYamlEntries rest
    if vs.any (·.1 = Text.lower key) then vs else (Text.lower key, ofYaml v) :: vs
end

mutual
/-- The value of a JSON value; none when a number is beyond the range of doubles. -/
def ofJson? : Json → Option Value
  | .null => some .null
  | .bool b => some (.bool b)
  | .number (.literal t) => (Decimal.float? t).map .float
  | .number (.float x) => some (.float x)
  | .number (.int i) => some (.int i)
  | .str s => some (.str s)
  | .arr items => (ofJsonItems? items).map .list
  | .obj members => (ofJsonMembers? members).map .map

@[inherit_doc ofJson?]
def ofJsonItems? : List Json → Option (List Value)
  | [] => some []
  | v :: rest =>
    match ofJson? v, ofJsonItems? rest with
    | some v, some vs => some (v :: vs)
    | _, _ => none

@[inherit_doc ofJson?]
def ofJsonMembers? : List (String × Json) → Option (List (String × Value))
  | [] => some []
  | (key, v) :: rest =>
    match ofJson? v, ofJsonMembers? rest with
    | some v, some vs =>
      some (if vs.any (·.1 = Text.lower key) then vs else (Text.lower key, v) :: vs)
    | _, _ => none
end

end Value

/-- The entries of a file. -/
abbrev Entries := List (String × Value)

/-- The entries of a file whose top value is a mapping or null. -/
def Value.entries? : Value → Option Entries
  | .null => some []
  | .map entries => some entries
  | _ => none

/-- Reads a YAML file. -/
def ofYamlText? (t : Text) : Option Entries :=
  match Yaml.read? false t with
  | none => none
  | some none => some []
  | some (some v) => (Value.ofYaml v).entries?

/-- Reads a JSON file, which holds one value. -/
def ofJsonText? (t : Text) : Option Entries :=
  ((Json.read? t.chars).bind Value.ofJson?).bind Value.entries?

end Lossless.Config
