import Lossless.Catalog.Document
import Lossless.Yaml.Document

/-!
# Catalog — loading catalogs from text

A catalog document is written as a YAML mapping.  Scalars of any type stand for their own text, a
null leaves a field empty or drops a list item, and fields that are unknown or given twice are
errors. -/

namespace Lossless

namespace Catalog

/-- The string of a value; none inside for a null. -/
def stringValue : Yaml.Value → Option (Option String)
  | .atom meaning text => some (meaning.text? text)
  | _ => none

/-- Whether a value is null. -/
def isNull : Yaml.Value → Bool
  | .atom .null _ => true
  | _ => false

/-- The list of a value, with every item read by `item`; null items are dropped. -/
def listValue {α : Type} (item : Yaml.Value → Option (Option α)) : Yaml.Value → Option (List α)
  | .list xs => (xs.mapM item).map fun ys => ys.filterMap id
  | v => if isNull v then some [] else none

/-- Whether no name occurs twice. -/
def areDistinct : List String → Bool
  | [] => true
  | name :: rest => !rest.contains name && areDistinct rest

/-- The fields of a record: every entry is read by `field`, which fails on an unknown name. No field
is given twice. -/
def recordValue {α : Type} (empty : α) (field : α → String → Yaml.Value → Option α) :
    Yaml.Value → Option (Option α)
  | .map es =>
    if areDistinct (Yaml.namesOf es) then
      (es.foldlM (fun (r : α) ((name, v) : Option String × Yaml.Value) =>
        match name with
        | none => some r
        | some name => field r name v) empty).map some
    else none
  | v => if isNull v then some none else none

/-- The slot document of a value. -/
def slotValue : Yaml.Value → Option (Option SlotDocument) :=
  recordValue {} fun d name v =>
    match name with
    | "name" => (stringValue v).map fun s => { d with name := s.getD "" }
    | "json" => (stringValue v).map fun s => { d with key := s.getD "" }
    | "variants" => (listValue stringValue v).map fun vs => { d with variants := vs }
    | _ => none

/-- The kind document of a value. -/
def kindValue : Yaml.Value → Option (Option KindDocument) :=
  recordValue {} fun d name v =>
    match name with
    | "name" => (stringValue v).map fun s => { d with name := s.getD "" }
    | "prefix" => (stringValue v).map fun s => { d with stem := s.getD "" }
    | "slots" => (listValue slotValue v).map fun ss => { d with slots := ss }
    | _ => none

/-- The catalog document of a value. -/
def documentValue : Yaml.Value → Option (Option CatalogDocument) :=
  recordValue {} fun d name v =>
    match name with
    | "language" => (stringValue v).map fun s => { d with language := s.getD "" }
    | "extensions" => (listValue stringValue v).map fun xs => { d with extensions := xs }
    | "tokens" => (listValue stringValue v).map fun xs => { d with tokens := xs }
    | "trivia" => (listValue stringValue v).map fun xs => { d with trivia := xs }
    | "kinds" => (listValue kindValue v).map fun ks => { d with kinds := ks }
    | _ => none

/-- The catalog document of a text; an empty text is an empty document. -/
def readDocument? (text : Text) : Option CatalogDocument := do
  match ← Yaml.read? true text with
  | none => return {}
  | some v => return (← documentValue v).getD {}

/-- The catalog of a text. -/
def load (text : Text) : Except CatalogError Catalog :=
  match readDocument? text with
  | none => .error .undecodable
  | some d => d.compile

end Catalog

end Lossless
