import Lossless.Yaml.Atom
import Lossless.Yaml.Node

/-!
# Yaml — what documents stand for

The data of a document: aliases are replaced by what they refer to, and a mapping has the entries of
the mappings that it merges.  Its own entries win over merged ones, and of two merged mappings the
first one wins.  No key may stand twice in a mapping, and keys are scalars.
-/

namespace Lossless.Yaml

/-- The data of a document. A scalar keeps its text beside its meaning; an entry without a name has
null as its key. -/
inductive Value where
  | atom (meaning : Atom) (text : String)
  | list (items : List Value)
  | map (entries : List (Option String × Value))

/-! ### Keys -/

/-- Two keys that a mapping may not both have. -/
def sameKey : Node → Node → Bool
  | .scalar a _ _, .scalar b _ _ => a == b
  | .seq _, .seq _ => true
  | .map _, .map _ => true
  | .alias a _, .alias b _ => a == b
  | .alias a _, .cycle b => a == b
  | .cycle a, .alias b _ => a == b
  | .cycle a, .cycle b => a == b
  | _, _ => false

/-- Whether no key of a mapping occurs twice. -/
def distinctKeys : List (Node × Node) → Bool
  | [] => true
  | (k, _) :: rest => rest.all (fun e => !sameKey k e.1) && distinctKeys rest

/-- Whether a key stands for the mappings to merge. -/
def Node.isMerge : Node → Bool
  | .scalar text plain tag => text = "<<" && ((plain && tag = "") || tag = "!!merge")
  | _ => false

/-- The name that a key stands for: none inside for null. -/
def Node.name? : Node → Option (Option String)
  | .scalar text plain tag => (Atom.ofScalar? text plain tag).map (Atom.text? text)
  | .alias _ target => target.name?
  | _ => none

/-- Whether a key is a text of its own accord. -/
def Node.isName : Node → Bool
  | .scalar text plain tag =>
    if tag = "" then !plain || (Atom.ofText true text).tag = "!!str" else tag = "!!str"
  | .alias _ target => target.isName
  | _ => false

/-- Whether all keys of a mapping are texts. -/
def areNames (entries : List (Node × Node)) : Bool :=
  entries.all fun (k, _) => k.isName || k.isMerge

/-- Whether a node is a mapping. -/
def Node.isMap : Node → Bool
  | .map _ => true
  | _ => false

/-- The names of entries. -/
def namesOf (entries : List (Option String × Value)) : List String := entries.filterMap (·.1)

/-! ### Data -/

/-- The entries of a mapping: its own, and those it merges, which depend on the names that are
taken. -/
def joined? (entries : List (Node × Node)) (seen : List String)
    (own : Option (List (Option String × Value)))
    (merged : List String → Option (List (Option String × Value))) :
    Option (List (Option String × Value)) :=
  if distinctKeys entries then
    match own with
    | none => none
    | some es => (merged ("<<" :: namesOf es ++ seen)).map (es ++ ·)
  else none

mutual
/-- The data of a node; none when it is malformed. A mapping whose keys are names leaves out entries
with null as the key, unread; with `records` every mapping does. -/
def Node.value? (records : Bool) : Node → Option Value
  | .scalar text plain tag =>
    (Atom.ofScalar? text plain tag).map fun a => .atom a ((a.text? text).getD "")
  | .seq items => (itemValues? records items).map .list
  | .map entries =>
    let named := records || areNames entries
    (joined? entries [] (ownEntries? records named [] entries) fun seen =>
      mergedEntries? records named seen entries).map .map
  | .alias _ target => target.value? records
  | .cycle _ => none

/-- The data of the items of a sequence. -/
def itemValues? (records : Bool) : List Node → Option (List Value)
  | [] => some []
  | n :: rest =>
    match n.value? records, itemValues? records rest with
    | some v, some vs => some (v :: vs)
    | _, _ => none

/-- The entries that a mapping has itself. -/
def ownEntries? (records named : Bool) (seen : List String) :
    List (Node × Node) → Option (List (Option String × Value))
  | [] => some []
  | (k, n) :: rest =>
    if k.isMerge then ownEntries? records named seen rest
    else match k.name? with
      | none => none
      | some name =>
        let skipped := match name with
          | none => named
          | some name => seen.contains name
        if skipped then ownEntries? records named seen rest
        else match n.value? records, ownEntries? records named seen rest with
          | some v, some es => some ((name, v) :: es)
          | _, _ => none

/-- The entries that a mapping merges. -/
def mergedEntries? (records named : Bool) (seen : List String) :
    List (Node × Node) → Option (List (Option String × Value))
  | [] => some []
  | (k, n) :: rest =>
    if k.isMerge then mergedNode? records named seen n
    else mergedEntries? records named seen rest

/-- The entries of a mapping, or of a sequence of them, to merge. -/
def mergedNode? (records named : Bool) (seen : List String) :
    Node → Option (List (Option String × Value))
  | .map entries =>
    joined? entries seen (ownEntries? records named seen entries) fun seen =>
      mergedEntries? records named seen entries
  | .alias _ target => if target.isMap then mergedNode? records named seen target else none
  | .seq items => mergedItems? records named seen items
  | _ => none

/-- The entries of the mappings of a sequence. -/
def mergedItems? (records named : Bool) (seen : List String) :
    List Node → Option (List (Option String × Value))
  | [] => some []
  | .seq _ :: _ => none
  | n :: rest =>
    match mergedNode? records named seen n with
    | none => none
    | some es => (mergedItems? records named (namesOf es ++ seen) rest).map (es ++ ·)
end

end Lossless.Yaml
