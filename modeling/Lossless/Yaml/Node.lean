import Lossless.Yaml.Encoding
import Lossless.Yaml.TokenStream

/-!
# Yaml — documents

A document is a tree of scalars, sequences and mappings.  A scalar keeps its text, whether it was
written plainly, and its tag, since all of them tell what it stands for.  An alias holds the node
that it refers to; one that refers to a collection around it holds nothing, since such a document
has no end.
-/

namespace Lossless.Yaml

/-- A node of a document. The tag of a scalar is empty if it has none of its own. -/
inductive Node where
  | scalar (text : String) (plain : Bool) (tag : String)
  | seq (items : List Node)
  | map (entries : List (Node × Node))
  | alias (name : String) (target : Node)
  | cycle (name : String)

/-- The node that is not written. -/
def Node.absent : Node := .scalar "" true ""

/-! ### Properties -/

/-- An anchor: its name, the number of its node, and the node unless it is still open. -/
structure Anchor where
  name : String
  number : Nat
  node : Option Node

/-- The state of reading a document. -/
structure Reader where
  tokens : TokenStream
  /-- The handles of tags and what they stand for. -/
  handles : List (String × String) := []
  anchors : List Anchor := []

/-- A computation that reads a part of a document, and fails on malformed ones. -/
abbrev Reading := StateT Reader Option

namespace Reading

/-- Fails. -/
def fail {α : Type} : Reading α := fun _ => none

/-- The next token. -/
def peek : Reading Token := fun r =>
  r.tokens.peek.map fun (t, tokens) => (t, { r with tokens })

/-- Takes the next token. -/
def skip : Reading Unit := modify fun r => { r with tokens := r.tokens.skip }

/-- The names of the types that every document may use. -/
def standardTypes : String := "tag:yaml.org,2002:"

/-- The short name of a type; the standard ones start with two exclamation marks. -/
def shortTag (tag : String) : String :=
  match Text.dropStem? (Text.ofString standardTypes) (Text.ofString tag) with
  | some name => "!!" ++ name.toStr
  | none => tag

/-- The short name of the type that a handle and a name stand for; empty for the type that a node
has anyway. -/
def typeOf (handle name : String) : Reading String := do
  if handle = "" then return if name = "!" then "" else shortTag name
  else match (← get).handles.lookup handle with
    | some stem => return shortTag (stem ++ name)
    | none => fail

/-- The properties of a node: its anchor and its tag, in any order. -/
def properties : Reading (Option String × Option String) := do
  let anchor? : Reading (Option String) := do
    match ← peek with
    | .anchor name => skip; return some name
    | _ => return none
  let tag? : Reading (Option String) := do
    match ← peek with
    | .tag handle name => skip; return some (← typeOf handle name)
    | _ => return none
  match ← anchor? with
  | some name => return (some name, ← tag?)
  | none =>
    match ← tag? with
    | some tag => return (← anchor?, some tag)
    | none => return (none, none)

/-- Gives an anchor to a node that starts here: the number of the node. -/
def openAnchor (name : Option String) : Reading Nat := do
  let r ← get
  match name with
  | some name =>
    set { r with anchors := ⟨name, r.anchors.length, none⟩ :: r.anchors }
    return r.anchors.length
  | none => return 0

/-- Completes the node of a number, and returns it. -/
def closeAnchor (name : Option String) (number : Nat) (n : Node) : Reading Node := do
  if name.isSome then
    let complete (a : Anchor) : Anchor :=
      if a.number = number then { a with node := some n } else a
    modify fun r => { r with anchors := r.anchors.map complete }
  return n

/-- The node of an alias. -/
def aliased (name : String) : Reading Node := do
  match (← get).anchors.find? (·.name = name) with
  | some { node := some n, .. } => return .alias name n
  | some _ => return .cycle name
  | none => fail

/-! ### Nodes -/

/-- A node of which only the properties are written. -/
def propertiesOnly (anchor tag : Option String) (number : Nat) : Reading Node :=
  if anchor.isSome || tag.isSome then
    closeAnchor anchor number (.scalar "" true (tag.getD ""))
  else fail

/-- The comma in front of an item or an entry, unless it is the first. -/
def comma (first : Bool) : Reading Unit := do
  if !first then
    if (← peek) = .flowEntry then skip else fail

mutual
/-- A node. Block collections are read only if `block`; `indentless` allows a sequence that is
not indented, as the value of a mapping. Every call spends one unit of `fuel`. -/
def node (fuel : Nat) (block indentless : Bool) : Reading Node :=
  match fuel with
  | 0 => fail
  | fuel + 1 => do
    match ← peek with
    | .alias name => skip; aliased name
    | _ =>
      let (anchor, tag) ← properties
      let number ← openAnchor anchor
      match ← peek with
      | .scalar text plain =>
        skip
        closeAnchor anchor number (.scalar text plain (tag.getD ""))
      | .flowSeqStart => skip; closeAnchor anchor number (.seq (← flowItems fuel true))
      | .flowMapStart => skip; closeAnchor anchor number (.map (← flowEntries fuel true))
      | .blockEntry =>
        if indentless then closeAnchor anchor number (.seq (← indentlessItems fuel))
        else propertiesOnly anchor tag number
      | .blockSeqStart =>
        if block then skip; closeAnchor anchor number (.seq (← blockItems fuel))
        else propertiesOnly anchor tag number
      | .blockMapStart =>
        if block then skip; closeAnchor anchor number (.map (← blockEntries fuel))
        else propertiesOnly anchor tag number
      | _ => propertiesOnly anchor tag number

/-- A node unless the next token is one of `stops`, which stand for an absent one. -/
def nodeUnless (fuel : Nat) (block indentless : Bool) (stops : List Token) : Reading Node :=
  match fuel with
  | 0 => fail
  | fuel + 1 => do
    if stops.contains (← peek) then return .absent else node fuel block indentless

/-- The items of an indented block sequence. -/
def blockItems (fuel : Nat) : Reading (List Node) :=
  match fuel with
  | 0 => fail
  | fuel + 1 => do
    match ← peek with
    | .blockEntry =>
      skip
      let x ← nodeUnless fuel true false [.blockEntry, .blockEnd]
      return x :: (← blockItems fuel)
    | .blockEnd => skip; return []
    | _ => fail

/-- The items of a block sequence that is not indented. -/
def indentlessItems (fuel : Nat) : Reading (List Node) :=
  match fuel with
  | 0 => fail
  | fuel + 1 => do
    match ← peek with
    | .blockEntry =>
      skip
      let x ← nodeUnless fuel true false [.blockEntry, .key, .value, .blockEnd]
      return x :: (← indentlessItems fuel)
    | _ => return []

/-- The entries of a block mapping. -/
def blockEntries (fuel : Nat) : Reading (List (Node × Node)) :=
  match fuel with
  | 0 => fail
  | fuel + 1 => do
    match ← peek with
    | .blockEnd => skip; return []
    | .key =>
      skip
      let k ← nodeUnless fuel true true [.key, .value, .blockEnd]
      let v ← entryValue fuel true [.key, .value, .blockEnd]
      return (k, v) :: (← blockEntries fuel)
    | _ => fail

/-- The value of an entry, which is absent without a colon in front of it. -/
def entryValue (fuel : Nat) (block : Bool) (stops : List Token) : Reading Node :=
  match fuel with
  | 0 => fail
  | fuel + 1 => do
    match ← peek with
    | .value => skip; nodeUnless fuel block block stops
    | _ => return .absent

/-- The items of a flow sequence; `first` says that no comma is due. An item may be an entry of a
mapping, which then has no other. -/
def flowItems (fuel : Nat) (first : Bool) : Reading (List Node) :=
  match fuel with
  | 0 => fail
  | fuel + 1 => do
    if (← peek) = .flowSeqEnd then skip; return []
    else
      comma first
      match ← peek with
      | .flowSeqEnd => skip; return []
      | .key =>
        skip
        let k ←
          if [.value, .flowEntry, .flowSeqEnd].contains (← peek) then skip; pure .absent
          else node fuel false false
        let v ← entryValue fuel false [.flowEntry, .flowSeqEnd]
        return .map [(k, v)] :: (← flowItems fuel false)
      | _ =>
        let x ← node fuel false false
        return x :: (← flowItems fuel false)

/-- The entries of a flow mapping; `first` says that no comma is due. -/
def flowEntries (fuel : Nat) (first : Bool) : Reading (List (Node × Node)) :=
  match fuel with
  | 0 => fail
  | fuel + 1 => do
    if (← peek) = .flowMapEnd then skip; return []
    else
      comma first
      match ← peek with
      | .flowMapEnd => skip; return []
      | .key =>
        skip
        let k ← nodeUnless fuel false false [.value, .flowEntry, .flowMapEnd]
        let v ← entryValue fuel false [.flowEntry, .flowMapEnd]
        return (k, v) :: (← flowEntries fuel false)
      | _ =>
        let k ← node fuel false false
        return (k, .absent) :: (← flowEntries fuel false)
end

/-! ### Documents -/

/-- The directives in front of a document. There is one version at most, and a handle is explained
once. -/
def directives : (fuel : Nat) → (versioned : Bool) → Reading Unit
  | 0, _ => fail
  | fuel + 1, versioned => do
    match ← peek with
    | .version major minor =>
      if versioned || major != 1 || minor != 1 then fail
      skip
      directives fuel true
    | .handle handle stem =>
      if ((← get).handles.lookup handle).isSome then fail
      modify fun r => { r with handles := r.handles ++ [(handle, stem)] }
      skip
      directives fuel versioned
    | _ => return ()

/-- The handles that every document may use. -/
def standardHandles : List (String × String) := [("!", "!"), ("!!", standardTypes)]

/-- The first document; none inside for an empty stream. The token behind it has to be a proper
one. -/
def document (fuel : Nat) : Reading (Option Node) := do
  let first ← peek
  if first = .streamEnd then return none
  else
    directives fuel false
    modify fun r => { r with handles := r.handles ++ standardHandles }
    let next ← peek
    let root ←
      if next = .documentStart then
        skip
        if (← peek).endsDocument then pure .absent else node fuel true false
      else if first.isDirective then fail
      else node fuel true false
    let _ ← peek
    return some root

end Reading

/-- The first document of a text; the outer option fails on malformed text, and what stands behind
the document is not read. -/
def parse? (t : Text) : Option (Option Node) :=
  (decode? t).bind fun cs =>
    (Reading.document (16 * cs.length + 64) { tokens := .ofChars cs }).map (·.1)

end Lossless.Yaml
