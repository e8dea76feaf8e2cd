import Lossless.Catalog.Basic
import Lossless.Text.Case

/-!
# Catalog — catalog documents

A catalog is written down as a document of plain strings.  `CatalogDocument.compile` checks it and
builds the catalog: names are non-empty and distinct once white space is trimmed, the three reserved
names are not used, keys are distinct within a kind, and variants name declared kinds only.
-/

namespace Lossless

/-- A slot as written in a catalog document. -/
structure SlotDocument where
  name : String := ""
  key : String := ""
  variants : List String := []
  deriving DecidableEq, Repr

/-- A kind as written in a catalog document. -/
structure KindDocument where
  name : String := ""
  stem : String := ""
  slots : List SlotDocument := []
  deriving DecidableEq, Repr

/-- A catalog as written down. -/
structure CatalogDocument where
  language : String := ""
  extensions : List String := []
  tokens : List String := []
  trivia : List String := []
  kinds : List KindDocument := []
  deriving DecidableEq, Repr

/-- What is wrong with a slot of a kind. -/
inductive SlotError where
  | emptyName
  | badVariant (slot : String) (cause : VariantError)
  | duplicateSlot (slot : String)
  | duplicateKey (key : String)
  deriving DecidableEq, Repr

/-- What is wrong with a catalog document. -/
inductive CatalogError where
  | noLanguage
  | noKinds
  | emptyKindName
  | reservedKind (name : String)
  | badSlot (kind : String) (cause : SlotError)
  | duplicateKind (name : String)
  | unknownVariant (kind slot : String) (variant : Variant)
  | undecodable
  deriving DecidableEq, Repr

/-- The text of a slot error. -/
def SlotError.message : SlotError → String
  | .emptyName => "empty name: slot"
  | .badVariant slot cause => "slot " ++ slot ++ ": " ++ cause.message
  | .duplicateSlot slot => "duplicate slot: " ++ slot
  | .duplicateKey key => "duplicate JSON key: " ++ key

/-- The text of a catalog error. -/
def CatalogError.message : CatalogError → String
  | .noLanguage => "catalog has no language"
  | .noKinds => "catalog declares no kinds"
  | .emptyKindName => "empty name: kind"
  | .reservedKind name => "kind name is reserved: " ++ name
  | .badSlot kind cause => "kind " ++ kind ++ ": " ++ cause.message
  | .duplicateKind name => "duplicate kind: " ++ name
  | .unknownVariant kind slot v =>
    "kind " ++ kind ++ " slot " ++ slot ++ ": variant refers to an undeclared kind: " ++ v.text
  | .undecodable => "decode catalog: invalid document"

/-- The kind names that parser documents use for nodes that are no composites. -/
def reservedKinds : List String := ["token", "list", "missing"]

/-- The variants of a list of expressions. -/
def VariantSet.parse : List String → Except VariantError VariantSet
  | [] => .ok []
  | e :: rest =>
    match Variant.parse e with
    | .error err => .error err
    | .ok v => (VariantSet.parse rest).map (v :: ·)

/-- The slot of a slot document of a kind with the given stem. -/
def SlotDocument.compile (stem : String) (d : SlotDocument) : Except SlotError Slot :=
  let name := Text.trim d.name
  if name = "" then .error .emptyName
  else match VariantSet.parse d.variants with
    | .error err => .error (.badVariant name err)
    | .ok variants =>
      .ok { name, key := if d.key = "" then stem ++ "_" ++ name else d.key, variants }

/-- The slots of a kind, added to those compiled before. -/
def compileSlots (stem : String) :
    (done : List Slot) → List SlotDocument → Except SlotError (List Slot)
  | done, [] => .ok done
  | done, d :: rest =>
    match d.compile stem with
    | .error err => .error err
    | .ok s =>
      if done.any (·.name = s.name) then .error (.duplicateSlot s.name)
      else if done.any (·.key = s.key) then .error (.duplicateKey s.key)
      else compileSlots stem (done ++ [s]) rest

/-- The kind of a kind document. -/
def KindDocument.compile (d : KindDocument) : Except CatalogError Kind :=
  let name := Text.trim d.name
  if name = "" then .error .emptyKindName
  else if reservedKinds.contains name then .error (.reservedKind name)
  else
    let stem := if d.stem = "" then name else d.stem
    match compileSlots stem [] d.slots with
    | .error err => .error (.badSlot name err)
    | .ok slots => .ok { name, stem, slots }

/-- The kinds of a document, added to those compiled before. -/
def compileKinds : (done : List Kind) → List KindDocument → Except CatalogError (List Kind)
  | done, [] => .ok done
  | done, d :: rest =>
    match d.compile with
    | .error err => .error err
    | .ok k =>
      if done.any (·.name = k.name) then .error (.duplicateKind k.name)
      else compileKinds (done ++ [k]) rest

/-- A file extension in lower case with its dot; none when there is nothing but white space. -/
def normalExtension? (ext : String) : Option String :=
  let ext := Text.lower (Text.trim ext)
  if ext = "" then none
  else if ext.toList.head? = some '.' then some ext
  else some ("." ++ ext)

namespace Catalog

/-- Whether a variant names something the catalog declares. -/
def declaresVariant (c : Catalog) (v : Variant) : Bool :=
  match v.nodeClass with
  | .composite => (c.kind? v.kind).isSome
  | .token => v.kind = "" || c.isToken v.kind
  | .list | .missing => true
  | .other _ => false

/-- The first undeclared variant of a slot. -/
def undeclaredIn? (c : Catalog) (kind : Kind) (slot : Slot) : Option CatalogError :=
  (slot.variants.find? fun v => !c.declaresVariant v).map (.unknownVariant kind.name slot.name)

/-- The first undeclared variant of a catalog. -/
def undeclared? (c : Catalog) : Option CatalogError :=
  c.kinds.findSome? fun k => k.slots.findSome? fun s => c.undeclaredIn? k s

end Catalog

/-- The catalog of a document. -/
def CatalogDocument.compile (d : CatalogDocument) : Except CatalogError Catalog :=
  if Text.trim d.language = "" then .error .noLanguage
  else if d.kinds.isEmpty then .error .noKinds
  else match compileKinds [] d.kinds with
    | .error err => .error err
    | .ok kinds =>
      let c : Catalog :=
        { language := d.language
          extensions := d.extensions.filterMap normalExtension?
          kinds
          tokens := d.tokens
          trivia := d.trivia }
      match c.undeclared? with
      | some err => .error err
      | none => .ok c

end Lossless
