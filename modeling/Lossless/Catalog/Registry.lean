import Lossless.Catalog.Basic
import Lossless.Text.Case
import Lossless.Text.Path
import Lossless.Text.Basic

/-!
# Catalog — choosing a catalog for a file

A registry holds one catalog per language, found by name whatever its case, and remembers for every
extension the catalog registered for it last.  The language of a file is detected from its name and
contents; the extension decides when detection finds no registered language.
-/

namespace Lossless

/-- Entries with distinct keys. -/
abbrev Table (α : Type) := List (String × α)

namespace Table

variable {α : Type}

/-- The entry of a key. -/
def get? (t : Table α) (key : String) : Option α := (t.find? (·.1 = key)).map (·.2)

/-- Sets the entry of a key; a new key goes to the end. -/
def put (t : Table α) (key : String) (v : α) : Table α :=
  if t.any (·.1 = key) then t.map fun e => if e.1 = key then (key, v) else e
  else t ++ [(key, v)]

end Table

/-- Catalogs by language and by extension. -/
structure CatalogRegistry where
  byLanguage : Table Catalog := []
  byExtension : Table Catalog := []

/-- No registered catalog handles a file. -/
structure NoCatalog where
  file : String
  detected : Option String
  deriving DecidableEq, Repr

/-- The text of the error. -/
def NoCatalog.message (e : NoCatalog) : String :=
  "no catalog for file: " ++ e.file ++
    match e.detected with
    | some lang => " (detected " ++ lang ++ ")"
    | none => ""

/-- A way to tell the language of a file from its base name and its contents. -/
abbrev Detector := String → Text → Option String

namespace CatalogRegistry

/-- Adds a catalog. It replaces the catalog of the same language, and takes over its extensions. -/
def register (r : CatalogRegistry) (c : Catalog) : CatalogRegistry :=
  { byLanguage := r.byLanguage.put (Text.lower c.language) c
    byExtension := c.extensions.foldl (fun t ext => t.put ext c) r.byExtension }

/-- The registry of the given catalogs. -/
def ofCatalogs (cs : List Catalog) : CatalogRegistry := cs.foldl register {}

/-- The catalog of a language. -/
def lookup (r : CatalogRegistry) (language : String) : Option Catalog :=
  r.byLanguage.get? (Text.lower language)

/-- The registered languages in ascending order. -/
def languages (r : CatalogRegistry) : List String :=
  (r.byLanguage.map (·.2.language)).mergeSort fun a b => decide (a ≤ b)

/-- The catalog for a file. -/
def forFile (r : CatalogRegistry) (detect : Detector) (name : String) (content : Text) :
    Except NoCatalog Catalog :=
  let detected := detect (Path.base name).toStr content
  match detected.bind r.lookup with
  | some c => .ok c
  | none =>
    match r.byExtension.get? (Text.lower (Path.extension name).toStr) with
    | some c => .ok c
    | none => .error ⟨name, detected⟩

end CatalogRegistry

end Lossless
