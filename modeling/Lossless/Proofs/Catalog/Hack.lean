import Lossless.Catalog.Hack
import Lossless.Proofs.Catalog.Compilation

/-!
# Catalog — the kinds of Hack that migrations look at

Migrations name kinds and slots.  The catalog has one kind for each of these names, and the kinds are
spelled out here (`eq_of_mem_hack`): what a migration relies on is read off them.
-/

namespace Lossless.Catalog

/-- The variants that stand for a type. -/
def typeVariants : VariantSet :=
  [⟨.composite, "simple_type_specifier"⟩, ⟨.composite, "nullable_type_specifier"⟩,
    ⟨.composite, "generic_type_specifier"⟩, ⟨.composite, "shape_type_specifier"⟩]

/-- The variants that end a label. -/
def labelEnds : VariantSet := [⟨.token, "colon"⟩, ⟨.token, "semicolon"⟩]

/-- A field of a shape. -/
def fieldKind : Kind where
  name := "field_specifier"
  stem := "field"
  slots := [⟨"question", "field_question", [⟨.missing, "missing"⟩, ⟨.token, "question"⟩]⟩,
    ⟨"name", "field_name", [⟨.composite, "literal_expression"⟩]⟩,
    ⟨"arrow", "field_arrow", [⟨.token, "equal_greater_than"⟩]⟩,
    ⟨"type", "field_type", typeVariants⟩]

/-- A literal. -/
def literalKind : Kind where
  name := "literal_expression"
  stem := "literal"
  slots := [⟨"expression", "literal_expression",
    [⟨.token, "single_quoted_string_literal"⟩, ⟨.token, "double_quoted_string_literal"⟩,
      ⟨.token, "decimal_literal"⟩, ⟨.token, "boolean_literal"⟩, ⟨.token, "null_literal"⟩]⟩]

/-- A type that is a name. -/
def simpleKind : Kind where
  name := "simple_type_specifier"
  stem := "simple_type"
  slots := [⟨"specifier", "simple_type_specifier",
    [⟨.token, "name"⟩, ⟨.token, "int"⟩, ⟨.token, "string"⟩, ⟨.token, "bool"⟩, ⟨.token, "float"⟩,
      ⟨.token, "mixed"⟩]⟩]

/-- A type or null. -/
def nullableKind : Kind where
  name := "nullable_type_specifier"
  stem := "nullable"
  slots := [⟨"question", "nullable_question", [⟨.token, "question"⟩]⟩,
    ⟨"type", "nullable_type", [⟨.composite, "simple_type_specifier"⟩,
      ⟨.composite, "generic_type_specifier"⟩, ⟨.composite, "shape_type_specifier"⟩]⟩]

/-- The label of a case. -/
def caseKind : Kind where
  name := "case_label"
  stem := "case"
  slots := [⟨"keyword", "case_keyword", [⟨.token, "case"⟩]⟩,
    ⟨"expression", "case_expression",
      [⟨.composite, "literal_expression"⟩, ⟨.composite, "variable_expression"⟩]⟩,
    ⟨"colon", "case_colon", labelEnds⟩]

/-- The default label. -/
def defaultKind : Kind where
  name := "default_label"
  stem := "default"
  slots := [⟨"keyword", "default_keyword", [⟨.token, "default"⟩]⟩,
    ⟨"colon", "default_colon", labelEnds⟩]

/-- The kinds that migrations look at, and their neighbours. -/
def migratedKinds : List Kind :=
  [simpleKind, nullableKind, fieldKind, literalKind, caseKind, defaultKind]

/-- The catalog is what the document compiles to, and holds the kinds that migrations look at. -/
theorem hack_evaluated :
    hackDocument.compile.toOption = some hack ∧ ∀ k ∈ migratedKinds, k ∈ hack.kinds := by
  decide +kernel

theorem hack_compiles : hackDocument.compile = .ok hack := by
  have h := hack_evaluated.1
  cases hc : hackDocument.compile with
  | ok c =>
      rw [hc] at h
      exact congrArg Except.ok (Option.some.inj h)
  | error e =>
      rw [hc] at h
      cases h

theorem hack_wellFormed : hack.WellFormed := CatalogDocument.compile_wellFormed hack_compiles

theorem hack_tokens : hack.tokens = hackDocument.tokens :=
  congrArg tokens (CatalogDocument.compile_eq_ok_iff.mp hack_compiles).2.2.1

theorem hack_trivia : hack.trivia = hackDocument.trivia :=
  congrArg trivia (CatalogDocument.compile_eq_ok_iff.mp hack_compiles).2.2.1

theorem mem_hack {k : Kind} (h : k ∈ migratedKinds) : k ∈ hack.kinds := hack_evaluated.2 k h

/-- **A kind of the catalog is known by its name.** -/
theorem eq_of_mem_hack {k k' : Kind} (h : k ∈ hack.kinds) (h' : k' ∈ migratedKinds)
    (hname : k.name = k'.name) : k = k' :=
  hack_wellFormed.eq_of_name h (mem_hack h') hname

theorem hack_kind? {k : Kind} (h : k ∈ migratedKinds) : hack.kind? k.name = some k :=
  hack_wellFormed.kind?_eq (mem_hack h)

theorem hack_isToken {kind : String} (h : kind ∈ hackDocument.tokens) : hack.isToken kind = true := by
  have hne : hackDocument.tokens.isEmpty = false := rfl
  rw [isToken, declares, hack_tokens, hne]
  simpa using h

theorem hack_isTrivia {kind : String} (h : kind ∈ hackDocument.trivia) :
    hack.isTrivia kind = true := by
  have hne : hackDocument.trivia.isEmpty = false := rfl
  rw [isTrivia, declares, hack_trivia, hne]
  simpa using h

end Lossless.Catalog
