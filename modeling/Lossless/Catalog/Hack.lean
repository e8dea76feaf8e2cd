import Lossless.Catalog.Document

/-!
# Catalog — Hack

The kinds of the Hack language that the built-in migrations work on.
-/

namespace Lossless.Catalog

/-- A slot whose key is the stem of its kind followed by its name. -/
def hackSlot (name : String) (variants : List String) : SlotDocument := { name, variants }

/-- The catalog document of Hack. -/
def hackDocument : CatalogDocument where
  language := "Hack"
  extensions := [".hack", ".hh", ".php"]
  trivia := [
    "whitespace", "end_of_line", "single_line_comment", "delimited_comment", "fall_through",
    "fix_me", "ignore_error"]
  tokens := [
    "async", "bool", "boolean_literal", "break", "case", "colon", "comma", "decimal_literal",
    "default", "dot_dot_dot", "double_quoted_string_literal", "end_of_file", "equal",
    "equal_greater_than", "float", "greater_than", "int", "left_brace", "left_paren",
    "less_than", "less_than_question", "markup", "mixed", "name", "newtype", "null_literal",
    "question", "question_greater_than", "return", "right_brace", "right_paren", "semicolon",
    "shape", "single_quoted_string_literal", "string", "switch", "type", "variable"]
  kinds := [
    { name := "script", stem := "script", slots := [
        hackSlot "declarations" ["list", "missing"]] },
    { name := "markup_section", stem := "markup", slots := [
        hackSlot "prefix" ["missing", "token:question_greater_than"],
        hackSlot "text" ["missing", "token:markup"],
        hackSlot "suffix" ["missing", "markup_suffix"],
        hackSlot "expression" ["missing"]] },
    { name := "markup_suffix", stem := "markup_suffix", slots := [
        hackSlot "less_than_question" ["token:less_than_question"],
        hackSlot "name" ["missing", "token:name"]] },
    { name := "alias_declaration", stem := "alias", slots := [
        hackSlot "attribute_spec" ["missing"],
        hackSlot "keyword" ["token:type", "token:newtype"],
        hackSlot "name" ["token:name"],
        hackSlot "generic_parameter" ["missing"],
        hackSlot "constraint" ["missing"],
        hackSlot "equal" ["token:equal"],
        hackSlot "type" [
          "simple_type_specifier", "nullable_type_specifier", "generic_type_specifier",
          "shape_type_specifier"],
        hackSlot "semicolon" ["token:semicolon"]] },
    { name := "simple_type_specifier", stem := "simple_type", slots := [
        hackSlot "specifier" [
          "token:name", "token:int", "token:string", "token:bool", "token:float", "token:mixed"]] },
    { name := "nullable_type_specifier", stem := "nullable", slots := [
        hackSlot "question" ["token:question"],
        hackSlot "type" [
          "simple_type_specifier", "generic_type_specifier", "shape_type_specifier"]] },
    { name := "generic_type_specifier", stem := "generic", slots := [
        hackSlot "class_type" ["token:name"],
        hackSlot "argument_list" ["type_arguments"]] },
    { name := "type_arguments", stem := "type_arguments", slots := [
        hackSlot "left_angle" ["token:less_than"],
        hackSlot "types" ["list"],
        hackSlot "right_angle" ["token:greater_than"]] },
    { name := "shape_type_specifier", stem := "shape_type", slots := [
        hackSlot "keyword" ["token:shape"],
        hackSlot "left_paren" ["token:left_paren"],
        hackSlot "fields" ["missing", "list"],
        hackSlot "ellipsis" ["missing", "token:dot_dot_dot"],
        hackSlot "right_paren" ["token:right_paren"]] },
    { name := "field_specifier", stem := "field", slots := [
        hackSlot "question" ["missing", "token:question"],
        hackSlot "name" ["literal_expression"],
        hackSlot "arrow" ["token:equal_greater_than"],
        hackSlot "type" [
          "simple_type_specifier", "nullable_type_specifier", "generic_type_specifier",
          "shape_type_specifier"]] },
    { name := "list_item", stem := "list", slots := [
        hackSlot "item" [],
        hackSlot "separator" ["missing", "token:comma"]] },
    { name := "literal_expression", stem := "literal", slots := [
        hackSlot "expression" [
          "token:single_quoted_string_literal", "token:double_quoted_string_literal",
          "token:decimal_literal", "token:boolean_literal", "token:null_literal"]] },
    { name := "variable_expression", stem := "variable", slots := [
        hackSlot "expression" ["token:variable"]] },
    { name := "switch_statement", stem := "switch", slots := [
        hackSlot "keyword" ["token:switch"],
        hackSlot "left_paren" ["token:left_paren"],
        hackSlot "expression" ["variable_expression", "literal_expression"],
        hackSlot "right_paren" ["token:right_paren"],
        hackSlot "left_brace" ["token:left_brace"],
        hackSlot "sections" ["missing", "list"],
        hackSlot "right_brace" ["token:right_brace"]] },
    { name := "switch_section", stem := "switch_section", slots := [
        hackSlot "labels" ["list"],
        hackSlot "statements" ["missing", "list"],
        hackSlot "fallthrough" ["missing"]] },
    { name := "case_label", stem := "case", slots := [
        hackSlot "keyword" ["token:case"],
        hackSlot "expression" ["literal_expression", "variable_expression"],
        hackSlot "colon" ["token:colon", "token:semicolon"]] },
    { name := "default_label", stem := "default", slots := [
        hackSlot "keyword" ["token:default"],
        hackSlot "colon" ["token:colon", "token:semicolon"]] },
    { name := "expression_statement", stem := "expression_statement", slots := [
        hackSlot "expression" [
          "missing", "variable_expression", "literal_expression", "awaitable_creation_expression"],
        hackSlot "semicolon" ["token:semicolon"]] },
    { name := "return_statement", stem := "return", slots := [
        hackSlot "keyword" ["token:return"],
        hackSlot "expression" ["missing", "variable_expression", "literal_expression"],
        hackSlot "semicolon" ["missing", "token:semicolon"]] },
    { name := "break_statement", stem := "break", slots := [
        hackSlot "keyword" ["token:break"],
        hackSlot "level" ["missing", "literal_expression"],
        hackSlot "semicolon" ["token:semicolon"]] },
    { name := "compound_statement", stem := "compound", slots := [
        hackSlot "left_brace" ["token:left_brace"],
        hackSlot "statements" ["missing", "list"],
        hackSlot "right_brace" ["token:right_brace"]] },
    { name := "awaitable_creation_expression", stem := "awaitable", slots := [
        hackSlot "async" ["token:async"],
        hackSlot "coroutine" ["missing"],
        hackSlot "compound_statement" ["compound_statement"]] },
    { name := "end_of_file", stem := "end_of_file", slots := [
        hackSlot "token" ["token:end_of_file"]] }
  ]

/-- The catalog of Hack. -/
def hack : Catalog :=
  match hackDocument.compile with
  | .ok c => c
  | .error _ => { language := "Hack", extensions := [], kinds := [], tokens := [], trivia := [] }

end Lossless.Catalog
