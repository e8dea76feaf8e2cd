import Lossless.Text.Lines

/-!
# Command — lists in one argument

An argument that lists names holds fields with commas between them.  A field in quotes may hold
commas and line breaks, and a quote in it is written twice.  Only the first record counts.
-/

namespace Lossless.Fields

/-- What is wrong with a list. -/
inductive Fault where
  /-- There is no record. -/
  | empty
  /-- A quote in a field without quotes. -/
  | bareQuote (line column : Nat)
  /-- Something behind the closing quote of a field, or no closing quote. -/
  | quote (line column : Nat)
  deriving DecidableEq, Repr

/-- The text of a place; records start in the line `first`. -/
def place (first line column : Nat) : String :=
  (if line = first then "" else "record on line " ++ toString first ++ "; ")
    ++ "parse error on line " ++ toString line ++ ", column " ++ toString column ++ ": "

/-- The text of a fault. -/
def Fault.message (first : Nat) : Fault → String
  | .empty => "EOF"
  | .bareQuote l c => place first l c ++ "bare \" in non-quoted-field"
  | .quote l c => place first l c ++ "extraneous or missing \" in quoted-field"

def comma : UInt8 := 44
def quoteMark : UInt8 := 34

/-- Where the reader is: the field read so far, reversed, and the line and column ahead. -/
structure Cursor where
  field : List UInt8 := []
  line : Nat
  column : Nat := 1

/-- What may come next. -/
inductive Mode where
  /-- The first byte of a field. -/
  | start
  /-- A field without quotes. -/
  | plain
  /-- Inside quotes. -/
  | quoted
  /-- Behind a quote in a quoted field. -/
  | closed
  deriving DecidableEq, Repr

/-- The fields of a record. The record ends with a line break outside quotes. -/
def record : Mode → Cursor → List UInt8 → Except Fault (List Text)
  | .start, c, [] | .plain, c, [] | .closed, c, [] => .ok [c.field.reverse]
  | .quoted, c, [] => .error (.quote c.line c.column)
  | .start, c, b :: rest =>
    let next (field : List UInt8) : Cursor := ⟨field, c.line, c.column + 1⟩
    if b = quoteMark then record .quoted (next []) rest
    else if b = comma then (record .start (next []) rest).map ([] :: ·)
    else if b = Text.newline then .ok [[]]
    else record .plain (next [b]) rest
  | .plain, c, b :: rest =>
    let next (field : List UInt8) : Cursor := ⟨field, c.line, c.column + 1⟩
    if b = quoteMark then .error (.bareQuote c.line c.column)
    else if b = comma then (record .start (next []) rest).map (c.field.reverse :: ·)
    else if b = Text.newline then .ok [c.field.reverse]
    else record .plain (next (b :: c.field)) rest
  | .quoted, c, b :: rest =>
    if b = quoteMark then record .closed ⟨c.field, c.line, c.column + 1⟩ rest
    else if b = Text.newline && !rest.isEmpty then
      record .quoted ⟨b :: c.field, c.line + 1, 1⟩ rest
    else record .quoted ⟨b :: c.field, c.line, c.column + 1⟩ rest
  | .closed, c, b :: rest =>
    let next (field : List UInt8) : Cursor := ⟨field, c.line, c.column + 1⟩
    if b = quoteMark then record .quoted (next (quoteMark :: c.field)) rest
    else if b = comma then (record .start (next []) rest).map (c.field.reverse :: ·)
    else if b = Text.newline then .ok [c.field.reverse]
    else .error (.quote c.line (c.column - 1))

/-- The bytes with every line break one byte long, and without a carriage return at the end. -/
def unifyBreaks : List UInt8 → List UInt8
  | [] => []
  | [b] => if b = 13 then [] else [b]
  | b :: c :: rest =>
    if b = 13 && c = 10 then unifyBreaks (c :: rest) else b :: unifyBreaks (c :: rest)

/-- The fields of an argument; the error text when they cannot be read. -/
def read (t : Text) : Except String (List Text) :=
  if t.isEmpty then .ok []
  else
    let bytes := unifyBreaks t
    let first := (bytes.takeWhile (· = Text.newline)).length + 1
    match bytes.dropWhile (· = Text.newline) with
    | [] => .error (Fault.empty.message first)
    | body => (record .start { line := first } body).mapError (·.message first)

end Lossless.Fields
