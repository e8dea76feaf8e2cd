import Lossless.Json.Writer
import Lossless.Text.Blank
import Lossless.Text.Rune

/-!
# Telemetry — log records

A log line holds the level, the message and the fields of a record, either as `key=value` pairs or as
one JSON object.  Fields of a group have their keys qualified by its name in the first form and stand
in an object of their own in the second.
-/

namespace Lossless.Telemetry

/-- The severity of a record. The four named levels are four apart. -/
abbrev Level := Int

namespace Level

def debug : Level := -4
def info : Level := 0
def warn : Level := 4
def error : Level := 8

/-- A named level, with the distance of a level that lies above or below it. -/
def offset (name : String) (d : Int) : String :=
  if d = 0 then name
  else if d < 0 then name ++ toString d
  else name ++ "+" ++ toString d

/-- The name of a level. -/
def name (l : Level) : String :=
  if l < info then offset "DEBUG" (l - debug)
  else if l < warn then offset "INFO" (l - info)
  else if l < error then offset "WARN" (l - warn)
  else offset "ERROR" (l - error)

end Level

/-- The value of a field. -/
inductive Datum where
  | text (t : Text)
  | int (i : Int)
  | bool (b : Bool)
  deriving DecidableEq, Repr

/-- A named value in a record. -/
structure Field where
  key : String
  value : Datum
  deriving DecidableEq, Repr

namespace Field

/-- A field with a string. -/
def str (key s : String) : Field := ⟨key, .text s⟩

/-- A field with an integer. -/
def int (key : String) (i : Int) : Field := ⟨key, .int i⟩

/-- A field with a truth value. -/
def bool (key : String) (b : Bool) : Field := ⟨key, .bool b⟩

end Field

/-- A record of something that happened, and the file and the trace it happened in. -/
structure Record where
  level : Level
  message : Text
  fields : List Field := []
  /-- The file being worked on; empty for none. -/
  file : String := ""
  /-- The numbers of the trace and of the span, in hexadecimal digits. -/
  trace : String × String := ("", "")
  deriving DecidableEq, Repr

/-- What a logger adds to every record: fields, or a group around all that follows. -/
inductive Binding where
  | fields (fields : List Field)
  | group (name : String)

/-- The parts of a log line: fields, and groups of parts. -/
inductive Part where
  | field (f : Field)
  | group (name : String) (parts : List Part)

/-- Whether the digits of a number are not all zero. -/
def hasNonzeroDigit (digits : String) : Bool := digits.toList.any (· ≠ '0')

/-- The fields that tell where a record comes from. -/
def Record.origin (r : Record) : List Field :=
  (if r.file = "" then [] else [.str "file" r.file])
    ++ if hasNonzeroDigit r.trace.1 && hasNonzeroDigit r.trace.2 then
        [.str "trace_id" r.trace.1, .str "span_id" r.trace.2]
      else []

/-- The parts of a line for the given fields under the given bindings. A group without parts is
left out, and so is one without a name, whose parts stay where they are. -/
def Part.arrange (fields : List Field) : List Binding → List Part
  | [] => fields.map .field
  | .fields bound :: rest => bound.map .field ++ arrange fields rest
  | .group name :: rest =>
    let inner := arrange fields rest
    if name = "" then inner else if inner.isEmpty then [] else [.group name inner]

/-! ### Pairs -/

/-- Whether a text is put in quotes: it is empty, or holds a blank, an equals sign, a quote, a stray
byte or something that does not print. -/
def needsQuotes (t : Text) : Bool :=
  t.isEmpty || t.pieces.any fun
    | .stray _ => true
    | .char c =>
      if c.toNat < 0x80 then c = ' ' || c = '=' || c = '"' || c.toNat < 0x20
      else c = Text.replacement || Text.isBlank c || !Text.isPrintable c

/-- A text as the value of a pair. -/
def pairText (t : Text) : String := if needsQuotes t then Text.quote t else t.toStr

/-- A value as the value of a pair. -/
def Datum.pair : Datum → String
  | .text t => pairText t
  | .int i => toString i
  | .bool b => toString b

/-- A key with the names of the groups around it. -/
def pairKey (groups key : String) : String :=
  if groups = "" then pairText key
  else if needsQuotes groups || needsQuotes key then Text.quoteString (groups ++ key)
  else groups ++ key

mutual
/-- The pairs of a part, each behind a blank. -/
def Part.pairs (groups : String) : Part → String
  | .field f => " " ++ pairKey groups f.key ++ "=" ++ f.value.pair
  | .group name parts => pairsAll (groups ++ name ++ ".") parts

@[inherit_doc Part.pairs]
def Part.pairsAll (groups : String) : List Part → String
  | [] => ""
  | p :: rest => Part.pairs groups p ++ pairsAll groups rest
end

/-! ### Objects -/

/-- A text as a JSON string; stray bytes are written as the escape of U+FFFD. -/
def jsonText (t : Text) : String :=
  String.ofList ('"' :: t.pieces.flatMap (fun
    | .char c => Json.escapeChar .record c
    | .stray _ => Json.unicodeEscape Text.replacement) ++ ['"'])

/-- A value in a JSON object. -/
def Datum.json : Datum → String
  | .text t => jsonText t
  | .int i => toString i
  | .bool b => toString b

mutual
/-- The member of a part. -/
def Part.member : Part → String
  | .field f => jsonText f.key ++ ":" ++ f.value.json
  | .group name parts => jsonText name ++ ":\x7b" ++ ",".intercalate (members parts) ++ "\x7d"

@[inherit_doc Part.member]
def Part.members : List Part → List String
  | [] => []
  | p :: rest => Part.member p :: members rest
end

/-! ### Lines -/

/-- The form of log lines. -/
inductive LogFormat where
  | pairs
  | json
  deriving DecidableEq, Repr

/-- A logger: the form of its lines, the least level it reports and what it adds to records. -/
structure Logger where
  format : LogFormat := .pairs
  level : Level := Level.info
  bindings : List Binding := []

namespace Logger

/-- Whether records of a level are reported. -/
def enabled (l : Logger) (level : Level) : Bool := l.level ≤ level

/-- The logger of a service. Service, mode and environment stand in front of all groups. -/
def ofService (format : LogFormat) (level : Level) (service mode environment : String) : Logger :=
  let env := if environment = "" then [] else [Field.str "env" environment]
  { format := format, level := level,
    bindings := [.fields ([.str "service" service, .str "mode" mode] ++ env)] }

/-- The line of a record, without its time. -/
def line (l : Logger) (r : Record) : String :=
  let parts := Part.arrange (r.fields ++ r.origin) l.bindings
  match l.format with
  | .pairs =>
    "level=" ++ r.level.name ++ " msg=" ++ pairText r.message ++ Part.pairsAll "" parts ++ "\n"
  | .json =>
    "\x7b" ++ ",".intercalate
      (["\"level\":\"" ++ r.level.name ++ "\"", "\"msg\":" ++ jsonText r.message]
        ++ Part.members parts) ++ "\x7d\n"

/-- What a logger writes for a list of records. -/
def write (l : Logger) (rs : List Record) : String :=
  String.join ((rs.filter fun r => l.enabled r.level).map l.line)

end Logger

end Lossless.Telemetry
