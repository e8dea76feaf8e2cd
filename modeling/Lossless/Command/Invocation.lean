import Lossless.Command.Flag
import Lossless.Edit.Distance
import Lossless.Text.Case

/-!
# Command — what is asked for

A command line names a command and gives it flags and arguments.  The flags that all commands share
may stand in front of the command.
-/

namespace Lossless

/-- The flags that all commands share. -/
structure Globals where
  /-- The configuration file; empty to search for it. -/
  config : Text := []
  /-- The language of the documents; empty to take it from the configuration. -/
  language : String := ""
  verbose : Bool := false
  quiet : Bool := false

/-- What the flags of a migration run say; what they leave open comes from the configuration. -/
structure MigrateFlags where
  migrations : List String := []
  workers : Option Int := none
  write : Option Bool := none
  outputDir : Option Text := none
  diff : Bool := false
  checkIdempotence : Option Bool := none
  summary : Bool := true

/-- A command with its arguments. -/
inductive Invocation where
  | parse (path : String) (output : Text) (outline check : Bool)
  | validate (paths : List String) (color : Bool)
  | migrate (paths : List String) (flags : MigrateFlags)
  | check (paths : List String) (migrations : List String)
  | catalog (kind : Option String) (schema : Bool)
  | migrations
  | version
  | help

namespace Invocation

/-- The name of the program. -/
def program : String := "codemod"

/-- The flags that all commands share. -/
def globalFlags : List Flag := [
  ⟨"config", none, .text⟩, ⟨"language", some 'l', .text⟩, ⟨"verbose", some 'v', .switch⟩,
  ⟨"quiet", some 'q', .switch⟩]

/-- The flag that asks for help. -/
def helpFlag : Flag := ⟨"help", some 'h', .switch⟩

/-- The flags of a command. -/
def ownFlags (command : String) : List Flag :=
  match command with
  | "parse" => [⟨"output", some 'o', .text⟩, ⟨"tree", none, .switch⟩, ⟨"check", none, .switch⟩]
  | "validate" => [⟨"color", none, .switch⟩, ⟨"no-color", none, .switch⟩]
  | "migrate" => [⟨"migration", some 'm', .list⟩, ⟨"workers", some 'w', .number⟩,
      ⟨"write", none, .switch⟩, ⟨"output-dir", some 'o', .text⟩, ⟨"diff", none, .switch⟩,
      ⟨"check-idempotence", none, .switch⟩, ⟨"summary", none, .switch⟩]
  | "check" => [⟨"migration", some 'm', .list⟩]
  | "catalog" => [⟨"schema", none, .switch⟩]
  | _ => []

/-- All flags of a command. -/
def flagsOf (command : String) : List Flag := globalFlags ++ ownFlags command ++ [helpFlag]

/-- The commands. -/
def commands : List String :=
  ["parse", "validate", "migrate", "check", "catalog", "migrations", "version"]

/-- The commands that are named to those who mistype one. -/
def hintable : List String := commands ++ ["completion"]

/-! ### Finding the command -/

/-- Whether an argument is a flag that takes the next argument as its value. A flag that is not
known is taken to need one. -/
def takesNext (flags : List Flag) (arg : Text) : Bool :=
  match arg with
  | 45 :: 45 :: name =>
    if List.contains arg Flag.equals then false
    else !((Flag.named? flags name).map Flag.isSwitch).getD false
  | [45, letter] =>
    if letter = Flag.equals then false
    else !((Flag.lettered? flags letter).map Flag.isSwitch).getD false
  | _ => false

/-- Whether an argument is a flag, or ends them. -/
def isDashed (arg : Text) : Bool := List.head? arg = some Flag.dash

/-- The arguments that are neither flags nor values of flags, up to `--`. A flag that needs a value
ends the list when fewer than two arguments follow it. -/
def words (flags : List Flag) : List Text → List Text
  | [] => []
  | arg :: rest =>
    if arg = [45, 45] then []
    else if takesNext flags arg then
      match rest with
      | _ :: next :: more => words flags (next :: more)
      | _ => []
    else if arg.isEmpty || isDashed arg then words flags rest
    else arg :: words flags rest
termination_by args => args.length

/-- The arguments without the first word equal to `word`. -/
def dropWord (flags : List Flag) (word : Text) : List Text → List Text
  | [] => []
  | arg :: rest =>
    if arg = [45, 45] then arg :: rest
    else if takesNext flags arg then
      match rest with
      | v :: more => arg :: v :: dropWord flags word more
      | [] => [arg]
    else if !isDashed arg && arg = word then rest
    else arg :: dropWord flags word rest
termination_by args => args.length

/-- The texts in lower case. -/
def lowerText (t : Text) : Text := Text.ofString (Text.lower t.toStr)

/-- The bytes of a text as characters of their own. -/
def byteChars (t : Text) : List Char := t.map fun b => Char.ofNat b.toNat

/-- The commands that are meant by a mistyped name: at a distance of at most two, or longer
names. -/
def hints (name : Text) : List String :=
  let typed := lowerText name
  hintable.filter fun c =>
    Edit.charDistance (byteChars typed) (byteChars (Text.ofString c)) ≤ 2
      || List.isPrefixOf typed (Text.ofString c)

/-- The command that is named, and its arguments; no command when none is named. -/
def find (args : List Text) : Except UsageError (Option String × List Text) :=
  match words globalFlags args with
  | [] => .ok (none, args)
  | word :: _ =>
    match commands.find? fun c => Text.ofString c = word with
    | some c => .ok (some c, dropWord globalFlags word args)
    | none => .error (.unknownCommand word program (hints word))

/-! ### Reading the arguments -/

/-- The one argument of a command. -/
def one : List Text → Except UsageError Text
  | [t] => .ok t
  | ts => .error (.exactly 1 ts.length)

/-- The arguments of a command that needs some. -/
def some_ : List Text → Except UsageError (List String)
  | [] => .error (.atLeast 1 0)
  | ts => .ok (ts.map Text.toStr)

/-- What the flags of a migration run say. -/
def migrateFlags (a : Arguments) : MigrateFlags where
  migrations := (a.list "migration").map Text.toStr
  workers := a.number? "workers"
  write := a.switch? "write"
  outputDir := a.text? "output-dir"
  diff := a.isOn "diff"
  checkIdempotence := a.switch? "check-idempotence"
  summary := (a.switch? "summary").getD true

/-- The invocation of a command. -/
def ofArguments (command : String) (a : Arguments) : Except UsageError Invocation := do
  match command with
  | "parse" =>
    return .parse (← one a.rest).toStr ((a.text? "output").getD []) (a.isOn "tree") (a.isOn "check")
  | "validate" => return .validate (← some_ a.rest) (a.isOn "color" && !a.isOn "no-color")
  | "migrate" => return .migrate (← some_ a.rest) (migrateFlags a)
  | "check" => return .check (← some_ a.rest) ((a.list "migration").map Text.toStr)
  | "catalog" =>
    match a.rest with
    | [] => return .catalog none (a.isOn "schema")
    | [kind] => return .catalog (some kind.toStr) (a.isOn "schema")
    | ts => throw (.atMost 1 ts.length)
  | "migrations" =>
    match a.rest with
    | [] => return .migrations
    | t :: _ => throw (.unknownCommand t (program ++ " migrations") [])
  | _ => return .version

/-- The shared flags. -/
def globals (a : Arguments) : Globals where
  config := (a.text? "config").getD []
  language := ((a.text? "language").getD []).toStr
  verbose := a.isOn "verbose"
  quiet := a.isOn "quiet"

/-- Reads a command line. -/
def read (args : List Text) : Except UsageError (Globals × Invocation) := do
  match ← find args with
  | (none, rest) =>
    let a ← Arguments.read (globalFlags ++ [helpFlag]) rest
    return (globals a, .help)
  | (some command, rest) =>
    let a ← Arguments.read (flagsOf command) rest
    if a.isOn "help" then return (globals a, .help)
    return (globals a, ← ofArguments command a)

end Invocation

end Lossless
