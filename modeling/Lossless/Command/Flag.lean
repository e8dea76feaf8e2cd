import Lossless.Command.Fields
import Lossless.Decimal.Numeral
import Lossless.Text.Quoted

/-!
# Command — flags

Flags are given by name (`--name value`, `--name=value`) or by letter (`-n value`, `-nvalue`), in
any order between the arguments; `--` ends them.  Switches need no value, and several of their
letters may stand behind one dash.  Letters that are the name of a flag for tests are passed over.
-/

namespace Lossless

/-- What the value of a flag is. -/
inductive FlagType where
  | text
  | switch
  | number
  | list
  deriving DecidableEq, Repr

/-- A flag of a command. -/
structure Flag where
  name : String
  letter : Option Char := none
  type : FlagType
  deriving DecidableEq, Repr

/-- The value that a flag was given. -/
inductive FlagValue where
  | text (t : Text)
  | switch (b : Bool)
  | number (n : Int)
  | list (ts : List Text)
  deriving DecidableEq, Repr

/-- What is wrong with a command line. -/
inductive UsageError where
  | unknownCommand (name : Text) (parent : String) (hints : List String)
  | exactly (wanted received : Nat)
  | atLeast (wanted received : Nat)
  | atMost (wanted received : Nat)
  | badSyntax (argument : Text)
  | unknownFlag (name : Text)
  | unknownLetter (letter : UInt8) (letters : Text)
  | noValue (name : String)
  | noValueForLetter (letter : UInt8) (letters : Text)
  | badValue (value : Text) (flag : Flag) (reason : String)

/-- How a flag is named in a message. -/
def Flag.label (f : Flag) : String :=
  match f.letter with
  | some c => "-" ++ String.ofList [c] ++ ", --" ++ f.name
  | none => "--" ++ f.name

/-- The text of the error. -/
def UsageError.message : UsageError → Text
  | .unknownCommand name parent hints =>
    "unknown command " ++ Text.quote name ++ " for " ++ Text.quoteString parent
      ++ if hints.isEmpty then "" else
        "\n\nDid you mean this?\n" ++ String.join (hints.map fun h => "\t" ++ h ++ "\n")
  | .exactly n m => "accepts " ++ toString n ++ " arg(s), received " ++ toString m
  | .atLeast n m => "requires at least " ++ toString n ++ " arg(s), only received " ++ toString m
  | .atMost n m => "accepts at most " ++ toString n ++ " arg(s), received " ++ toString m
  | .badSyntax a => Text.ofString "bad flag syntax: " ++ a
  | .unknownFlag n => Text.ofString "unknown flag: --" ++ n
  | .unknownLetter l ls =>
    Text.ofString ("unknown shorthand flag: " ++ Text.quoteSingle (Char.ofNat l.toNat) ++ " in -")
      ++ ls
  | .noValue n => "flag needs an argument: --" ++ n
  | .noValueForLetter l ls =>
    Text.ofString ("flag needs an argument: " ++ Text.quoteSingle (Char.ofNat l.toNat) ++ " in -")
      ++ ls
  | .badValue v f reason =>
    "invalid argument " ++ Text.quote v ++ " for " ++ Text.quoteString f.label
      ++ " flag: " ++ reason

namespace Flag

/-- The dash in front of flags. -/
def dash : UInt8 := 45

/-- The mark between a flag and its value. -/
def equals : UInt8 := 61

/-- Whether a flag may stand without a value. -/
def isSwitch (f : Flag) : Bool := f.type = .switch

/-- The flag of a name. -/
def named? (flags : List Flag) (name : Text) : Option Flag :=
  flags.find? fun f => Text.ofString f.name = name

/-- The flag of a letter. -/
def lettered? (flags : List Flag) (letter : UInt8) : Option Flag :=
  flags.find? fun f => f.letter.map Char.toNat = some letter.toNat

/-! ### Values -/

/-- The words for the values of a switch. -/
def switchValue? (t : Text) : Option Bool :=
  if ["1", "t", "T", "TRUE", "true", "True"].any fun w => Text.ofString w = t then some true
  else if ["0", "f", "F", "FALSE", "false", "False"].any fun w => Text.ofString w = t then
    some false
  else none

/-- Reads a number; the error tells a number that is too large from what is no number. -/
def numberValue (t : Text) : Except String Int :=
  (Decimal.basedInt64 t.chars).mapError fun f =>
    "strconv.ParseInt: parsing " ++ Text.quote t ++ ": " ++ match f with
      | .malformed => "invalid syntax"
      | .outOfRange => "value out of range"

/-- Reads the value of a flag. -/
def value (f : Flag) (t : Text) : Except String FlagValue :=
  match f.type with
  | .text => .ok (.text t)
  | .switch =>
    match switchValue? t with
    | some b => .ok (.switch b)
    | none => .error ("strconv.ParseBool: parsing " ++ Text.quote t ++ ": invalid syntax")
  | .number => (numberValue t).map .number
  | .list => (Fields.read t).map .list

end Flag

/-- The flags that were given, each with its value, and the arguments between them. -/
structure Arguments where
  given : List (String × FlagValue) := []
  rest : List Text := []

namespace Arguments

/-- The value that a flag was given. -/
def get? (a : Arguments) (name : String) : Option FlagValue := a.given.lookup name

/-- The text that a flag was given. -/
def text? (a : Arguments) (name : String) : Option Text :=
  match a.get? name with
  | some (.text t) => some t
  | _ => none

/-- The value that a switch was given. -/
def switch? (a : Arguments) (name : String) : Option Bool :=
  match a.get? name with
  | some (.switch b) => some b
  | _ => none

/-- The number that a flag was given. -/
def number? (a : Arguments) (name : String) : Option Int :=
  match a.get? name with
  | some (.number n) => some n
  | _ => none

/-- The list that a flag was given. -/
def list (a : Arguments) (name : String) : List Text :=
  match a.get? name with
  | some (.list ts) => ts
  | _ => []

/-- Whether a switch is on. -/
def isOn (a : Arguments) (name : String) : Bool := (a.switch? name).getD false

/-- Sets the value of a flag: lists grow, all else is replaced. -/
def put (a : Arguments) (name : String) (v : FlagValue) : Arguments :=
  let v := match v with
    | .list ts => .list (a.list name ++ ts)
    | v => v
  { a with given := (name, v) :: a.given.filter (·.1 ≠ name) }

/-- Gives a flag a value. -/
def set (a : Arguments) (f : Flag) (t : Text) : Except UsageError Arguments :=
  match f.value t with
  | .ok v => .ok (a.put f.name v)
  | .error reason => .error (.badValue t f reason)

/-- The name and the value around the first equals sign. -/
def splitValue (t : Text) : Text × Option Text :=
  match t.dropWhile (· != Flag.equals) with
  | [] => (t, none)
  | _ :: v => (t.takeWhile (· != Flag.equals), some v)

/-- Reads a flag given by name, and its value from the next argument when it needs one. -/
def long (flags : List Flag) (a : Arguments) (name : Text) (next : List Text) :
    Except UsageError (Arguments × List Text) :=
  let (name, value) := splitValue name
  match Flag.named? flags name with
  | none => .error (.unknownFlag name)
  | some f =>
    match value, next with
    | some v, _ => (a.set f v).map (·, next)
    | none, [] => if f.isSwitch then (a.set f "true").map (·, next) else .error (.noValue f.name)
    | none, v :: rest =>
      if f.isSwitch then (a.set f "true").map (·, next) else (a.set f v).map (·, rest)

/-- How the flags for tests start. -/
def testMark : Text := "test."

/-- Reads the flags of a row of letters. -/
def short (flags : List Flag) (a : Arguments) (next : List Text) :
    (letters : Text) → Except UsageError (Arguments × List Text)
  | [] => .ok (a, next)
  | l :: more =>
    if testMark.isPrefixOf (l :: more) then .ok (a, next)
    else match Flag.lettered? flags l with
    | none => .error (.unknownLetter l (l :: more))
    | some f =>
      match more, next with
      | b :: v :: vs, _ =>
        if b = Flag.equals then (a.set f (v :: vs)).map (·, next)
        else if f.isSwitch then (a.set f "true").bind fun a => short flags a next more
        else (a.set f more).map (·, next)
      | b :: [], _ =>
        if f.isSwitch then (a.set f "true").bind fun a => short flags a next more
        else (a.set f [b]).map (·, next)
      | [], v :: rest =>
        if f.isSwitch then (a.set f "true").map (·, next) else (a.set f v).map (·, rest)
      | [], [] =>
        if f.isSwitch then (a.set f "true").map (·, next)
        else .error (.noValueForLetter l [l])

/-- Reads arguments in order. Every round takes at least one. -/
def readFrom (flags : List Flag) :
    (fuel : Nat) → Arguments → List Text → Except UsageError Arguments
  | 0, a, _ => .ok a
  | _, a, [] => .ok a
  | fuel + 1, a, arg :: next =>
    match arg with
    | 45 :: 45 :: [] => .ok { a with rest := a.rest ++ next }
    | 45 :: 45 :: b :: name =>
      if b = Flag.dash || b = Flag.equals then .error (.badSyntax arg)
      else (long flags a (b :: name) next).bind fun (a, next) => readFrom flags fuel a next
    | 45 :: b :: letters =>
      (short flags a next (b :: letters)).bind fun (a, next) => readFrom flags fuel a next
    | _ => readFrom flags fuel { a with rest := a.rest ++ [arg] } next

/-- Reads the arguments of a command with the given flags. -/
def read (flags : List Flag) (args : List Text) : Except UsageError Arguments :=
  readFrom flags args.length {} args

end Arguments

end Lossless
