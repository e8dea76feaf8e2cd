import Lossless.Json.Basic

/-!
# Json — reading

Reads the JSON value at the start of a character sequence.  Numbers keep their literals, of members
with the same key the last one counts, an escaped surrogate without its partner is read as U+FFFD,
and values may be nested `maxDepth` deep.
-/

namespace Lossless.Json

/-- How deep arrays and objects may be nested. -/
def maxDepth : Nat := 10000

/-- White space between tokens. -/
def isSpace (c : Char) : Bool := c = ' ' || c = '\t' || c = '\n' || c = '\r'

/-- The characters from the first one that is not white space. -/
def skipSpace (cs : List Char) : List Char := cs.dropWhile isSpace

/-- The value of a hexadecimal digit. -/
def hexValue? (c : Char) : Option Nat :=
  let n := c.toNat
  if 0x30 ≤ n && n ≤ 0x39 then some (n - 0x30)
  else if 0x61 ≤ n && n ≤ 0x66 then some (n - 0x57)
  else if 0x41 ≤ n && n ≤ 0x46 then some (n - 0x37)
  else none

/-- The value of four hexadecimal digits. -/
def hex4? (a b c d : Char) : Option Nat := do
  return (((← hexValue? a) * 16 + (← hexValue? b)) * 16 + (← hexValue? c)) * 16 + (← hexValue? d)

/-- A unit of a string body: a character, or half of an escaped surrogate pair. -/
inductive StrUnit where
  | char (c : Char)
  | surrogate (n : Nat)

/-- The unit of an escaped code. -/
def StrUnit.ofCode (n : Nat) : StrUnit :=
  if 0xd800 ≤ n && n ≤ 0xdfff then .surrogate n else .char (Char.ofNat n)

/-- The character of a one-letter escape. -/
def escaped? : Char → Option Char
  | '"' => some '"'
  | '\\' => some '\\'
  | '/' => some '/'
  | 'b' => some '\x08'
  | 'f' => some '\x0c'
  | 'n' => some '\n'
  | 'r' => some '\r'
  | 't' => some '\t'
  | _ => none

/-- The units of a string up to its closing quote, and what follows it. -/
def strUnits : List Char → Option (List StrUnit × List Char)
  | [] => none
  | '"' :: rest => some ([], rest)
  | '\\' :: 'u' :: a :: b :: c :: d :: rest => do
    let n ← hex4? a b c d
    let (us, after) ← strUnits rest
    return (.ofCode n :: us, after)
  | '\\' :: e :: rest => do
    let c ← escaped? e
    let (us, after) ← strUnits rest
    return (.char c :: us, after)
  | c :: rest =>
    if c = '\\' || c.toNat < 0x20 then none
    else do
      let (us, after) ← strUnits rest
      return (.char c :: us, after)

/-- The characters of the units: a high surrogate and a low one right after it are one character,
any other surrogate is U+FFFD. -/
def joinUnits : List StrUnit → List Char
  | [] => []
  | .char c :: rest => c :: joinUnits rest
  | .surrogate hi :: .surrogate lo :: rest =>
    if hi < 0xdc00 && 0xdc00 ≤ lo then
      Char.ofNat (0x10000 + (hi - 0xd800) * 0x400 + (lo - 0xdc00)) :: joinUnits rest
    else '\ufffd' :: joinUnits (.surrogate lo :: rest)
  | .surrogate _ :: rest => '\ufffd' :: joinUnits rest

/-- A string whose opening quote has been read. -/
def strBody? (cs : List Char) : Option (String × List Char) :=
  (strUnits cs).map fun (us, after) => (String.ofList (joinUnits us), after)

/-- A non-empty run of digits and what follows it. -/
def digits? (cs : List Char) : Option (List Char × List Char) :=
  let ds := cs.takeWhile Char.isDigit
  if ds.isEmpty then none else some (ds, cs.dropWhile Char.isDigit)

/-- The fraction of a number, if it has one. -/
def fraction? (cs : List Char) : Option (List Char × List Char) :=
  match cs with
  | '.' :: rest => (digits? rest).map fun (ds, after) => ('.' :: ds, after)
  | _ => some ([], cs)

/-- The exponent of a number, if it has one. -/
def exponentPart? (cs : List Char) : Option (List Char × List Char) :=
  match cs with
  | c :: rest =>
    if c = 'e' || c = 'E' then
      match rest with
      | s :: more =>
        if s = '+' || s = '-' then (digits? more).map fun (ds, after) => (c :: s :: ds, after)
        else (digits? rest).map fun (ds, after) => (c :: ds, after)
      | [] => none
    else some ([], cs)
  | [] => some ([], cs)

/-- The whole part of a number: a zero, or digits that start with none. -/
def whole? (cs : List Char) : Option (List Char × List Char) :=
  match cs with
  | '0' :: rest => some (['0'], rest)
  | _ => digits? cs

/-- The literal of a number and what follows it. -/
def numberLiteral? (cs : List Char) : Option (String × List Char) := do
  let (minus, rest) := match cs with
    | '-' :: rest => (['-'], rest)
    | _ => ([], cs)
  let (w, rest) ← whole? rest
  let (f, rest) ← fraction? rest
  let (e, rest) ← exponentPart? rest
  return (String.ofList (minus ++ w ++ f ++ e), rest)

/-- What follows a given word at the start. -/
def word? (w : String) (cs : List Char) : Option (List Char) :=
  if w.toList.isPrefixOf cs then some (cs.drop w.length) else none

mutual
/-- The value at the start of the characters, and what follows it. `depth` levels of nesting are
left; every call spends one unit of `fuel`. -/
def value? (fuel depth : Nat) (cs : List Char) : Option (Json × List Char) :=
  match fuel with
  | 0 => none
  | fuel + 1 =>
    match skipSpace cs with
    | '"' :: rest => (strBody? rest).map fun (s, after) => (.str s, after)
    | '[' :: rest =>
      match depth with
      | 0 => none
      | depth + 1 =>
        match skipSpace rest with
        | ']' :: after => some (.arr [], after)
        | _ => (elements? fuel depth rest).map fun (vs, after) => (.arr vs, after)
    | '\x7b' :: rest =>
      match depth with
      | 0 => none
      | depth + 1 =>
        match skipSpace rest with
        | '\x7d' :: after => some (.obj [], after)
        | _ => (members? fuel depth [] rest).map fun (ms, after) => (.obj ms, after)
    | 't' :: rest => (word? "rue" rest).map fun after => (.bool true, after)
    | 'f' :: rest => (word? "alse" rest).map fun after => (.bool false, after)
    | 'n' :: rest => (word? "ull" rest).map fun after => (.null, after)
    | cs => (numberLiteral? cs).map fun (n, after) => (.number (.literal n), after)

/-- The elements of an array up to its closing bracket. -/
def elements? (fuel depth : Nat) (cs : List Char) : Option (List Json × List Char) :=
  match fuel with
  | 0 => none
  | fuel + 1 =>
    match value? fuel depth cs with
    | none => none
    | some (v, rest) =>
      match skipSpace rest with
      | ',' :: more => (elements? fuel depth more).map fun (vs, after) => (v :: vs, after)
      | ']' :: after => some ([v], after)
      | _ => none

/-- The members of an object up to its closing brace, added to those read before. -/
def members? (fuel depth : Nat) (done : List (String × Json)) (cs : List Char) :
    Option (List (String × Json) × List Char) :=
  match fuel with
  | 0 => none
  | fuel + 1 =>
    match skipSpace cs with
    | '"' :: rest =>
      match strBody? rest with
      | none => none
      | some (key, rest) =>
        match skipSpace rest with
        | ':' :: rest =>
          match value? fuel depth rest with
          | none => none
          | some (v, rest) =>
            let done := setMember done key v
            match skipSpace rest with
            | ',' :: more => members? fuel depth done more
            | '\x7d' :: after => some (done, after)
            | _ => none
        | _ => none
    | _ => none
end

/-- The first JSON value of the characters, and what follows it. -/
def readFirst? (cs : List Char) : Option (Json × List Char) :=
  value? (2 * cs.length + 2) maxDepth cs

/-- The JSON value that the characters consist of. -/
def read? (cs : List Char) : Option Json :=
  match readFirst? cs with
  | some (v, rest) => if (skipSpace rest).isEmpty then some v else none
  | none => none

end Lossless.Json
