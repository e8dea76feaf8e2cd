import Lossless.Json.Reader
import Lossless.Text.Rune
import Lossless.Yaml.Cursor

/-!
# Yaml — anchors, tags and directives

A node may carry an anchor, by which aliases refer to it, and a tag, which names its type.  A tag is
written in full between angle brackets, or as a handle and the rest of the name: directives in front
of a document say which names a handle stands for.
-/

namespace Lossless.Yaml

open Cursor

/-- The name of an anchor or of an alias, behind its indicator. -/
def anchorName? (c : Cursor) : Option (String × Cursor) :=
  let (name, after) := c.takeWhile isWord c.fuel
  let closes := ['?', ':', ',', ']', '\x7d', '%', '@', Char.ofNat 0x60]
  if name.isEmpty || !(isGap after.char || closes.contains after.char) then none
  else some (String.ofList name, after)

/-! ### Names of types -/

/-- Characters that stand for themselves in the name of a type. -/
def isTypeChar (c : Char) : Bool :=
  isWord c || [';', '/', '?', ':', '@', '&', '=', '+', '$', ',', '.', '!', '~', '*',
    Char.ofNat 0x27, '(', ')', '[', ']'].contains c

/-- An octet written as a percent sign and two digits. -/
def octet? (c : Cursor) : Option (UInt8 × Cursor) :=
  if c.char = '%' then
    match Json.hexValue? (c.peek 1), Json.hexValue? (c.peek 2) with
    | some a, some b => some (UInt8.ofNat (16 * a + b), c.next.next.next)
    | _, _ => none
  else none

/-- The number of octets of the character that an octet starts. -/
def octetCount? (b : UInt8) : Option Nat :=
  if b < 0x80 then some 1
  else if 0xc0 ≤ b && b < 0xe0 then some 2
  else if 0xe0 ≤ b && b < 0xf0 then some 3
  else if 0xf0 ≤ b && b < 0xf8 then some 4
  else none

/-- `n` written octets that continue a character. -/
def continuations? : (n : Nat) → Cursor → Option (Text × Cursor)
  | 0, c => some ([], c)
  | n + 1, c =>
    match octet? c with
    | some (b, after) =>
      if Text.isContinuation b then
        (continuations? n after).map fun (bs, last) => (b :: bs, last)
      else none
    | none => none

/-- The bytes of the name of a type, which may be empty. -/
def typeName? : (fuel : Nat) → Cursor → Option (Text × Cursor)
  | 0, c => some ([], c)
  | fuel + 1, c =>
    if c.char = '%' then do
      let (b, after) ← octet? c
      let n ← octetCount? b
      let (more, after) ← continuations? (n - 1) after
      let (rest, last) ← typeName? fuel after
      return (b :: more ++ rest, last)
    else if isTypeChar c.char then
      (typeName? fuel c.next).map fun (rest, last) => (Text.ofChars [c.char] ++ rest, last)
    else some ([], c)

/-- The name of a type, which is not empty. -/
def someTypeName? (c : Cursor) : Option (String × Cursor) :=
  ((typeName? c.fuel c).filter fun (name, _) => !name.isEmpty).map fun (name, after) =>
    (name.toStr, after)

/-! ### Tags -/

/-- What a handle may look like: the word behind the first exclamation mark, and whether a second
mark closes it. -/
def handle? (c : Cursor) : Option (List Char × Bool × Cursor) :=
  if c.char = '!' then
    let (word, after) := c.next.takeWhile isWord c.fuel
    some (if after.char = '!' then (word, true, after.next) else (word, false, after))
  else none

/-- The handle and the rest of the name of a tag at the position. A tag in full has no handle, and
neither has the one that is a single mark. -/
def tag? (c : Cursor) : Option (String × String × Cursor) := do
  let (handle, name, after) ←
    if c.peek 1 = '<' then do
      let (name, after) ← someTypeName? c.next.next
      if after.char = '>' then some ("", name, after.next) else none
    else do
      let (word, closed, after) ← handle? c
      if closed then
        let (name, after) ← someTypeName? after
        pure ("!" ++ String.ofList word ++ "!", name, after)
      else
        let (more, after) ← typeName? after.fuel after
        let name := String.ofList word ++ more.toStr
        pure (if name = "" then ("", "!", after) else ("!", name, after))
  if isGap after.char then some (handle, name, after) else none

/-! ### Directives -/

/-- A directive: the version of the notation, or the names that a handle stands for. -/
inductive Directive where
  | version (major minor : Nat)
  | handle (handle stem : String)

/-- A number of one or two digits. -/
def versionNumber? (c : Cursor) : Option (Nat × Cursor) :=
  let (ds, after) := c.takeWhile Char.isDigit c.fuel
  if ds.isEmpty || 2 < ds.length then none
  else some (ds.foldl (fun n d => 10 * n + (d.toNat - '0'.toNat)) 0, after)

/-- The version that a directive gives. -/
def version? (c : Cursor) : Option (Directive × Cursor) := do
  let (major, after) ← versionNumber? c.skipBlanks
  if after.char != '.' then none
  else
    let (minor, after) ← versionNumber? after.next
    return (.version major minor, after)

/-- The handle that a directive explains. -/
def handleRule? (c : Cursor) : Option (Directive × Cursor) := do
  let (word, closed, after) ← handle? c.skipBlanks
  if (!closed && !word.isEmpty) || !isBlank after.char then none
  else
    let (stem, after) ← someTypeName? after.skipBlanks
    let handle := "!" ++ String.ofList word ++ (if closed then "!" else "")
    if isGap after.char then some (.handle handle stem, after) else none

/-- A directive behind its percent sign, with its line. -/
def directive? (c : Cursor) : Option (Directive × Cursor) := do
  let (name, after) := c.takeWhile isWord c.fuel
  if !isGap after.char then none
  else
    let (d, after) ←
      match String.ofList name with
      | "YAML" => version? after
      | "TAG" => handleRule? after
      | _ => none
    let after := after.skipBlanks
    let after := if after.char = '#' then after.lineEnd else after
    if isBreakOrEnd after.char then some (d, if isEnd after.char then after else after.next)
    else none

end Lossless.Yaml
