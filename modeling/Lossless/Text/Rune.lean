import Lossless.Text.Basic

/-!
# Text — reading bytes as characters

`Text.pieces` cuts a byte string into characters and stray bytes: at each position the longest
valid UTF-8 sequence (there is at most one) is a character, and a byte that starts none is a stray
byte of its own.  `Text.chars` reads stray bytes as U+FFFD, so `chars` is total on every byte
string. -/

namespace Lossless

/-- A unit of a byte string: a character, or a byte that is no part of one. -/
inductive Piece where
  | char (c : Char)
  | stray (b : UInt8)
  deriving DecidableEq, Repr

namespace Text

/-- The character that stands for a stray byte. -/
def replacement : Char := '\ufffd'

/-- Whether `b` continues a multi-byte sequence. -/
def isContinuation (b : UInt8) : Bool := 0x80 ≤ b && b ≤ 0xbf

/-- The six payload bits of a continuation byte. -/
def payload (b : UInt8) : Nat := b.toNat % 0x40

/-- The character that the bytes `b :: rest` start with and the number of bytes of `rest` that
belong to it. Overlong forms, surrogates and values above U+10FFFF are no characters. -/
def head? (b : UInt8) (rest : Text) : Option (Char × Nat) :=
  if b < 0x80 then some (Char.ofNat b.toNat, 0)
  else if b < 0xc2 then none
  else if b < 0xe0 then
    match rest with
    | c :: _ =>
      if isContinuation c then some (Char.ofNat (b.toNat % 0x20 * 0x40 + payload c), 1) else none
    | _ => none
  else if b < 0xf0 then
    match rest with
    | c :: d :: _ =>
      if isContinuation c && isContinuation d
          && (b != 0xe0 || 0xa0 ≤ c) && (b != 0xed || c ≤ 0x9f) then
        some (Char.ofNat (b.toNat % 0x10 * 0x1000 + payload c * 0x40 + payload d), 2)
      else none
    | _ => none
  else if b < 0xf5 then
    match rest with
    | c :: d :: e :: _ =>
      if isContinuation c && isContinuation d && isContinuation e
          && (b != 0xf0 || 0x90 ≤ c) && (b != 0xf4 || c ≤ 0x8f) then
        some (Char.ofNat
          (b.toNat % 0x08 * 0x40000 + payload c * 0x1000 + payload d * 0x40 + payload e), 3)
      else none
    | _ => none
  else none

/-- The characters and stray bytes of `t`, in order. -/
def pieces : Text → List Piece
  | [] => []
  | b :: rest =>
    match head? b rest with
    | some (c, n) => .char c :: pieces (rest.drop n)
    | none => .stray b :: pieces rest
termination_by t => t.length
decreasing_by
  all_goals simp only [List.length_cons, List.length_drop]; omega

/-- The characters of `t`, a stray byte read as U+FFFD. -/
def chars (t : Text) : List Char :=
  t.pieces.map fun
    | .char c => c
    | .stray _ => replacement

/-- Whether `t` is valid UTF-8: no byte of it is stray. -/
def isValid (t : Text) : Bool :=
  t.pieces.all fun
    | .char _ => true
    | .stray _ => false

/-- The string with the characters of `t`. -/
def toStr (t : Text) : String := String.ofList t.chars

/-- The string whose bytes are `t`, when there is one. -/
def toString? (t : Text) : Option String := if t.isValid then some t.toStr else none

end Text

end Lossless
