import Lossless.Yaml.Cursor
import Lossless.Json.Reader

/-!
# Yaml — scalars

The three notations of scalars: plain, quoted and block.  A line break inside a plain or a quoted
scalar is folded: one break becomes a blank, more of them keep all but the first.
-/

namespace Lossless.Yaml

open Cursor

/-- The white space between two parts of a folded scalar: blanks on one line, or line breaks. -/
structure Gap where
  blanks : List Char := []
  firstBreak : List Char := []
  moreBreaks : List Char := []
  broken : Bool := false

/-- What a gap contributes to the scalar. -/
def Gap.fold (g : Gap) : List Char :=
  if !g.broken then g.blanks
  else if g.firstBreak = ['\n'] then (if g.moreBreaks.isEmpty then [' '] else g.moreBreaks)
  else g.firstBreak ++ g.moreBreaks

/-- Reads the blanks and line breaks at the position. A tab may not stand for indentation: the
result is none when one does so left of column `indent`. -/
def readGap (indent : Nat) : (fuel : Nat) → Gap → Cursor → Option (Gap × Cursor)
  | 0, g, c => some (g, c)
  | fuel + 1, g, c =>
    if isBlank c.char then
      if g.broken && c.char = '\t' && c.col < indent then none
      else if g.broken then readGap indent fuel g c.next
      else readGap indent fuel { g with blanks := g.blanks ++ [c.char] } c.next
    else if isBreak c.char then
      if g.broken then
        readGap indent fuel { g with moreBreaks := g.moreBreaks ++ c.breakText } c.next
      else readGap indent fuel { blanks := [], firstBreak := c.breakText, broken := true } c.next
    else some (g, c)

/-! ### Plain scalars -/

/-- Whether a plain scalar ends before the character at the position. -/
def endsPlain (inFlow : Bool) (c : Cursor) : Bool :=
  (c.char = ':' && isGap (c.peek 1))
    || (inFlow && [',', '?', '[', ']', '\x7b', '\x7d'].contains c.char)

/-- The run of characters of a plain scalar up to a gap or its end. -/
def plainRun (inFlow : Bool) : (fuel : Nat) → Cursor → List Char × Cursor
  | 0, c => ([], c)
  | fuel + 1, c =>
    if isGap c.char || endsPlain inFlow c then ([], c)
    else
      let (cs, after) := plainRun inFlow fuel c.next
      (c.char :: cs, after)

/-- A plain scalar, and whether it ended after a line break. `gap` is what was read before the
position and belongs to the scalar only when it goes on. -/
def plainLoop (inFlow : Bool) (indent : Nat) :
    (fuel : Nat) → (gap : Gap) → Cursor → Option (List Char × Bool × Cursor)
  | 0, _, _ => none
  | fuel + 1, gap, c =>
    if c.atAnyMarker || c.char = '#' then some ([], gap.broken, c)
    else
      let (run, after) := plainRun inFlow c.fuel c
      let here := if run.isEmpty then [] else gap.fold ++ run
      if !(isBlank after.char || isBreak after.char) then
        some (here, gap.broken && run.isEmpty, after)
      else match readGap indent after.fuel (if run.isEmpty then gap else {}) after with
        | none => none
        | some (g, next) =>
          if !inFlow && next.col < indent then some (here, g.broken, next)
          else (plainLoop inFlow indent fuel g next).map fun (cs, broken, last) =>
            (here ++ cs, broken, last)

/-! ### Quoted scalars -/

/-- The character of a one-letter escape in double quotes. -/
def escaped? : Char → Option Char
  | '0' => some '\x00'
  | 'a' => some '\x07'
  | 'b' => some '\x08'
  | 't' => some '\t'
  | '\t' => some '\t'
  | 'n' => some '\n'
  | 'v' => some '\x0b'
  | 'f' => some '\x0c'
  | 'r' => some '\r'
  | 'e' => some '\x1b'
  | ' ' => some ' '
  | '"' => some '"'
  | '\\' => some '\\'
  | 'N' => some '\u0085'
  | '_' => some '\u00a0'
  | 'L' => some '\u2028'
  | 'P' => some '\u2029'
  | c => if c.toNat = 0x27 then some c else none

/-- The number of digits of a numeric escape. -/
def escapeWidth? : Char → Option Nat
  | 'x' => some 2
  | 'u' => some 4
  | 'U' => some 8
  | _ => none

/-- The character that a numeric escape of the given digits stands for. -/
def numericEscape? (ds : List Char) : Option Char :=
  (ds.foldl (fun n d => n.bind fun n => (Json.hexValue? d).map (16 * n + ·)) (some 0)).bind fun n =>
    if (0xd800 ≤ n && n ≤ 0xdfff) || 0x10ffff < n then none else some (Char.ofNat n)

/-- The position `n` characters further. -/
def advance : (n : Nat) → Cursor → Cursor
  | 0, c => c
  | n + 1, c => advance n c.next

/-- The run of characters of a quoted scalar up to a gap or the closing quote. The flag says that
the run ended with an escaped line break. -/
def quotedRun (double : Bool) : (fuel : Nat) → Cursor → Option (List Char × Bool × Cursor)
  | 0, _ => none
  | fuel + 1, c =>
    let more (cs : List Char) (after : Cursor) :=
      (quotedRun double fuel after).map fun (ds, esc, last) => (cs ++ ds, esc, last)
    if isGap c.char then some ([], false, c)
    else if !double then
      if c.char.toNat = 0x27 then
        if (c.peek 1).toNat = 0x27 then more [c.char] c.next.next else some ([], false, c)
      else more [c.char] c.next
    else if c.char = '"' then some ([], false, c)
    else if c.char = '\\' then
      let e := c.peek 1
      if isBreak e then some ([], true, c.next.next)
      else match escapeWidth? e with
        | some w =>
          match numericEscape? ((c.rest.drop 2).take w) with
          | some ch => if c.rest.length < w + 2 then none else more [ch] (advance (w + 2) c)
          | none => none
        | none =>
          match escaped? e with
          | some ch => more [ch] c.next.next
          | none => none
    else more [c.char] c.next

/-- A quoted scalar whose opening quote has been read. -/
def quotedLoop (double : Bool) : (fuel : Nat) → Cursor → Option (List Char × Cursor)
  | 0, _ => none
  | fuel + 1, c =>
    if c.atAnyMarker || isEnd c.char then none
    else match quotedRun double c.fuel c with
      | none => none
      | some (run, esc, after) =>
        if !esc && (after.char = if double then '"' else Char.ofNat 0x27) then
          some (run, after.next)
        else match readGap 0 after.fuel { broken := esc } after with
          | none => none
          | some (g, next) =>
            (quotedLoop double fuel next).map fun (cs, last) => (run ++ g.fold ++ cs, last)

/-! ### Block scalars -/

/-- What happens to the line breaks at the end of a block scalar. -/
inductive Chomping where
  | strip
  | clip
  | keep

/-- The chomping and the explicit indentation of a block header. -/
def blockHeader (c : Cursor) : Option (Chomping × Option Nat × Cursor) :=
  let sign? (ch : Char) : Option Chomping :=
    if ch = '+' then some .keep else if ch = '-' then some .strip else none
  let digit? (ch : Char) : Option Nat :=
    if ch.isDigit then some (ch.toNat - '0'.toNat) else none
  match sign? c.char with
  | some k =>
    match digit? c.next.char with
    | some 0 => none
    | some d => some (k, some d, c.next.next)
    | none => some (k, none, c.next)
  | none =>
    match digit? c.char with
    | some 0 => none
    | some d =>
      match sign? c.next.char with
      | some k => some (k, some d, c.next.next)
      | none => some (.clip, some d, c.next)
    | none => some (.clip, none, c)

/-- Reads empty lines in front of a line of a block scalar. With `indent = 0` the indentation is
still unknown, and the widest column met is returned. None when a tab stands for indentation. -/
def blockBreaks (indent : Nat) :
    (fuel : Nat) → (widest : Nat) → Cursor → Option (List Char × Nat × Cursor)
  | 0, widest, c => some ([], widest, c)
  | fuel + 1, widest, c =>
    let inside := indent = 0 || c.col < indent
    if inside && c.char = ' ' then blockBreaks indent fuel widest c.next
    else
      let widest := max widest c.col
      if inside && c.char = '\t' then none
      else if isBreak c.char then
        (blockBreaks indent fuel widest c.next).map fun (bs, w, last) =>
          (c.breakText ++ bs, w, last)
      else some ([], widest, c)

/-- The lines of a block scalar at a known indentation: its text, the break after its last line and
the empty lines after that. -/
def blockLines (folded : Bool) (indent : Nat) :
    (fuel : Nat) → (pending : List Char) → (blank : Bool) → (breaks : List Char) → Cursor →
      Option (List Char × List Char × List Char × Cursor)
  | 0, _, _, _, _ => none
  | fuel + 1, pending, blank, breaks, c =>
    if c.col != indent || isEnd c.char then some ([], pending, breaks, c)
    else
      let startsBlank := isBlank c.char
      let joint :=
        if folded && !blank && !startsBlank && pending = ['\n'] then
          (if breaks.isEmpty then [' '] else [])
        else pending
      let (line, after) := c.takeWhile (fun ch => !isBreak ch) c.fuel
      let ending := if isEnd after.char then [] else after.breakText
      let start := if isEnd after.char then after else after.next
      match blockBreaks indent after.next.fuel 0 start with
      | none => none
      | some (more, _, next) =>
        (blockLines folded indent fuel ending startsBlank more next).map
          fun (text, last, trailing, fin) => (joint ++ breaks ++ line ++ text, last, trailing, fin)

/-- A block scalar whose indicator has been read; `parent` is the indentation around it. -/
def blockScalar (folded : Bool) (parent : Int) (c : Cursor) : Option (List Char × Cursor) := do
  let (chomping, explicit, c) ← blockHeader c
  let c := c.skipBlanks
  let c := if c.char = '#' then c.lineEnd else c
  if !isBreakOrEnd c.char then none
  else do
    let c := if isEnd c.char then c else c.next
    let given : Nat := match explicit with
      | some d => if 0 ≤ parent then parent.toNat + d else d
      | none => 0
    let (breaks, widest, c) ← blockBreaks given c.fuel 0 c
    let indent := if given = 0 then max (max widest (parent + 1).toNat) 1 else given
    let (text, last, trailing, c) ← blockLines folded indent (c.fuel + 1) [] false breaks c
    return (text ++ match chomping with
      | .strip => []
      | .clip => last
      | .keep => last ++ trailing, c)

end Lossless.Yaml
