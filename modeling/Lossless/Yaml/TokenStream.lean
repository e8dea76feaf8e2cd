import Lossless.Yaml.Token
import Std.Data.HashMap

/-!
# Yaml — streams of tokens

Tokens are found while they are read, and never far ahead of the reader: what stands behind a
document is not looked at, and may be anything.  A block collection opens where a line is indented
further than the collection around it and closes where one is indented less.  A scalar or a flow
collection may turn out to be a key when a colon follows on the same line, so its number is
remembered and the token of the key is put in front of it later.
-/

namespace Lossless.Yaml

open Cursor

/-- A stream of tokens. -/
structure TokenStream where
  at_ : Cursor
  /-- The tokens that are found and not yet taken. -/
  queue : List Token := []
  /-- The number of tokens that have been taken. -/
  taken : Nat := 0
  /-- Whether the first token of the queue may be taken. -/
  ready : Bool := false
  /-- The indentations of the open block collections, innermost first. -/
  indents : List Int := []
  keyAllowed : Bool := true
  /-- The candidate of the outermost level and of every open flow collection, innermost last. -/
  candidates : Array KeyCandidate := #[{}]
  /-- The tokens that are not taken before it is known whether a key starts with them, and the
  levels of their candidates. -/
  awaited : Std.HashMap Nat Nat := {}
  /-- Whether the first character of a line is passed over. -/
  marked : Bool := false

namespace TokenStream

/-- How deep collections may be nested. -/
def maxDepth : Nat := 10000

/-- The number of open flow collections. -/
def flowDepth (s : TokenStream) : Nat := s.candidates.size - 1

/-- Whether a flow collection is open. -/
def inFlow (s : TokenStream) : Bool := s.flowDepth != 0

/-- The indentation of the innermost block collection. -/
def indent (s : TokenStream) : Int := s.indents.headD (-1)

/-- The number that the next token will have. -/
def nextNumber (s : TokenStream) : Nat := s.taken + s.queue.length

/-- Adds a token. -/
def emit (s : TokenStream) (t : Token) : TokenStream := { s with queue := s.queue ++ [t] }

/-- Puts a token in front of the one of the given number, or at the end if that has been taken. -/
def emitAt (s : TokenStream) (number : Nat) (t : Token) : TokenStream :=
  if number < s.taken then s.emit t
  else
    let n := number - s.taken
    { s with queue := s.queue.take n ++ t :: s.queue.drop n }

/-- The stream `n` characters further. -/
def move (s : TokenStream) (n : Nat) : TokenStream := { s with at_ := advance n s.at_ }

/-! ### Candidates -/

/-- The candidate of the innermost level. -/
def candidate (s : TokenStream) : KeyCandidate := s.candidates.back?.getD {}

/-- Replaces the candidate of a level. -/
def setCandidate (s : TokenStream) (level : Nat) (k : KeyCandidate) : TokenStream :=
  { s with candidates := s.candidates.setIfInBounds level k }

/-- Does not wait for a token any more. -/
def release (s : TokenStream) (number : Nat) : TokenStream :=
  { s with awaited := s.awaited.erase number }

/-- Gives up the innermost candidate; none when it was required. -/
def dropCandidate (s : TokenStream) : Option TokenStream :=
  let k := s.candidate
  if !k.possible then some s
  else if k.required then none
  else some ((s.setCandidate s.flowDepth { k with possible := false }).release k.token)

/-- Remembers what starts here as a candidate, if a key may start here. -/
def saveCandidate (s : TokenStream) : Option TokenStream :=
  if s.keyAllowed then do
    let required := !s.inFlow && s.indent == s.at_.col
    let number := s.nextNumber
    let s ← s.dropCandidate
    let s := s.setCandidate s.flowDepth
      { possible := true, required, token := number, index := s.at_.index, line := s.at_.line,
        col := s.at_.col }
    return { s with awaited := s.awaited.insert number s.flowDepth }
  else some s

/-- Whether the candidate of a level may still become a key. One that is too far away is given up;
none when it was required. -/
def checkCandidate (s : TokenStream) (level : Nat) : Option (Bool × TokenStream) :=
  match s.candidates[level]? with
  | none => some (false, s)
  | some k =>
    if !k.possible then some (false, s)
    else if !k.isStale s.at_ then some (true, s)
    else if k.required then none
    else some (false, s.setCandidate level { k with possible := false })

/-! ### Block collections -/

/-- Closes the block collections that are indented further than `col`. -/
def closeBlocks (s : TokenStream) (col : Int) : TokenStream :=
  if s.inFlow then s
  else
    let closed := s.indents.takeWhile (col < ·)
    { s with
      queue := s.queue ++ List.replicate closed.length .blockEnd
      indents := s.indents.drop closed.length }

/-- Opens a block collection at `col` if that is further in; its token stands in front of the one of
the given number. None when collections are nested too deep. -/
def openBlock (s : TokenStream) (col : Nat) (number : Nat) (t : Token) : Option TokenStream :=
  if s.inFlow || !(s.indent < col) then some s
  else if maxDepth ≤ s.indents.length then none
  else some { s.emitAt number t with indents := (col : Int) :: s.indents }

/-! ### Gaps -/

/-- How far ahead a comment is looked for. -/
def commentReach : Nat := 512

/-- Whether a comment stands below the line that ends at the position, and how many characters
ahead. -/
def commentBelow? (c : Cursor) : Option Nat :=
  let isPlainBreak (ch : Char) := ch = '\r' || ch = '\n'
  let ahead := (c.rest.take commentReach).drop 1
  let gap := ahead.takeWhile fun ch => isBlank ch || isPlainBreak ch
  if isPlainBreak c.char && (ahead.drop gap.length).head? = some '#' then some (gap.length + 1)
  else none

/-- The end of the last of the comments that stand below each other, from the end of one of them. -/
def commentsEnd : (fuel : Nat) → Cursor → Cursor
  | 0, c => c
  | fuel + 1, c =>
    match commentBelow? c with
    | none => c
    | some n => commentsEnd fuel (c.reach (c.index + n) (n + 1)).lineEnd

/-- Skips blanks, comments and line breaks. A tab counts as a blank only where no key may start. -/
def skipGaps : (fuel : Nat) → TokenStream → TokenStream
  | 0, s => s
  | fuel + 1, s =>
    let c := if s.marked && s.at_.col == 0 then s.at_.next else s.at_
    let tab := s.inFlow || !s.keyAllowed
    let c := c.skipWhile (fun ch => ch = ' ' || (ch = '\t' && tab)) c.fuel
    let c := if c.char = '#' then commentsEnd c.fuel c.lineEnd else c
    if isBreak c.char then
      skipGaps fuel { s with at_ := c.next, keyAllowed := s.keyAllowed || !s.inFlow }
    else { s with at_ := c }

/-- Skips a comment on the line of the last token; an item's dash has none. -/
def skipLineComment (s : TokenStream) : TokenStream :=
  let blanks := (s.at_.rest.take commentReach).takeWhile isBlank
  if s.queue.getLast? != some .blockEntry && blanks.length < commentReach
      && s.at_.peek blanks.length = '#' then
    { s with at_ := s.at_.lineEnd }
  else s

/-! ### Tokens -/

/-- The end of the stream. -/
def finish (s : TokenStream) : Option TokenStream := do
  let c := s.at_
  let s := if c.col = 0 then s else { s with at_ := { c with line := c.line + 1, col := 0 } }
  let s ← (s.closeBlocks (-1)).dropCandidate
  return ({ s with keyAllowed := false }).emit .streamEnd

/-- A directive. -/
def directive (s : TokenStream) : Option TokenStream := do
  let s ← (s.closeBlocks (-1)).dropCandidate
  let (d, after) ← directive? s.at_.next
  return ({ s with at_ := after, keyAllowed := false }).emit (.ofDirective d)

/-- A marker between documents. -/
def documentMarker (s : TokenStream) (t : Token) : Option TokenStream := do
  let s ← (s.closeBlocks (-1)).dropCandidate
  return (({ s with keyAllowed := false }).move 3).emit t

/-- The opening bracket of a flow collection. -/
def openFlow (s : TokenStream) (t : Token) : Option TokenStream := do
  let s ← s.saveCandidate
  if maxDepth ≤ s.flowDepth then none
  else
    let candidates := s.candidates.push { token := s.nextNumber }
    return (({ s with candidates, keyAllowed := true }).move 1).emit t

/-- The closing bracket of a flow collection. -/
def closeFlow (s : TokenStream) (t : Token) : Option TokenStream := do
  let s ← s.dropCandidate
  let s := if s.inFlow then
      { s.release s.candidate.token with candidates := s.candidates.pop }
    else s
  return (({ s with keyAllowed := false }).move 1).emit t

/-- A comma. -/
def flowEntry (s : TokenStream) : Option TokenStream := do
  let s ← s.dropCandidate
  return (({ s with keyAllowed := true }).move 1).emit .flowEntry

/-- A dash in front of an item. -/
def blockEntry (s : TokenStream) : Option TokenStream := do
  if !s.inFlow && !s.keyAllowed then none
  else
    let s ← s.openBlock s.at_.col s.nextNumber .blockSeqStart
    let s ← s.dropCandidate
    return (({ s with keyAllowed := true }).move 1).emit .blockEntry

/-- A question mark in front of a key. -/
def keyEntry (s : TokenStream) : Option TokenStream := do
  if !s.inFlow && !s.keyAllowed then none
  else
    let s ← s.openBlock s.at_.col s.nextNumber .blockMapStart
    let s ← s.dropCandidate
    return (({ s with keyAllowed := !s.inFlow }).move 1).emit .key

/-- A colon in front of a value. It turns a candidate into a key. -/
def valueEntry (s : TokenStream) : Option TokenStream := do
  let (valid, s) ← s.checkCandidate s.flowDepth
  if valid then
    let k := s.candidate
    let s ← (s.emitAt k.token .key).openBlock k.col k.token .blockMapStart
    let s := (s.setCandidate s.flowDepth { k with possible := false }).release k.token
    return (({ s with keyAllowed := false }).move 1).emit .value
  else if !s.inFlow && !s.keyAllowed then none
  else
    let s ← s.openBlock s.at_.col s.nextNumber .blockMapStart
    return (({ s with keyAllowed := !s.inFlow }).move 1).emit .value

/-- An alias or an anchor. -/
def reference (s : TokenStream) (token : String → Token) : Option TokenStream := do
  let s ← s.saveCandidate
  let (name, after) ← anchorName? s.at_.next
  return ({ s with at_ := after, keyAllowed := false }).emit (token name)

/-- A tag. -/
def tagEntry (s : TokenStream) : Option TokenStream := do
  let s ← s.saveCandidate
  let (handle, name, after) ← tag? s.at_
  return ({ s with at_ := after, keyAllowed := false }).emit (.tag handle name)

/-- A block scalar. -/
def blockScalarEntry (s : TokenStream) (folded : Bool) : Option TokenStream := do
  let s ← s.dropCandidate
  let (text, after) ← blockScalar folded s.indent s.at_.next
  return ({ s with at_ := after, keyAllowed := true }).emit (.scalar (String.ofList text) false)

/-- A quoted scalar. -/
def quotedEntry (s : TokenStream) (double : Bool) : Option TokenStream := do
  let s ← s.saveCandidate
  let start := s.at_.next
  let (text, after) ← quotedLoop double (start.fuel + 1) start
  return ({ s with at_ := after, keyAllowed := false }).emit (.scalar (String.ofList text) false)

/-- A plain scalar. A comment behind it is on its line unless the scalar ended with a line break. -/
def plainEntry (s : TokenStream) : Option TokenStream := do
  let s ← s.saveCandidate
  let (text, broken, after) ←
    plainLoop s.inFlow (s.indent + 1).toNat (s.at_.fuel + 1) {} s.at_
  let s := ({ s with at_ := after, keyAllowed := broken }).emit (.scalar (String.ofList text) true)
  return if broken then s else s.skipLineComment

/-- Whether a plain scalar may start at the position. -/
def startsPlain (s : TokenStream) : Bool :=
  let c := s.at_.char
  let n := s.at_.peek 1
  !(isGap c || ['-', '?', ':', ',', '[', ']', '\x7b', '\x7d', '#', '&', '*', '!', '|', '>', '"',
      '%', '@', Char.ofNat 0x27, Char.ofNat 0x60].contains c)
    || (c = '-' && !isBlank n)
    || (!s.inFlow && (c = '?' || c = ':') && !isGap n)

/-- The token of an indicator, if one stands at the position. -/
def indicator? (s : TokenStream) : Option (Option TokenStream) :=
  let c := s.at_.char
  let n := s.at_.peek 1
  if c = '[' then some (s.openFlow .flowSeqStart)
  else if c = '\x7b' then some (s.openFlow .flowMapStart)
  else if c = ']' then some (s.closeFlow .flowSeqEnd)
  else if c = '\x7d' then some (s.closeFlow .flowMapEnd)
  else if c = ',' then some s.flowEntry
  else if c = '-' && isGap n then some s.blockEntry
  else if c = '?' && (s.inFlow || isGap n) then some s.keyEntry
  else if c = ':' && (s.inFlow || isGap n) then some s.valueEntry
  else if c = '*' then some (s.reference .alias)
  else if c = '&' then some (s.reference .anchor)
  else if c = '!' then some s.tagEntry
  else if c = '"' then some (s.quotedEntry true)
  else if c.toNat = 0x27 then some (s.quotedEntry false)
  else none

/-- Finds the next token; none when the text is malformed. -/
def fetch (s : TokenStream) : Option TokenStream :=
  let s := skipGaps s.at_.fuel s
  let s := s.closeBlocks s.at_.col
  let c := s.at_.char
  if isEnd c then s.finish
  else if s.at_.col == 0 && c = '%' then s.directive
  else if s.at_.atMarker '-' then s.documentMarker .documentStart
  else if s.at_.atMarker '.' then s.documentMarker .documentEnd
  else if (c = '|' || c = '>') && !s.inFlow then s.blockScalarEntry (c = '>')
  else match s.indicator? with
    | some found => found.map skipLineComment
    | none => if s.startsPlain then s.plainEntry else none

/-! ### Reading -/

/-- Finds tokens until the first of the queue may be taken: two more have to be known, and whether a
key starts with it. -/
def prepare : (fuel : Nat) → TokenStream → Option TokenStream
  | 0, _ => none
  | fuel + 1, s =>
    if s.queue.length ≤ 2 then s.fetch.bind (prepare fuel)
    else match s.awaited[s.taken]? with
      | none => some { s with ready := true }
      | some level =>
        match s.checkCandidate level with
        | none => none
        | some (false, s) => some { s with ready := true }
        | some (true, s) => s.fetch.bind (prepare fuel)

/-- The next token, which stays in the stream. -/
def peek (s : TokenStream) : Option (Token × TokenStream) := do
  let s ← if s.ready then some s else prepare (s.at_.fuel + 4) s
  return (s.queue.headD .streamEnd, s)

/-- The stream without its next token. -/
def skip (s : TokenStream) : TokenStream :=
  { s with queue := s.queue.drop 1, taken := s.taken + 1, ready := false }

/-- The stream of the tokens of a text. -/
def ofChars (cs : List Char) : TokenStream :=
  { at_ := .ofChars cs, marked := cs.head? = some '\ufeff' }

end TokenStream

end Lossless.Yaml
