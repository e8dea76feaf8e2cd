/-!
# Edit — edit scripts

An edit script turns one sequence into another: a list of chunks, each kept, deleted or inserted.
`Script.between` finds a short script.  Common ends are split off first; when one sequence contains
the other, or when both share a run of at least half the longer one, the problem is cut there;
otherwise it is cut in the middle of a shortest path through the edit graph.  `Script.tidy` then
merges neighbouring chunks and slides single edits over equal neighbours.

All functions keep both sides of a script: its kept and deleted chunks spell the first sequence,
its kept and inserted chunks the second.
-/

namespace Lossless.Edit

/-- What happens to a chunk of items. -/
inductive Change where
  | keep
  | delete
  | insert
  deriving DecidableEq, Repr

/-- A run of items that share their fate. -/
structure Chunk (α : Type) where
  change : Change
  items : List α
  deriving DecidableEq, Repr

/-- A list of chunks. -/
abbrev Script (α : Type) := List (Chunk α)

namespace Script

variable {α : Type}

/-- The sequence a script starts from. -/
def source (s : Script α) : List α :=
  s.flatMap fun c => if c.change = .insert then [] else c.items

/-- The sequence a script ends with. -/
def target (s : Script α) : List α :=
  s.flatMap fun c => if c.change = .delete then [] else c.items

variable [BEq α]

/-- The length of the longest common initial segment. -/
def commonStart : List α → List α → Nat
  | a :: as, b :: bs => if a == b then commonStart as bs + 1 else 0
  | _, _ => 0

/-- The length of the longest common final segment. -/
def commonEnd (a b : List α) : Nat := commonStart a.reverse b.reverse

/-- The first position at which `part` occurs in a sequence. -/
def indexOf? (part : List α) : List α → Option Nat
  | [] => if part.isEmpty then some 0 else none
  | a :: as =>
    if part.isPrefixOf (a :: as) then some 0 else (indexOf? part as).map (· + 1)

/-- All positions at which `part` occurs in a sequence, ascending from `start`. -/
def occurrences (part : List α) : (start : Nat) → List α → List Nat
  | _, [] => []
  | start, a :: as =>
    if part.isPrefixOf (a :: as) then start :: occurrences part (start + 1) as
    else occurrences part (start + 1) as

/-! ### Tidying -/

/-- The edits collected since the last kept chunk: how many of either kind, and their items. -/
structure Pending (α : Type) where
  edits : List (Chunk α) := []
  deletions : Nat := 0
  insertions : Nat := 0
  deleted : List α := []
  inserted : List α := []

/-- Adds an edit to the collected ones. -/
def Pending.push (p : Pending α) (c : Chunk α) : Pending α :=
  match c.change with
  | .insert => { p with
      edits := p.edits ++ [c], insertions := p.insertions + 1, inserted := p.inserted ++ c.items }
  | _ => { p with
      edits := p.edits ++ [c], deletions := p.deletions + 1, deleted := p.deleted ++ c.items }

/-- Appends items to the kept chunk that ends the reversed script `done`, or starts one. -/
def extendKept (done : Script α) (items : List α) : Script α :=
  match done with
  | ⟨.keep, kept⟩ :: rest => ⟨.keep, kept ++ items⟩ :: rest
  | _ => ⟨.keep, items⟩ :: done

/-- Closes the collected edits in front of a kept chunk. Two or more edits become at most one
deletion and one insertion, whose common ends move into the kept neighbours. -/
def closeEdits (done : Script α) (p : Pending α) (kept : List α) : Script α :=
  if p.deletions + p.insertions ≤ 1 then
    match p.edits with
    | [] => extendKept done kept
    | edits => ⟨.keep, kept⟩ :: (edits.reverse ++ done)
  else if p.deletions = 0 then ⟨.keep, kept⟩ :: ⟨.insert, p.inserted⟩ :: done
  else if p.insertions = 0 then ⟨.keep, kept⟩ :: ⟨.delete, p.deleted⟩ :: done
  else
    let n := commonStart p.inserted p.deleted
    let done := if n = 0 then done else extendKept done (p.inserted.take n)
    let inserted := p.inserted.drop n
    let deleted := p.deleted.drop n
    let m := commonEnd inserted deleted
    let kept := inserted.drop (inserted.length - m) ++ kept
    ⟨.keep, kept⟩ :: ⟨.insert, inserted.take (inserted.length - m)⟩
      :: ⟨.delete, deleted.take (deleted.length - m)⟩ :: done

/-- Merges the runs of edits of a script; `done` is the reversed result so far. -/
def mergeEdits : (done : Script α) → Pending α → Script α → Script α
  | done, p, [] => closeEdits done p []
  | done, p, c :: rest =>
    if c.change = .keep then mergeEdits (closeEdits done p c.items) {} rest
    else mergeEdits done (p.push c) rest

/-- Merges the runs of edits of a script and drops an empty last chunk. -/
def merge (s : Script α) : Script α :=
  match mergeEdits [] {} s with
  | [] => []
  | last :: rest => if last.items.isEmpty then rest.reverse else (last :: rest).reverse

/-- Slides single edits between two kept chunks over one of them where the items agree. The
result says whether any edit was moved. `prev` is the chunk before the list. -/
def slide : (prev : Chunk α) → Script α → Script α × Bool
  | prev, [] => ([prev], false)
  | prev, [cur] => ([prev, cur], false)
  | prev, cur :: next :: rest =>
    if prev.change = .keep && next.change = .keep then
      if prev.items.isSuffixOf cur.items then
        let moved := prev.items ++ cur.items.take (cur.items.length - prev.items.length)
        let (tail, _) := slide ⟨.keep, prev.items ++ next.items⟩ rest
        (⟨cur.change, moved⟩ :: tail, true)
      else if next.items.isPrefixOf cur.items then
        let moved := cur.items.drop next.items.length ++ next.items
        let (tail, _) := slide ⟨cur.change, moved⟩ rest
        (⟨.keep, prev.items ++ next.items⟩ :: tail, true)
      else
        let (tail, changed) := slide cur (next :: rest)
        (prev :: tail, changed)
    else
      let (tail, changed) := slide cur (next :: rest)
      (prev :: tail, changed)
termination_by _ s => s.length

/-- Merging and sliding until nothing moves any more, at most `fuel` times. -/
def tidyLoop : (fuel : Nat) → Script α → Script α
  | 0, s => s
  | fuel + 1, s =>
    match merge s with
    | [] => []
    | first :: rest =>
      let (slid, changed) := slide first rest
      if changed then tidyLoop fuel slid else slid

/-- A bound on the number of sweeps: a sweep that moves an edit removes a kept chunk, and merging
adds one only when items leave the edits. -/
def sweeps (s : Script α) : Nat :=
  let items := (s.map (·.items.length)).foldr (· + ·) 0
  (items + 1) * (s.length + items + 2)

/-- A script with merged runs of edits and single edits slid towards the end where possible. -/
def tidy (s : Script α) : Script α := tidyLoop s.sweeps s

/-! ### Half matches -/

/-- A common run: what precedes and follows it in either sequence, and the run. -/
structure HalfMatch (α : Type) where
  leftBefore : List α
  leftAfter : List α
  rightBefore : List α
  rightAfter : List α
  shared : List α

/-- The same common run with the two sequences exchanged. -/
def HalfMatch.swap (h : HalfMatch α) : HalfMatch α :=
  ⟨h.rightBefore, h.rightAfter, h.leftBefore, h.leftAfter, h.shared⟩

/-- The longest common run that contains a quarter of `long`, seeded at position `i`, if it makes up
at least half of `long`. -/
def seededMatch? (long short : List α) (i : Nat) : Option (HalfMatch α) :=
  let seed := (long.drop i).take (long.length / 4)
  let best := (occurrences seed 0 short).foldl
    (fun best j =>
      let after := commonStart (long.drop i) (short.drop j)
      let before := commonEnd (long.take i) (short.take j)
      match best with
      | some (_, b, a) => if b + a < before + after then some (j, before, after) else best
      | none => if 0 < before + after then some (j, before, after) else none)
    none
  match best with
  | none => none
  | some (j, before, after) =>
    if (before + after) * 2 < long.length then none
    else some {
      leftBefore := long.take (i - before)
      leftAfter := long.drop (i + after)
      rightBefore := short.take (j - before)
      rightAfter := short.drop (j + after)
      shared := (short.drop (j - before)).take (before + after) }

/-- A common run of at least half the longer sequence, seeded at its second or third quarter. -/
def halfMatch? (a b : List α) : Option (HalfMatch α) :=
  let long := if b.length < a.length then a else b
  let short := if b.length < a.length then b else a
  if long.length < 4 || short.length * 2 < long.length then none
  else
    let first := seededMatch? long short ((long.length + 3) / 4)
    let second := seededMatch? long short ((long.length + 1) / 2)
    let best := match first, second with
      | some f, some s => if s.shared.length < f.shared.length then some f else some s
      | some f, none => some f
      | none, s => s
    if b.length < a.length then best else best.map HalfMatch.swap

/-! ### Shortest paths -/

/-- The furthest reaching points of the paths of one direction, by diagonal. Diagonals that ran off
the grid are trimmed from either end. -/
structure Front where
  reach : Array Int
  low : Int := 0
  high : Int := 0

/-- The point reached on a diagonal, given by its index, or `-1`. -/
def Front.at (f : Front) (i : Int) : Int :=
  if i < 0 then -1 else f.reach.getD i.toNat (-1)

/-- How many items agree from positions `x` and `y` on. -/
def runLength (a b : Array α) : (fuel : Nat) → Nat → Nat → Nat
  | 0, _, _ => 0
  | fuel + 1, x, y =>
    match a[x]?, b[y]? with
    | some p, some q => if p == q then runLength a b fuel (x + 1) (y + 1) + 1 else 0
    | _, _ => 0

/-- The edit graph of two sequences: the items in the order in which a front walks them. -/
structure Grid (α : Type) where
  rows : Array α
  cols : Array α
  /-- The index of diagonal zero. -/
  offset : Int
  /-- The number of diagonals. -/
  size : Int

/-- The point that a front reaches on diagonal `k` in round `d`. -/
def Grid.advance (g : Grid α) (f : Front) (d k : Int) : Int × Int :=
  let i := g.offset + k
  let x := if k == -d || (k != d && f.at (i - 1) < f.at (i + 1)) then f.at (i + 1)
    else f.at (i - 1) + 1
  let y := x - k
  let n : Int := if x < 0 || y < 0 then 0
    else runLength g.rows g.cols (g.rows.size + 1) x.toNat y.toNat
  (x + n, y + n)

/-- One round of a front over its diagonals from `k` on. `meets` looks for an overlap with the
opposite front at a point of a diagonal; the round ends at the first overlap. -/
def Grid.round (g : Grid α) (meets : (k x y : Int) → Option (Nat × Nat)) (d : Int) :
    (fuel : Nat) → (k : Int) → Front → Front × Option (Nat × Nat)
  | 0, _, f => (f, none)
  | fuel + 1, k, f =>
    if d - f.high < k then (f, none)
    else
      let (x, y) := g.advance f d k
      let f := { f with reach := f.reach.setIfInBounds (g.offset + k).toNat x }
      if (g.rows.size : Int) < x then
        g.round meets d fuel (k + 2) { f with high := f.high + 2 }
      else if (g.cols.size : Int) < y then
        g.round meets d fuel (k + 2) { f with low := f.low + 2 }
      else match meets k x y with
        | some p => (f, some p)
        | none => g.round meets d fuel (k + 2) f

/-- The overlap of a forward point with the backward front, on grids of odd difference. -/
def meetsBackward (fwd : Grid α) (delta : Int) (back : Front) (k x y : Int) :
    Option (Nat × Nat) :=
  let i := fwd.offset + delta - k
  if delta % 2 != 0 && 0 ≤ i && i < fwd.size && back.at i != -1
      && (fwd.rows.size : Int) - back.at i ≤ x then
    some (x.toNat, y.toNat)
  else none

/-- The overlap of a backward point with the forward front, on grids of even difference. -/
def meetsForward (fwd : Grid α) (delta : Int) (front : Front) (k x _y : Int) :
    Option (Nat × Nat) :=
  let i := fwd.offset + delta - k
  if delta % 2 == 0 && 0 ≤ i && i < fwd.size && front.at i != -1
      && (fwd.rows.size : Int) - x ≤ front.at i then
    some ((front.at i).toNat, (fwd.offset + front.at i - i).toNat)
  else none

/-- Rounds of both fronts until they overlap. -/
def meetingLoop (fwd back : Grid α) (delta : Int) :
    (rounds : Nat) → (d : Nat) → Front → Front → Option (Nat × Nat)
  | 0, _, _, _ => none
  | rounds + 1, d, f, b =>
    match fwd.round (meetsBackward fwd delta b) d (d + 1) (-(d : Int) + f.low) f with
    | (_, some p) => some p
    | (f, none) =>
      match back.round (meetsForward fwd delta f) d (d + 1) (-(d : Int) + b.low) b with
      | (_, some p) => some p
      | (b, none) => meetingLoop fwd back delta rounds (d + 1) f b

/-- Where a shortest path through the edit graph can be cut, as the lengths of the two first
parts. -/
def meetingPoint? (a b : List α) : Option (Nat × Nat) :=
  let maxD := (a.length + b.length + 1) / 2
  let start : Front := ⟨(Array.replicate (2 * maxD) (-1)).setIfInBounds (maxD + 1) 0, 0, 0⟩
  let fwd : Grid α := ⟨a.toArray, b.toArray, maxD, 2 * maxD⟩
  let back : Grid α := ⟨a.reverse.toArray, b.reverse.toArray, maxD, 2 * maxD⟩
  meetingLoop fwd back ((a.length : Int) - b.length) maxD 0 start start

/-! ### The script -/

/-- The script between two sequences. Every cut leaves shorter sequences, so `fuel` may be their
total length. -/
def betweenLoop : (fuel : Nat) → List α → List α → Script α
  | 0, a, b => [⟨.delete, a⟩, ⟨.insert, b⟩]
  | fuel + 1, a, b =>
    if a == b then (if a.isEmpty then [] else [⟨.keep, a⟩])
    else
      let n := commonStart a b
      let start := a.take n
      let a := a.drop n
      let b := b.drop n
      let m := commonEnd a b
      let finish := a.drop (a.length - m)
      let a := a.take (a.length - m)
      let b := b.take (b.length - m)
      let middle : Script α :=
        if a.isEmpty then [⟨.insert, b⟩]
        else if b.isEmpty then [⟨.delete, a⟩]
        else
          let long := if b.length < a.length then a else b
          let short := if b.length < a.length then b else a
          match indexOf? short long with
          | some i =>
            let change := if b.length < a.length then Change.delete else .insert
            [⟨change, long.take i⟩, ⟨.keep, short⟩, ⟨change, long.drop (i + short.length)⟩]
          | none =>
            if short.length = 1 then [⟨.delete, a⟩, ⟨.insert, b⟩]
            else match halfMatch? a b with
              | some h =>
                betweenLoop fuel h.leftBefore h.rightBefore ++ [⟨.keep, h.shared⟩]
                  ++ betweenLoop fuel h.leftAfter h.rightAfter
              | none =>
                match meetingPoint? a b with
                | some (x, y) =>
                  betweenLoop fuel (a.take x) (b.take y) ++ betweenLoop fuel (a.drop x) (b.drop y)
                | none => [⟨.delete, a⟩, ⟨.insert, b⟩]
      tidy ((if start.isEmpty then [] else [⟨.keep, start⟩]) ++ middle
        ++ (if finish.isEmpty then [] else [⟨.keep, finish⟩]))

/-- A short script that turns `a` into `b`. -/
def between (a b : List α) : Script α := betweenLoop (a.length + b.length + 1) a b

end Script

end Lossless.Edit
