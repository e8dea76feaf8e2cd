import Lossless.Decimal.Reading
import Lossless.Node.Make
import Lossless.Parse.Malformed

/-!
# Parse — building trees from parser output

A parser describes a tree by a JSON value: `missing`, a `list` with its elements, a `token` with its
body, or a composite kind with a value for every slot.  The tree is built along the source text:
each text or width claims the bytes at an offset, and what follows starts behind them.  The first
child of a node starts where the node does, and every other one where the width of the child in
front of it ends.

Texts are slices of the source.  A slice outside of it would be a `Stop` of its own; no value makes
the construction ask for one (`nodeOf_inside`), so a tree is built or the input is malformed.
-/

namespace Lossless.Parse

/-- What is fixed while a tree is built. -/
structure Context where
  catalog : Catalog
  file : String
  source : Text

/-- Why building stops: the input is malformed, or a slice was asked for that the source does not
have. -/
inductive Stop where
  | malformed (e : Malformed)
  | outside (start stop : Nat)
  deriving DecidableEq, Repr

/-- Computations that build part of a tree. -/
abbrev Builder := Make Stop

/-- Fails at a path and an offset, while a node of a kind is built. -/
def fail {α : Type} (ctx : Context) (path : ValuePath) (kind : String) (offset : Nat)
    (reason : MalformedReason) : Builder α := fun _ =>
  .error (.malformed { file := ctx.file, path := path.text, kind, offset, reason })

/-- Builds a node out of parts that are there. An error of it is one of the input. -/
def making {α : Type} (ctx : Context) (path : ValuePath) (kind : String) (offset : Nat)
    (m : Make NodeError α) : Builder α := fun supply =>
  match m supply with
  | .ok r => .ok r
  | .error e => fail ctx path kind offset (.node e) supply

/-- The source from `start` up to `stop`. -/
def sliceOf (ctx : Context) (start stop : Nat) : Builder Text := fun supply =>
  match ctx.source.slice? start stop with
  | some t => .ok (t, supply)
  | none => .error (.outside start stop)

/-- The number of bytes of the source behind an offset. -/
def Context.left (ctx : Context) (offset : Nat) : Int := ctx.source.length - offset

/-! ### Texts -/

/-- The exact integer value of a double, when it has one within 64 bits. -/
def floatInt? (x : Float) : Option Int :=
  match Decimal.Binary.ofFloat x with
  | .finite negative m q _ =>
    let whole : Option Nat :=
      if 0 ≤ q then some (m * Nat.pow 2 q.toNat)
      else if m % Nat.pow 2 (-q).toNat = 0 then some (m / Nat.pow 2 (-q).toNat) else none
    (whole.map fun n => if negative then -(n : Int) else n).filter fun i =>
      Decimal.minInt ≤ i && i ≤ Decimal.maxInt
  | _ => none

/-- The integer that a numeral stands for. Only integer notation counts in a literal. -/
def numeralInt? : Numeral → Option Int
  | .literal t => Decimal.int64? t.toList
  | .float x => floatInt? x
  | .int i => some i

/-- The width under a value, or what stands in its place. -/
def widthOf : Json → Except String Int
  | .number n =>
    match numeralInt? n with
    | some i => .ok i
    | none => .error n.text
  | v => .error v.describe

/-- The text of a token or a piece of trivia: explicit and equal to the source, or given by its
width in bytes. -/
def textOf (ctx : Context) (path : ValuePath) (kind : String) (members : List (String × Json))
    (offset : Nat) : Builder Text :=
  match Json.member? members "text" with
  | some (.str text) =>
    let bytes : Text := text
    if ctx.left offset < bytes.length then fail ctx path kind offset (.textDiffers text)
    else do
      let there ← sliceOf ctx offset (offset + bytes.length)
      if there = bytes then return bytes else fail ctx path kind offset (.textDiffers text)
  | some _ => fail ctx path kind offset .textNotString
  | none =>
    match widthOf ((Json.member? members "width").getD .null) with
    | .error got => fail ctx path kind offset (.noInteger got)
    | .ok w =>
      if w < 0 ∨ ctx.left offset < w then fail ctx path kind offset (.widthOutside w)
      else sliceOf ctx offset (offset + w.toNat)

/-- A piece of trivia. -/
def triviaOf (ctx : Context) (path : ValuePath) (kind : String) (v : Json) (offset : Nat) :
    Builder Trivia :=
  match v with
  | .obj members =>
    let got := (Json.member? members "kind").getD .null
    match got with
    | .str k =>
      if ctx.catalog.isTrivia k then do return ⟨k, ← textOf ctx path kind members offset⟩
      else fail ctx path kind offset (.unknownTrivia got.describe)
    | _ => fail ctx path kind offset (.unknownTrivia got.describe)
  | _ => fail ctx path kind offset (.notTrivia v.describe)

/-- The pieces of trivia of an array, from position `i` on, and the offset behind them. -/
def triviaItems (ctx : Context) (path : ValuePath) (kind : String) :
    (i : Nat) → List Json → (offset : Nat) → Builder (List Trivia × Nat)
  | _, [], offset => pure ([], offset)
  | i, v :: rest, offset => do
    let t ← triviaOf ctx (path ++ [.index i]) kind v offset
    let (ts, stop) ← triviaItems ctx path kind (i + 1) rest (offset + t.text.length)
    return (t :: ts, stop)

/-- The trivia under a key of a token body, and the offset behind them; absent and null mean
none. -/
def triviaList (ctx : Context) (path : ValuePath) (kind : String) (body : List (String × Json))
    (key : String) (offset : Nat) : Builder (List Trivia × Nat) :=
  match (Json.member? body key).getD .null with
  | .null => pure ([], offset)
  | .arr items => triviaItems ctx (path ++ [.key key]) kind 0 items offset
  | v => fail ctx (path ++ [.key key]) kind offset (.notTriviaList v.describe)

/-- A token. -/
def tokenOf (ctx : Context) (path : ValuePath) (members : List (String × Json)) (offset : Nat) :
    Builder Token :=
  match Json.member? members "token" with
  | some (.obj body) =>
    let path := path ++ [.key "token"]
    let got := (Json.member? body "kind").getD .null
    match got with
    | .str kind =>
      if ctx.catalog.isToken kind then do
        let (leading, offset) ← triviaList ctx path kind body "leading" offset
        let text ← textOf ctx path kind body offset
        let (trailing, _) ← triviaList ctx path kind body "trailing" (offset + text.length)
        Token.make kind leading text trailing
      else fail ctx path "token" offset (.unknownToken got.describe)
    | _ => fail ctx path "token" offset (.unknownToken got.describe)
  | _ => fail ctx path "token" offset .noToken

/-! ### Nodes -/

/-- The list of nodes that were built, up to an offset. -/
def listOf (ctx : Context) (path : ValuePath) (offset : Nat) (items : List Node) :
    Builder Node := do
  return (← making ctx path "list" offset (NodeList.make (items.map some))).toNode

/-- The composite of a kind with nodes that were built, up to an offset. -/
def compositeOf (ctx : Context) (path : ValuePath) (k : Kind) (offset : Nat)
    (children : List Node) : Builder Node := do
  return (← making ctx path k.name offset (Composite.make (some k) (children.map some))).toNode

mutual
/-- The node that a value describes, whose text starts at an offset. -/
def nodeOf (ctx : Context) (path : ValuePath) (v : Json) (offset : Nat) : Builder Node :=
  match v with
  | .obj members =>
    match Json.member? members "kind" with
    | some (.str kind) =>
      if kind = "missing" then pure .missing
      else if kind = "token" then do return .token (← tokenOf ctx path members offset)
      else if kind = "list" then
        match h : Json.member? members "elements" with
        | some (.arr items) => do
          have := Json.sizeOf_items h
          let nodes ← elementsOf ctx (path ++ [.key "elements"]) 0 items offset
          listOf ctx path (offset + Node.totalWidth nodes) nodes
        | _ => fail ctx path "list" offset .noElements
      else match ctx.catalog.kind? kind with
        | none => fail ctx path kind offset .unknownKind
        | some k => do
          let nodes ← slotsOf ctx path k.name members k.slots offset
          compositeOf ctx path k (offset + Node.totalWidth nodes) nodes
    | _ => fail ctx path "" offset .noKind
  | v => fail ctx path "" offset (.notObject v.describe)
termination_by (sizeOf v, 0)

/-- The children of a composite, slot by slot. -/
def slotsOf (ctx : Context) (path : ValuePath) (kind : String) (members : List (String × Json))
    (slots : List Slot) (offset : Nat) : Builder (List Node) :=
  match slots with
  | [] => pure []
  | s :: rest =>
    match h : Json.member? members s.key with
    | none => fail ctx path kind offset (.missingKey s.key)
    | some v => do
      have := Json.sizeOf_member? h
      let n ← nodeOf ctx (path ++ [.key s.key]) v offset
      return n :: (← slotsOf ctx path kind members rest (offset + n.width))
termination_by (sizeOf members, slots.length)

/-- The items of a list, from position `i` on. -/
def elementsOf (ctx : Context) (path : ValuePath) (i : Nat) (items : List Json) (offset : Nat) :
    Builder (List Node) :=
  match items with
  | [] => pure []
  | v :: rest => do
    let n ← nodeOf ctx (path ++ [.index i]) v offset
    return n :: (← elementsOf ctx path (i + 1) rest (offset + n.width))
termination_by (sizeOf items, 0)
end

/-! ### No slice is outside the source -/

/-- A computation that never asks for a slice outside the source. -/
def Builder.Inside {α : Type} (m : Builder α) : Prop :=
  ∀ supply start stop, m supply ≠ .error (.outside start stop)

namespace Builder.Inside

variable {α β : Type}

theorem pure (a : α) : Inside (Pure.pure a : Builder α) := fun _ _ _ h => nomatch h

theorem fail {ctx : Context} {path : ValuePath} {kind : String} {offset : Nat}
    {reason : MalformedReason} : Inside (Parse.fail ctx path kind offset reason : Builder α) :=
  fun _ _ _ h => nomatch h

theorem bind {m : Builder α} {f : α → Builder β} (hm : Inside m) (hf : ∀ a, Inside (f a)) :
    Inside (m >>= f) := by
  intro supply start stop h
  rcases Make.bind_eq_error.mp h with h | ⟨a, s, -, h⟩
  · exact hm _ _ _ h
  · exact hf a _ _ _ h

theorem making {ctx : Context} {path : ValuePath} {kind : String} {offset : Nat}
    {m : Make NodeError α} : Inside (Parse.making ctx path kind offset m) := by
  intro supply start stop h
  unfold Parse.making at h
  split at h
  · cases h
  · exact fail _ _ _ h

/-- A slice from an offset is inside when it is no longer than what is left. -/
theorem sliceOf {ctx : Context} {offset n : Nat} (h : (n : Int) ≤ ctx.left offset) :
    Inside (Parse.sliceOf ctx offset (offset + n)) := by
  intro supply start stop hs
  have hn : offset ≤ offset + n ∧ offset + n ≤ ctx.source.length := by
    unfold Context.left at h
    omega
  simp [Parse.sliceOf, Text.slice?, hn] at hs

end Builder.Inside

open Builder (Inside)

theorem textOf_inside (ctx : Context) (path : ValuePath) (kind : String)
    (members : List (String × Json)) (offset : Nat) :
    Inside (textOf ctx path kind members offset) := by
  unfold textOf
  split
  · dsimp only
    split
    · exact .fail
    · next h =>
      refine .bind (.sliceOf (by omega)) fun there => ?_
      split
      · exact .pure _
      · exact .fail
  · exact .fail
  · split
    · exact .fail
    · split
      · exact .fail
      · exact .sliceOf (by omega)

theorem triviaOf_inside (ctx : Context) (path : ValuePath) (kind : String) (v : Json)
    (offset : Nat) : Inside (triviaOf ctx path kind v offset) := by
  unfold triviaOf
  split
  · dsimp only
    split
    · split
      · exact .bind (textOf_inside _ _ _ _ _) fun _ => .pure _
      · exact .fail
    · exact .fail
  · exact .fail

theorem triviaItems_inside (ctx : Context) (path : ValuePath) (kind : String) :
    ∀ (i : Nat) (items : List Json) (offset : Nat),
      Inside (triviaItems ctx path kind i items offset)
  | _, [], _ => .pure _
  | _, _ :: rest, _ => .bind (triviaOf_inside _ _ _ _ _) fun _ =>
    .bind (triviaItems_inside ctx path kind _ rest _) fun _ => .pure _

theorem triviaList_inside (ctx : Context) (path : ValuePath) (kind : String)
    (body : List (String × Json)) (key : String) (offset : Nat) :
    Inside (triviaList ctx path kind body key offset) := by
  unfold triviaList
  split
  · exact .pure _
  · exact triviaItems_inside _ _ _ _ _ _
  · exact .fail

theorem tokenOf_inside (ctx : Context) (path : ValuePath) (members : List (String × Json))
    (offset : Nat) : Inside (tokenOf ctx path members offset) := by
  unfold tokenOf
  split
  · dsimp only
    split
    · split
      · exact .bind (triviaList_inside _ _ _ _ _ _) fun _ => .bind (textOf_inside _ _ _ _ _) fun _ =>
          .bind (triviaList_inside _ _ _ _ _ _) fun _ _ _ _ h => nomatch h
      · exact .fail
    · exact .fail
  · exact .fail

mutual
/-- Whatever a value is, no slice outside the source is asked for while its node is built. -/
theorem nodeOf_inside (ctx : Context) (path : ValuePath) :
    ∀ (v : Json) (offset : Nat), Inside (nodeOf ctx path v offset)
  | .obj members, offset => by
    unfold nodeOf
    split
    · split
      · exact .pure _
      · split
        · exact .bind (tokenOf_inside _ _ _ _) fun _ => .pure _
        · split
          · split
            · next items h =>
              have := Json.sizeOf_items h
              exact .bind (elementsOf_inside ctx _ 0 items offset) fun _ =>
                .bind .making fun _ => .pure _
            · exact .fail
          · split
            · exact .fail
            · exact .bind (slotsOf_inside _ _ _ _ _ _) fun _ => .bind .making fun _ => .pure _
    · exact .fail
  | .null, _ | .bool _, _ | .number _, _ | .str _, _ | .arr _, _ => by
    unfold nodeOf
    exact .fail
termination_by v => (sizeOf v, 0)

theorem slotsOf_inside (ctx : Context) (path : ValuePath) (kind : String)
    (members : List (String × Json)) (slots : List Slot) (offset : Nat) :
    Inside (slotsOf ctx path kind members slots offset) := by
  unfold slotsOf
  split
  · exact .pure _
  · next s rest =>
    split
    · exact .fail
    · next v h =>
      have := Json.sizeOf_member? h
      exact .bind (nodeOf_inside ctx _ v offset) fun _ =>
        .bind (slotsOf_inside ctx path kind members rest _) fun _ => .pure _
termination_by (sizeOf members, slots.length)

theorem elementsOf_inside (ctx : Context) (path : ValuePath) (i : Nat) (items : List Json)
    (offset : Nat) : Inside (elementsOf ctx path i items offset) := by
  unfold elementsOf
  split
  · exact .pure _
  · next v rest =>
    exact .bind (nodeOf_inside ctx _ v offset) fun _ =>
      .bind (elementsOf_inside ctx path (i + 1) rest _) fun _ => .pure _
termination_by (sizeOf items, 0)
end

/-! ### Trees -/

/-- The result of a computation that never asks for a slice outside the source. -/
def Builder.finish {α : Type} (m : Builder α) (h : m.Inside) : Make Malformed α := fun supply =>
  match hm : m supply with
  | .ok r => .ok r
  | .error (.malformed e) => .error e
  | .error (.outside start stop) => absurd hm (h supply start stop)

/-- The tree that a value describes, whose text starts at `offset` in the source. -/
def fromJson (c : Catalog) (v : Json) (file : String) (offset : Int) (source : Text) :
    Make Malformed Node :=
  if offset < 0 ∨ (source.length : Int) < offset then
    throw { file, path := "$", offset, reason := .startOutside source.length }
  else Builder.finish (nodeOf ⟨c, file, source⟩ [] v offset.toNat) (nodeOf_inside _ _ _ _)

/-- The tree that a value describes, which has to cover the whole source. -/
def fromDecoded (c : Catalog) (v : Json) (source : Text) (file : String) : Make Malformed Node := do
  let root ← fromJson c v file 0 source
  if root.width = source.length then return root
  else throw { file, path := "$", kind := root.kind, offset := root.width,
               reason := .uncovered root.width source.length }

end Lossless.Parse
