import Lossless.Proofs.Parse.Acceptance

/-!
# Parse — where parser output deviates

A value that cannot be built deviates from the grammar, or its texts deviate from the source.  Reading
in document order, there is a first place where it does, and this place is what an error tells.

`Deviates c source o v d` says that `d` is the first deviation of `v` when its text should start at
`o`: what is passed on the way to `d` describes nodes, trivia and texts, and these texts are read one
behind the other from `o` on (`Deviation.before`).  Each relation follows the one of the grammar that
describes the same thing: `TextDeviates` beside `TextSpec.Given`, `PieceDeviates` beside
`DescribesTrivia`, and so on, up to `Deviates` beside `Describes`.

Every deviation is **placed** (`Deviates.placed`): its path leads to a part of the value, the texts in
front of it stand in the source from `o` on, and no operation that makes a node out of its parts is to
blame.
-/

namespace Lossless

/-! ### Parts of values -/

namespace Json

/-- The part of a value that a step leads to. -/
def part? : Json → PathStep → Option Json
  | .obj members, .key k => member? members k
  | .arr items, .index i => items[i]?
  | _, _ => none

/-- The part of a value that a path leads to. -/
def at? (v : Json) : ValuePath → Option Json
  | [] => some v
  | step :: p => (v.part? step).bind (at? · p)

theorem at?_cons {v w : Json} {step : PathStep} (h : v.part? step = some w) (p : ValuePath) :
    v.at? (step :: p) = w.at? p := by
  rw [at?, h, Option.bind_some]

end Json

instance {t u : Text} {o : Nat} : Decidable (t.At o u) :=
  inferInstanceAs (Decidable (t.slice? o (o + u.length) = some u))

namespace Parse

/-! ### Deviations -/

/-- A deviation: the path to it, the texts in front of it, and what is said about it. -/
structure Deviation where
  path : ValuePath
  before : List Text
  kind : String
  reason : MalformedReason

namespace Deviation

/-- A deviation at the root of a value, with texts of the value in front of it. -/
def here (before : List Text) (kind : String) (reason : MalformedReason) : Deviation :=
  ⟨[], before, kind, reason⟩

/-- A deviation of a part as one of the whole: behind the steps to the part and the texts in front of
it. -/
def under (steps : ValuePath) (texts : List Text) (d : Deviation) : Deviation :=
  { d with path := steps ++ d.path, before := texts ++ d.before }

/-- The number of bytes in front of a deviation. -/
def distance (d : Deviation) : Nat := d.before.flatten.length

/-- The error about a deviation of what stands at a path, and whose text should start at `o`. -/
def error (file : String) (path : ValuePath) (o : Nat) (d : Deviation) : Malformed where
  file := file
  path := (path ++ d.path).text
  kind := d.kind
  offset := (o + d.distance : Nat)
  reason := d.reason

/-- An error about a part is one about the whole. -/
theorem error_under (file : String) (path steps : ValuePath) (o : Nat) (texts : List Text)
    (d : Deviation) : (d.under steps texts).error file path o =
      d.error file (path ++ steps) (o + texts.flatten.length) := by
  simp only [error, under, distance, List.flatten_append, List.length_append, List.append_assoc,
    Nat.add_assoc]

end Deviation

open Deviation (here)

variable {c : Catalog} {source : Text} {o : Nat} {d : Deviation}

/-- The members of an object give no text that stands at `o`. -/
inductive TextDeviates (source : Text) (o : Nat) (members : List (String × Json)) :
    MalformedReason → Prop where
  | notString {v : Json} (hv : Json.member? members "text" = some v) (h : ∀ t, v ≠ .str t) :
      TextDeviates source o members .textNotString
  | differs {t : String} (ht : Json.member? members "text" = some (.str t))
      (h : ¬source.At o (Text.ofString t)) : TextDeviates source o members (.textDiffers t)
  | noInteger {got : String} (ht : Json.member? members "text" = none)
      (h : widthOf ((Json.member? members "width").getD .null) = .error got) :
      TextDeviates source o members (.noInteger got)
  | outside {x : Numeral} {w : Int} (ht : Json.member? members "text" = none)
      (hw : Json.member? members "width" = some (.number x)) (hx : numeralInt? x = some w)
      (h : w < 0 ∨ (source.length : Int) - o < w) :
      TextDeviates source o members (.widthOutside w)

/-- A value is no piece of trivia whose text stands at `o`. -/
inductive PieceDeviates (c : Catalog) (source : Text) (o : Nat) : Json → MalformedReason → Prop where
  | notObject {v : Json} (h : ∀ members, v ≠ .obj members) :
      PieceDeviates c source o v (.notTrivia v.describe)
  | unknownKind {members : List (String × Json)}
      (h : ∀ k, Json.member? members "kind" = some (.str k) → c.isTrivia k = false) :
      PieceDeviates c source o (.obj members)
        (.unknownTrivia ((Json.member? members "kind").getD .null).describe)
  | text {members : List (String × Json)} {k : String} {reason : MalformedReason}
      (hkind : Json.member? members "kind" = some (.str k)) (hk : c.isTrivia k = true)
      (h : TextDeviates source o members reason) : PieceDeviates c source o (.obj members) reason

/-- The first deviation of pieces of trivia of a token, from position `i` on. -/
inductive PiecesDeviate (c : Catalog) (source : Text) (kind : String) :
    (o i : Nat) → List Json → Deviation → Prop where
  | head {o i : Nat} {v : Json} {vs : List Json} {reason : MalformedReason}
      (h : PieceDeviates c source o v reason) :
      PiecesDeviate c source kind o i (v :: vs) ((here [] kind reason).under [.index i] [])
  | tail {o i : Nat} {v : Json} {vs : List Json} {k : String} {spec : TextSpec} {t : Text}
      {d : Deviation} (hv : DescribesTrivia c v (k, spec)) (hspec : spec.Allows t)
      (hat : source.At o t) (h : PiecesDeviate c source kind (o + t.length) (i + 1) vs d) :
      PiecesDeviate c source kind o i (v :: vs) (d.under [] [t])

/-- The first deviation of the trivia of a token under a key. -/
inductive TriviaDeviates (c : Catalog) (source : Text) (kind : String) (o : Nat)
    (body : List (String × Json)) (key : String) : Deviation → Prop where
  | notList {v : Json} (hv : Json.member? body key = some v) (hnull : v ≠ .null)
      (h : ∀ items, v ≠ .arr items) :
      TriviaDeviates c source kind o body key
        ((here [] kind (.notTriviaList v.describe)).under [.key key] [])
  | pieces {items : List Json} {d : Deviation} (hv : Json.member? body key = some (.arr items))
      (h : PiecesDeviate c source kind o 0 items d) :
      TriviaDeviates c source kind o body key (d.under [.key key] [])

/-- The first deviation of the body of a token of a kind: in its leading trivia, in its text behind
them, or in its trailing trivia. -/
inductive BodyDeviates (c : Catalog) (source : Text) (kind : String) (o : Nat)
    (body : List (String × Json)) : Deviation → Prop where
  | leading {d : Deviation} (h : TriviaDeviates c source kind o body "leading" d) :
      BodyDeviates c source kind o body d
  | text {leading : List (String × TextSpec)} {texts : List Text} {reason : MalformedReason}
      (hleading : DescribesTriviaAt c body "leading" leading)
      (hreads : Reads source o (leading.map (·.2)) texts)
      (h : TextDeviates source (o + texts.flatten.length) body reason) :
      BodyDeviates c source kind o body (here texts kind reason)
  | trailing {leading : List (String × TextSpec)} {spec : TextSpec} {texts : List Text}
      {d : Deviation} (hleading : DescribesTriviaAt c body "leading" leading)
      (hspec : TextSpec.Given body spec)
      (hreads : Reads source o (leading.map (·.2) ++ [spec]) texts)
      (h : TriviaDeviates c source kind (o + texts.flatten.length) body "trailing" d) :
      BodyDeviates c source kind o body (d.under [] texts)

/-- The first deviation of the members that describe a token. -/
inductive TokenDeviates (c : Catalog) (source : Text) (o : Nat) (members : List (String × Json)) :
    Deviation → Prop where
  | noToken (h : ∀ body, Json.member? members "token" ≠ some (.obj body)) :
      TokenDeviates c source o members (here [] "token" .noToken)
  | unknownKind {body : List (String × Json)}
      (hbody : Json.member? members "token" = some (.obj body))
      (h : ∀ k, Json.member? body "kind" = some (.str k) → c.isToken k = false) :
      TokenDeviates c source o members
        ((here [] "token" (.unknownToken ((Json.member? body "kind").getD .null).describe)).under
          [.key "token"] [])
  | body {body : List (String × Json)} {kind : String} {d : Deviation}
      (hbody : Json.member? members "token" = some (.obj body))
      (hkind : Json.member? body "kind" = some (.str kind)) (hk : c.isToken kind = true)
      (h : BodyDeviates c source kind o body d) :
      TokenDeviates c source o members (d.under [.key "token"] [])

mutual
/-- The first deviation of a value whose text should start at `o`. -/
inductive Deviates (c : Catalog) (source : Text) : (o : Nat) → Json → Deviation → Prop where
  | misshapen {o : Nat} {v : Json} {kind : String} {reason : MalformedReason}
      (h : Misshapen c v kind reason) : Deviates c source o v (here [] kind reason)
  | token {o : Nat} {members : List (String × Json)} {d : Deviation}
      (hkind : Json.member? members "kind" = some (.str "token"))
      (h : TokenDeviates c source o members d) : Deviates c source o (.obj members) d
  | element {o : Nat} {members : List (String × Json)} {items : List Json} {d : Deviation}
      (hkind : Json.member? members "kind" = some (.str "list"))
      (hitems : Json.member? members "elements" = some (.arr items))
      (h : ElementsDeviate c source o 0 items d) :
      Deviates c source o (.obj members) (d.under [.key "elements"] [])
  | slot {o : Nat} {members : List (String × Json)} {name : String} {k : Kind} {d : Deviation}
      (hkind : Json.member? members "kind" = some (.str name)) (hname : name ∉ reservedKinds)
      (hk : c.kind? name = some k) (h : SlotsDeviate c source k.name members o k.slots d) :
      Deviates c source o (.obj members) d

/-- The first deviation of the elements of a list, from position `i` on: the elements in front of it
describe nodes whose texts are read. -/
inductive ElementsDeviate (c : Catalog) (source : Text) :
    (o i : Nat) → List Json → Deviation → Prop where
  | head {o i : Nat} {v : Json} {vs : List Json} {d : Deviation} (h : Deviates c source o v d) :
      ElementsDeviate c source o i (v :: vs) (d.under [.index i] [])
  | tail {o i : Nat} {v : Json} {vs : List Json} {n : Description TextSpec} {texts : List Text}
      {d : Deviation} (hv : Describes c v n) (hreads : Reads source o n.leaves texts)
      (h : ElementsDeviate c source (o + texts.flatten.length) (i + 1) vs d) :
      ElementsDeviate c source o i (v :: vs) (d.under [] texts)

/-- The first deviation of what the members of a composite have under the keys of slots: the slots in
front of it hold nodes whose texts are read. -/
inductive SlotsDeviate (c : Catalog) (source : Text) :
    (kind : String) → List (String × Json) → (o : Nat) → List Slot → Deviation → Prop where
  | absent {kind : String} {members : List (String × Json)} {o : Nat} {s : Slot} {slots : List Slot}
      (hv : Json.member? members s.key = none) :
      SlotsDeviate c source kind members o (s :: slots) (here [] kind (.missingKey s.key))
  | head {kind : String} {members : List (String × Json)} {o : Nat} {s : Slot} {slots : List Slot}
      {v : Json} {d : Deviation} (hv : Json.member? members s.key = some v)
      (h : Deviates c source o v d) :
      SlotsDeviate c source kind members o (s :: slots) (d.under [.key s.key] [])
  | tail {kind : String} {members : List (String × Json)} {o : Nat} {s : Slot} {slots : List Slot}
      {v : Json} {n : Description TextSpec} {texts : List Text} {d : Deviation}
      (hv : Json.member? members s.key = some v) (hn : Describes c v n)
      (hreads : Reads source o n.leaves texts)
      (h : SlotsDeviate c source kind members (o + texts.flatten.length) slots d) :
      SlotsDeviate c source kind members o (s :: slots) (d.under [] texts)
end

/-! ### What every deviation has -/

/-- A deviation of `v` that could be one: its path leads to a part of `v`, the texts in front of it
stand in the source, and no making of a node is to blame. -/
structure Deviation.Placed (source : Text) (o : Nat) (v : Json) (d : Deviation) : Prop where
  leads : (v.at? d.path).isSome
  stands : source.At o d.before.flatten
  reason_ne_node : ∀ e, d.reason ≠ .node e

/-- A deviation of one of the values that stand at the positions from `i` on. -/
def Deviation.PlacedAmong (source : Text) (o i : Nat) (vs : List Json) (d : Deviation) : Prop :=
  ∃ j v p, d.path = .index (i + j) :: p ∧ vs[j]? = some v ∧
    Deviation.Placed source o v { d with path := p }

namespace Deviation

variable {v w : Json} {vs : List Json} {i : Nat} {texts : List Text} {kind : String}
  {reason : MalformedReason}

theorem Placed.here (hat : source.At o texts.flatten) (hreason : ∀ e, reason ≠ .node e) :
    (here texts kind reason).Placed source o v := ⟨rfl, hat, hreason⟩

/-- A deviation with nothing in front of it. -/
theorem Placed.first (ho : o ≤ source.length) (hreason : ∀ e, reason ≠ .node e) :
    (Deviation.here [] kind reason).Placed source o v := .here (Text.at_nil.mpr ho) hreason

/-- A deviation behind texts of the same value. -/
theorem Placed.behind (h : d.Placed source (o + texts.flatten.length) v)
    (hat : source.At o texts.flatten) : (d.under [] texts).Placed source o v where
  leads := h.leads
  stands := by
    rw [under, List.flatten_append]
    exact Text.at_append.mpr ⟨hat, h.stands⟩
  reason_ne_node := h.reason_ne_node

/-- A deviation of a part is one of the whole. -/
theorem Placed.under {step : PathStep} (h : d.Placed source o w) (hpart : v.part? step = some w) :
    (d.under [step] []).Placed source o v where
  leads := by
    show (v.at? (step :: d.path)).isSome
    rw [Json.at?_cons hpart]
    exact h.leads
  stands := h.stands
  reason_ne_node := h.reason_ne_node

theorem Placed.member {members : List (String × Json)} {key : String} (h : d.Placed source o w)
    (hw : Json.member? members key = some w) :
    (d.under [.key key] []).Placed source o (.obj members) := h.under hw

theorem Placed.head (h : d.Placed source o v) :
    (d.under [.index i] []).PlacedAmong source o i (v :: vs) := ⟨0, v, d.path, rfl, rfl, h⟩

theorem PlacedAmong.tail (h : d.PlacedAmong source (o + texts.flatten.length) (i + 1) vs)
    (hat : source.At o texts.flatten) : (d.under [] texts).PlacedAmong source o i (v :: vs) := by
  obtain ⟨j, w, p, hpath, hw, hplaced⟩ := h
  refine ⟨j + 1, w, p, ?_, hw, hplaced.behind hat⟩
  rw [Deviation.under, List.nil_append, hpath, Nat.add_assoc, Nat.add_comm 1]

theorem PlacedAmong.array (h : d.PlacedAmong source o 0 vs) : d.Placed source o (.arr vs) := by
  obtain ⟨j, v, p, hpath, hv, hplaced⟩ := h
  rw [Nat.zero_add] at hpath
  refine ⟨?_, hplaced.stands, hplaced.reason_ne_node⟩
  have hpart : (Json.arr vs).part? (.index j) = some v := hv
  rw [hpath, Json.at?_cons hpart]
  exact hplaced.leads

end Deviation

/-- What is passed moves the place on, inside the source. -/
theorem Reads.within {specs : List TextSpec} {texts : List Text} (ho : o ≤ source.length)
    (h : Reads source o specs texts) :
    source.At o texts.flatten ∧ o + texts.flatten.length ≤ source.length :=
  ⟨h.at_flatten ho, (Text.at_iff.mp (h.at_flatten ho)).1⟩

theorem TextDeviates.reason_ne_node {members : List (String × Json)} {reason : MalformedReason}
    (h : TextDeviates source o members reason) (e : NodeError) : reason ≠ .node e := by
  cases h <;> exact nofun

theorem PieceDeviates.placed {v : Json} {kind : String} {reason : MalformedReason}
    (h : PieceDeviates c source o v reason) (ho : o ≤ source.length) :
    (here [] kind reason).Placed source o v := by
  refine .first ho fun e => ?_
  cases h with
  | notObject _ | unknownKind _ => exact nofun
  | text _ _ h => exact h.reason_ne_node e

theorem PiecesDeviate.placed {kind : String} {i : Nat} {vs : List Json}
    (h : PiecesDeviate c source kind o i vs d) (ho : o ≤ source.length) :
    d.PlacedAmong source o i vs := by
  induction h with
  | head h => exact (h.placed ho).head
  | @tail o i v vs k spec t d _ _ hat _ ih =>
      have ht : [t].flatten = t := List.flatten_singleton
      have hrest : d.PlacedAmong source (o + [t].flatten.length) (i + 1) vs := by
        rw [ht]
        exact ih (Text.at_iff.mp hat).1
      exact hrest.tail (by rwa [ht])

theorem TriviaDeviates.placed {kind key : String} {body : List (String × Json)}
    (h : TriviaDeviates c source kind o body key d) (ho : o ≤ source.length) :
    d.Placed source o (.obj body) := by
  cases h with
  | notList hv _ _ => exact .member (.first ho fun _ => nofun) hv
  | pieces hv h => exact (h.placed ho).array.member hv

theorem BodyDeviates.placed {kind : String} {body : List (String × Json)}
    (h : BodyDeviates c source kind o body d) (ho : o ≤ source.length) :
    d.Placed source o (.obj body) := by
  cases h with
  | leading h => exact h.placed ho
  | text _ hreads h => exact .here (hreads.at_flatten ho) h.reason_ne_node
  | trailing _ _ hreads h =>
      obtain ⟨hat, hle⟩ := hreads.within ho
      exact (h.placed hle).behind hat

theorem TokenDeviates.placed {members : List (String × Json)}
    (h : TokenDeviates c source o members d) (ho : o ≤ source.length) :
    d.Placed source o (.obj members) := by
  cases h with
  | noToken _ => exact .first ho fun _ => nofun
  | unknownKind hbody _ => exact .member (.first ho fun _ => nofun) hbody
  | body hbody _ _ h => exact (h.placed ho).member hbody

theorem Misshapen.placed {v : Json} {kind : String} {reason : MalformedReason}
    (h : Misshapen c v kind reason) (ho : o ≤ source.length) :
    (here [] kind reason).Placed source o v := .first ho (by cases h <;> exact fun _ => nofun)

mutual
/-- **Every first deviation** of a value is placed in it. -/
theorem Deviates.placed : ∀ {o : Nat} {v : Json} {d : Deviation}, Deviates c source o v d →
    o ≤ source.length → d.Placed source o v
  | _, _, _, .misshapen h, ho => h.placed ho
  | _, _, _, .token _ h, ho => h.placed ho
  | _, _, _, .element _ hitems h, ho => (h.placed ho).array.member hitems
  | _, _, _, .slot _ _ _ h, ho => h.placed ho

@[inherit_doc Deviates.placed]
theorem ElementsDeviate.placed : ∀ {o i : Nat} {vs : List Json} {d : Deviation},
    ElementsDeviate c source o i vs d → o ≤ source.length → d.PlacedAmong source o i vs
  | _, _, _, _, .head h, ho => (h.placed ho).head
  | _, _, _, _, .tail _ hreads h, ho =>
      (h.placed (hreads.within ho).2).tail (hreads.within ho).1

@[inherit_doc Deviates.placed]
theorem SlotsDeviate.placed : ∀ {kind : String} {members : List (String × Json)} {o : Nat}
    {slots : List Slot} {d : Deviation}, SlotsDeviate c source kind members o slots d →
    o ≤ source.length → d.Placed source o (.obj members)
  | _, _, _, _, _, .absent _, ho => .first ho fun _ => nofun
  | _, _, _, _, _, .head hv h, ho => (h.placed ho).member hv
  | _, _, _, _, _, .tail _ _ hreads h, ho =>
      (h.placed (hreads.within ho).2).behind (hreads.within ho).1
end

end Parse

end Lossless
