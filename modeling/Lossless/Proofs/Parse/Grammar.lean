import Lossless.Parse.Build
import Lossless.Proofs.Node.Sound
import Mathlib.Data.List.Forall2

/-!
# Parse — the grammar of parser output

What a parser may say, without the source text in mind.  A *description* is a tree whose texts are
of some type: a JSON value describes one whose texts are only specified (`Describes`), and a node is
one whose texts are there (`Node.description`).  A specification is a text, or a width.

The texts of a description are a flat list, left to right (`Description.leaves`); what is left
without them is its outline.  A list of specifications is *read* in a source from an offset on when
there are texts, one for each, that stand in the source one behind the other (`Reads`): a specified
text is the text, and a width is the number of its bytes.

A value describes at most one tree (`Describes.unique`).  Without looking at its parts, it is misshapen
or has one of four forms (`misshapen_or_formed`).
-/

namespace Lossless

/-- A tree without identities and widths, whose texts are of type `α`. -/
inductive Description (α : Type) where
  | missing
  | token (kind : String) (leading : List (String × α)) (text : α) (trailing : List (String × α))
  | list (items : List (Description α))
  | composite (kind : Kind) (children : List (Description α))

namespace Description

variable {α : Type}

mutual
/-- The texts of a description, left to right. -/
def leaves : Description α → List α
  | .missing => []
  | .token _ leading text trailing => leading.map (·.2) ++ text :: trailing.map (·.2)
  | .list items => leavesAll items
  | .composite _ children => leavesAll children

@[inherit_doc leaves]
def leavesAll : List (Description α) → List α
  | [] => []
  | d :: rest => leaves d ++ leavesAll rest
end

mutual
/-- A description without its texts: classes, kinds, and kinds of trivia. -/
def outline : Description α → Description Unit
  | .missing => .missing
  | .token kind leading _ trailing =>
    .token kind (leading.map fun p => (p.1, ())) () (trailing.map fun p => (p.1, ()))
  | .list items => .list (outlineAll items)
  | .composite kind children => .composite kind (outlineAll children)

@[inherit_doc outline]
def outlineAll : List (Description α) → List (Description Unit)
  | [] => []
  | d :: rest => outline d :: outlineAll rest
end

end Description

namespace Node

mutual
/-- What a node is apart from its identity and width. -/
def description : Node → Description Text
  | .missing => .missing
  | .token t =>
    .token t.kind (t.leading.map fun x => (x.kind, x.text)) t.text
      (t.trailing.map fun x => (x.kind, x.text))
  | .list _ items _ => .list (descriptionAll items)
  | .composite _ k cs _ => .composite k (descriptionAll cs)

@[inherit_doc description]
def descriptionAll : List Node → List (Description Text)
  | [] => []
  | n :: rest => description n :: descriptionAll rest
end

/-- The texts of several nodes, left to right. -/
def leavesAll (ns : List Node) : List Text := Description.leavesAll (descriptionAll ns)

mutual
/-- The full text of a node is the concatenation of the texts it is described by. -/
theorem flatten_leaves : ∀ n : Node, n.description.leaves.flatten = n.fullText
  | .missing => rfl
  | .token t => by
      simp [description, Description.leaves, fullText, Token.fullText, Token.leadingText,
        Token.trailingText, triviaText, List.flatMap, Function.comp_def]
  | .list _ items _ => flatten_leavesAll items
  | .composite _ _ cs _ => flatten_leavesAll cs

@[inherit_doc flatten_leaves]
theorem flatten_leavesAll : ∀ ns : List Node, (leavesAll ns).flatten = fullTextAll ns
  | [] => rfl
  | n :: ns => by
      simp only [leavesAll, descriptionAll, Description.leavesAll, List.flatten_append, fullTextAll,
        flatten_leaves n]
      rw [← flatten_leavesAll ns, leavesAll]
end

theorem Sound.width_eq_leaves {K : Kind → Prop} {n : Node} (h : n.Sound K) :
    n.width = n.description.leaves.flatten.length := by
  rw [h.width_eq, flatten_leaves]

end Node

namespace Parse

/-! ### Specifications of texts -/

/-- How parser output gives a text: by itself, or by its width in bytes. -/
inductive TextSpec where
  | text (t : Text)
  | width (w : Int)

/-- The texts that a specification allows. -/
def TextSpec.Allows : TextSpec → Text → Prop
  | .text t, u => u = t
  | .width w, u => (u.length : Int) = w

/-- The specification that the members of an object give: the string under `text` when there is that
key, otherwise the integer under `width`. -/
inductive TextSpec.Given (members : List (String × Json)) : TextSpec → Prop where
  | text {t : String} (h : Json.member? members "text" = some (.str t)) :
      Given members (.text (Text.ofString t))
  | width {x : Numeral} {w : Int} (ht : Json.member? members "text" = none)
      (hw : Json.member? members "width" = some (.number x)) (hx : numeralInt? x = some w) :
      Given members (.width w)

/-- Specifications match a source one behind the other from an offset on: a specified text stands
there, and a width is no more than what is left. -/
def Matches (source : Text) : Nat → List TextSpec → Prop
  | _, [] => True
  | o, .text t :: rest => source.At o t ∧ Matches source (o + t.length) rest
  | o, .width w :: rest =>
    0 ≤ w ∧ w ≤ (source.length : Int) - o ∧ Matches source (o + w.toNat) rest

/-- Texts, one for each specification, that stand in the source one behind the other. -/
inductive Reads (source : Text) : Nat → List TextSpec → List Text → Prop where
  | nil {o : Nat} : Reads source o [] []
  | cons {o : Nat} {spec : TextSpec} {specs : List TextSpec} {t : Text} {texts : List Text}
      (hspec : spec.Allows t) (ht : source.At o t)
      (hrest : Reads source (o + t.length) specs texts) :
      Reads source o (spec :: specs) (t :: texts)

namespace Reads

variable {source : Text} {o : Nat} {specs specs₁ specs₂ : List TextSpec}
  {texts texts₁ texts₂ : List Text}

theorem append (h₁ : Reads source o specs₁ texts₁)
    (h₂ : Reads source (o + texts₁.flatten.length) specs₂ texts₂) :
    Reads source o (specs₁ ++ specs₂) (texts₁ ++ texts₂) := by
  induction h₁ with
  | nil => exact h₂
  | cons hspec ht _ ih =>
      refine .cons hspec ht (ih ?_)
      rwa [List.flatten_cons, List.length_append, ← Nat.add_assoc] at h₂

/-- Reading a list of specifications is reading its parts, the second where the first ends. -/
theorem of_append (h : Reads source o (specs₁ ++ specs₂) texts) :
    ∃ texts₁ texts₂, texts = texts₁ ++ texts₂ ∧ Reads source o specs₁ texts₁ ∧
      Reads source (o + texts₁.flatten.length) specs₂ texts₂ := by
  induction specs₁ generalizing o texts with
  | nil => exact ⟨[], texts, rfl, .nil, h⟩
  | cons spec specs₁ ih =>
      cases h with
      | cons hspec ht hrest =>
          obtain ⟨texts₁, texts₂, rfl, h₁, h₂⟩ := ih hrest
          refine ⟨_ :: texts₁, texts₂, rfl, .cons hspec ht h₁, ?_⟩
          rwa [List.flatten_cons, List.length_append, ← Nat.add_assoc]

/-- What is read stands in the source as a whole. -/
theorem at_flatten (ho : o ≤ source.length) (h : Reads source o specs texts) :
    source.At o texts.flatten := by
  induction h with
  | nil => exact Text.at_nil.mpr ho
  | cons _ ht _ ih => exact Text.at_append.mpr ⟨ht, ih (Text.at_iff.mp ht).1⟩

end Reads

/-- Specifications match when there are texts for them. -/
theorem matches_iff {source : Text} {o : Nat} {specs : List TextSpec} :
    Matches source o specs ↔ ∃ texts, Reads source o specs texts := by
  induction specs generalizing o with
  | nil => exact ⟨fun _ => ⟨[], .nil⟩, fun _ => trivial⟩
  | cons spec specs ih =>
      cases spec with
      | text t =>
          rw [Matches, ih]
          constructor
          · rintro ⟨hat, texts, hr⟩
            exact ⟨t :: texts, .cons rfl hat hr⟩
          · rintro ⟨_, hr⟩
            cases hr with
            | cons hspec hat hrest => cases hspec; exact ⟨hat, _, hrest⟩
      | width w =>
          rw [Matches, ih]
          constructor
          · rintro ⟨hw, hle, texts, hr⟩
            -- a width has one text only: the bytes that are there
            have hslice : source.slice? o (o + w.toNat) =
                some ((source.drop o).take (o + w.toNat - o)) := if_pos (by omega)
            obtain ⟨hlen, hat⟩ := Text.at_of_slice? hslice
            refine ⟨_ :: texts, .cons (by rw [TextSpec.Allows, hlen]; omega) hat ?_⟩
            rw [hlen]
            exact hr
          · rintro ⟨_, hr⟩
            cases hr with
            | @cons _ _ _ t texts hspec hat hrest =>
                have hle := (Text.at_iff.mp hat).1
                have hw : w.toNat = t.length := by simp only [TextSpec.Allows] at hspec; omega
                simp only [TextSpec.Allows] at hspec
                exact ⟨by omega, by omega, texts, hw ▸ hrest⟩

/-! ### Descriptions -/

/-- A value that describes a piece of trivia. -/
inductive DescribesTrivia (c : Catalog) : Json → String × TextSpec → Prop where
  | intro {members : List (String × Json)} {kind : String} {spec : TextSpec}
      (hkind : Json.member? members "kind" = some (.str kind)) (hc : c.isTrivia kind = true)
      (hspec : TextSpec.Given members spec) : DescribesTrivia c (.obj members) (kind, spec)

/-- The trivia that a token body has under a key; absent and null mean none. -/
inductive DescribesTriviaAt (c : Catalog) (body : List (String × Json)) (key : String) :
    List (String × TextSpec) → Prop where
  | absent (h : Json.member? body key = none) : DescribesTriviaAt c body key []
  | null (h : Json.member? body key = some .null) : DescribesTriviaAt c body key []
  | array {items : List Json} {ts : List (String × TextSpec)}
      (h : Json.member? body key = some (.arr items))
      (hts : List.Forall₂ (DescribesTrivia c) items ts) : DescribesTriviaAt c body key ts

/-- Members that describe a token. -/
inductive DescribesToken (c : Catalog) (members : List (String × Json)) :
    Description TextSpec → Prop where
  | intro {body : List (String × Json)} {kind : String} {spec : TextSpec}
      {leading trailing : List (String × TextSpec)}
      (hbody : Json.member? members "token" = some (.obj body))
      (hkind : Json.member? body "kind" = some (.str kind)) (hc : c.isToken kind = true)
      (hleading : DescribesTriviaAt c body "leading" leading)
      (hspec : TextSpec.Given body spec)
      (htrailing : DescribesTriviaAt c body "trailing" trailing) :
      DescribesToken c members (.token kind leading spec trailing)

/-- The kinds of values that describe no composite. -/
def reservedKinds : List String := ["missing", "token", "list"]

mutual
/-- A value that describes a tree. -/
inductive Describes (c : Catalog) : Json → Description TextSpec → Prop where
  | missing {members : List (String × Json)}
      (hkind : Json.member? members "kind" = some (.str "missing")) :
      Describes c (.obj members) .missing
  | token {members : List (String × Json)} {d : Description TextSpec}
      (hkind : Json.member? members "kind" = some (.str "token"))
      (htoken : DescribesToken c members d) : Describes c (.obj members) d
  | list {members : List (String × Json)} {items : List Json}
      {ds : List (Description TextSpec)}
      (hkind : Json.member? members "kind" = some (.str "list"))
      (hitems : Json.member? members "elements" = some (.arr items))
      (hds : DescribesAll c items ds) : Describes c (.obj members) (.list ds)
  | composite {members : List (String × Json)} {name : String} {k : Kind}
      {ds : List (Description TextSpec)}
      (hkind : Json.member? members "kind" = some (.str name)) (hname : name ∉ reservedKinds)
      (hk : c.kind? name = some k) (hds : DescribesSlots c members k.slots ds) :
      Describes c (.obj members) (.composite k ds)

/-- Values that describe one tree each. -/
inductive DescribesAll (c : Catalog) : List Json → List (Description TextSpec) → Prop where
  | nil : DescribesAll c [] []
  | cons {v : Json} {vs : List Json} {d : Description TextSpec}
      {ds : List (Description TextSpec)} (hd : Describes c v d) (hds : DescribesAll c vs ds) :
      DescribesAll c (v :: vs) (d :: ds)

/-- Members that describe a tree under the key of every slot. -/
inductive DescribesSlots (c : Catalog) :
    List (String × Json) → List Slot → List (Description TextSpec) → Prop where
  | nil {members : List (String × Json)} : DescribesSlots c members [] []
  | cons {members : List (String × Json)} {s : Slot} {slots : List Slot} {v : Json}
      {d : Description TextSpec} {ds : List (Description TextSpec)}
      (hv : Json.member? members s.key = some v) (hd : Describes c v d)
      (hds : DescribesSlots c members slots ds) :
      DescribesSlots c members (s :: slots) (d :: ds)
end

/-! ### Forms -/

/-- A value that is no description, whatever its parts are. -/
inductive Misshapen (c : Catalog) : Json → String → MalformedReason → Prop where
  | notObject {v : Json} (h : ∀ members, v ≠ .obj members) : Misshapen c v "" (.notObject v.describe)
  | noKind {members : List (String × Json)}
      (h : ∀ k, Json.member? members "kind" ≠ some (.str k)) : Misshapen c (.obj members) "" .noKind
  | unknownKind {members : List (String × Json)} {name : String}
      (hkind : Json.member? members "kind" = some (.str name)) (hname : name ∉ reservedKinds)
      (h : c.kind? name = none) : Misshapen c (.obj members) name .unknownKind
  | noElements {members : List (String × Json)}
      (hkind : Json.member? members "kind" = some (.str "list"))
      (h : ∀ items, Json.member? members "elements" ≠ some (.arr items)) :
      Misshapen c (.obj members) "list" .noElements

/-- A value is misshapen, or has one of the four forms of a description. -/
theorem misshapen_or_formed (c : Catalog) (v : Json) :
    (∃ kind reason, Misshapen c v kind reason) ∨
      ∃ members name, v = .obj members ∧ Json.member? members "kind" = some (.str name) ∧
        (name = "missing" ∨ name = "token" ∨
          (name = "list" ∧ ∃ items, Json.member? members "elements" = some (.arr items)) ∨
          (name ∉ reservedKinds ∧ ∃ k, c.kind? name = some k)) := by
  cases v with
  | obj members =>
      -- the shape is looked at in this order: object, kind, reserved name or kind of the catalog
      by_cases hkind : ∃ name, Json.member? members "kind" = some (.str name)
      · obtain ⟨name, hkind⟩ := hkind
        by_cases hname : name ∈ reservedKinds
        · simp only [reservedKinds, List.mem_cons, List.not_mem_nil, or_false] at hname
          rcases hname with rfl | rfl | rfl
          · exact .inr ⟨members, _, rfl, hkind, .inl rfl⟩
          · exact .inr ⟨members, _, rfl, hkind, .inr (.inl rfl)⟩
          · by_cases hitems : ∃ items, Json.member? members "elements" = some (.arr items)
            · exact .inr ⟨members, _, rfl, hkind, .inr (.inr (.inl ⟨rfl, hitems⟩))⟩
            · exact .inl ⟨_, _, .noElements hkind fun items h => hitems ⟨items, h⟩⟩
        · cases hk : c.kind? name with
          | none => exact .inl ⟨_, _, .unknownKind hkind hname hk⟩
          | some k => exact .inr ⟨members, name, rfl, hkind, .inr (.inr (.inr ⟨hname, k, hk⟩))⟩
      · exact .inl ⟨_, _, .noKind fun name h => hkind ⟨name, h⟩⟩
  | _ => exact .inl ⟨_, _, .notObject nofun⟩

/-! ### A value describes at most one tree -/

theorem TextSpec.Given.unique {members : List (String × Json)} {spec spec' : TextSpec}
    (h : Given members spec) (h' : Given members spec') : spec = spec' := by
  cases h with
  | text ht =>
      cases h' with
      | text ht' => cases ht.symm.trans ht'; rfl
      | width ht' => cases ht.symm.trans ht'
  | width ht hw hx =>
      cases h' with
      | text ht' => cases ht.symm.trans ht'
      | width _ hw' hx' =>
          cases hw.symm.trans hw'
          cases hx.symm.trans hx'
          rfl

theorem DescribesTrivia.unique {c : Catalog} {v : Json} {t t' : String × TextSpec}
    (h : DescribesTrivia c v t) (h' : DescribesTrivia c v t') : t = t' := by
  cases h with
  | intro hkind _ hspec =>
      cases h' with
      | intro hkind' _ hspec' =>
          cases hkind.symm.trans hkind'
          rw [hspec.unique hspec']

theorem DescribesTriviaAt.unique {c : Catalog} {body : List (String × Json)} {key : String}
    {ts ts' : List (String × TextSpec)} (h : DescribesTriviaAt c body key ts)
    (h' : DescribesTriviaAt c body key ts') : ts = ts' := by
  cases h with
  | absent h₁ =>
      cases h' with
      | absent | null => rfl
      | array h₂ => cases h₁.symm.trans h₂
  | null h₁ =>
      cases h' with
      | absent | null => rfl
      | array h₂ => cases h₁.symm.trans h₂
  | array h₁ hts =>
      cases h' with
      | absent h₂ | null h₂ => cases h₁.symm.trans h₂
      | array h₂ hts' =>
          cases h₁.symm.trans h₂
          exact List.right_unique_forall₂' (fun _ _ _ h h' => h.unique h') hts hts'

theorem DescribesToken.unique {c : Catalog} {members : List (String × Json)}
    {d d' : Description TextSpec} (h : DescribesToken c members d)
    (h' : DescribesToken c members d') : d = d' := by
  cases h with
  | intro hbody hkind _ hleading hspec htrailing =>
      cases h' with
      | intro hbody' hkind' _ hleading' hspec' htrailing' =>
          cases hbody.symm.trans hbody'
          cases hkind.symm.trans hkind'
          rw [hleading.unique hleading', hspec.unique hspec', htrailing.unique htrailing']

mutual
/-- A value describes at most one tree: its kind decides the form, and the form the parts. -/
theorem Describes.unique {c : Catalog} : ∀ {v : Json} {d d' : Description TextSpec},
    Describes c v d → Describes c v d' → d = d'
  | _, _, _, .missing hkind, h' => by
      cases h' with
      | missing => rfl
      | token hkind' | list hkind' => exact absurd (hkind.symm.trans hkind') (by simp)
      | composite hkind' hname =>
          cases hkind.symm.trans hkind'
          exact absurd (by decide) hname
  | _, _, _, .token hkind htoken, h' => by
      cases h' with
      | token _ htoken' => exact htoken.unique htoken'
      | missing hkind' | list hkind' => exact absurd (hkind.symm.trans hkind') (by simp)
      | composite hkind' hname =>
          cases hkind.symm.trans hkind'
          exact absurd (by decide) hname
  | _, _, _, .list hkind hitems hds, h' => by
      cases h' with
      | missing hkind' | token hkind' => exact absurd (hkind.symm.trans hkind') (by simp)
      | list _ hitems' hds' =>
          cases hitems.symm.trans hitems'
          rw [hds.unique hds']
      | composite hkind' hname =>
          cases hkind.symm.trans hkind'
          exact absurd (by decide) hname
  | _, _, _, .composite hkind hname hk hds, h' => by
      cases h' with
      | missing hkind' | token hkind' | list hkind' =>
          cases hkind.symm.trans hkind'
          exact absurd (by decide) hname
      | composite hkind' _ hk' hds' =>
          cases hkind.symm.trans hkind'
          cases hk.symm.trans hk'
          rw [hds.unique hds']

@[inherit_doc Describes.unique]
theorem DescribesAll.unique {c : Catalog} :
    ∀ {vs : List Json} {ds ds' : List (Description TextSpec)},
      DescribesAll c vs ds → DescribesAll c vs ds' → ds = ds'
  | _, _, _, .nil, .nil => rfl
  | _, _, _, .cons hd hds, .cons hd' hds' => by rw [hd.unique hd', hds.unique hds']

@[inherit_doc Describes.unique]
theorem DescribesSlots.unique {c : Catalog} :
    ∀ {members : List (String × Json)} {slots : List Slot} {ds ds' : List (Description TextSpec)},
      DescribesSlots c members slots ds → DescribesSlots c members slots ds' → ds = ds'
  | _, _, _, _, .nil, .nil => rfl
  | _, _, _, _, .cons hv hd hds, .cons hv' hd' hds' => by
      cases hv.symm.trans hv'
      rw [hd.unique hd', hds.unique hds']
end

end Parse

end Lossless
