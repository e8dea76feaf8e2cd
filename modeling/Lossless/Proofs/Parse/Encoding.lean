import Lossless.Proofs.Catalog.Compilation
import Lossless.Proofs.Node.Description
import Lossless.Proofs.Parse.Coverage
import Lossless.Text.Rune

/-!
# Parse — trees written down as parser output

A tree is written down as the value that a parser would give for it (`Node.encoding`).  Every text of
it can be given by itself or by its width, each on its own: `Encodes` relates a tree to all the values
that come out of such choices.

A value that encodes a tree describes what the tree is, with specifications that allow its texts
(`Encodes.describes`).  The keys of a composite are those of its slots and `kind`, all of them
different, so that every child is found under its key.  In the text of the tree these specifications
are read one behind the other (`Reads.of_at`), and a description is known by its outline and its texts
(`Description.eq_of_outline`).

**Round trip** (`fromDecoded_encoding`).  A tree is built from each of its encodings and its text.
-/

namespace Lossless

open Parse (TextSpec Reads)

/-! ### Encodings -/

/-- The member that gives a text: the string whose bytes it is, or its width when there is none. -/
def Text.member (t : Text) : String × Json :=
  if Text.ofString t.toStr = t then ("text", .str t.toStr) else ("width", .number (.int t.length))

/-- Parser output for a piece of trivia. -/
def Trivia.encoding (x : Trivia) : Json := .obj [("kind", .str x.kind), x.text.member]

/-- Parser output for a token. -/
def Token.encoding (t : Token) : Json :=
  .obj [("kind", .str "token"), ("token", .obj [("kind", .str t.kind),
    ("leading", .arr (t.leading.map Trivia.encoding)), t.text.member,
    ("trailing", .arr (t.trailing.map Trivia.encoding))])]

/-- The members of a composite with values for its slots. -/
def Kind.members (k : Kind) (vs : List Json) : List (String × Json) :=
  ("kind", .str k.name) :: (k.slots.map (·.key)).zip vs

namespace Node

mutual
/-- Parser output for a tree. -/
def encoding : Node → Json
  | .missing => .obj [("kind", .str "missing")]
  | .token t => t.encoding
  | .list _ items _ => .obj [("kind", .str "list"), ("elements", .arr (encodingAll items))]
  | .composite _ k cs _ => .obj (k.members (encodingAll cs))

@[inherit_doc encoding]
def encodingAll : List Node → List Json
  | [] => []
  | n :: rest => encoding n :: encodingAll rest
end

end Node

namespace Parse

/-- A member gives a text: by itself, or by the number of its bytes. -/
inductive Gives : Text → String × Json → Prop where
  | text (s : String) : Gives (Text.ofString s) ("text", .str s)
  | width {t : Text} {x : Numeral} (h : numeralInt? x = some (t.length : Int)) :
      Gives t ("width", .number x)

/-- A value encodes a piece of trivia. -/
inductive EncodesTrivia : Trivia → Json → Prop where
  | intro {x : Trivia} {m : String × Json} (h : Gives x.text m) :
      EncodesTrivia x (.obj [("kind", .str x.kind), m])

mutual
/-- A value encodes a tree. -/
inductive Encodes : Node → Json → Prop where
  | missing : Encodes .missing (.obj [("kind", .str "missing")])
  | token {t : Token} {leading trailing : List Json} {m : String × Json}
      (hleading : List.Forall₂ EncodesTrivia t.leading leading) (h : Gives t.text m)
      (htrailing : List.Forall₂ EncodesTrivia t.trailing trailing) :
      Encodes (.token t) (.obj [("kind", .str "token"), ("token", .obj [("kind", .str t.kind),
        ("leading", .arr leading), m, ("trailing", .arr trailing)])])
  | list {id w : Nat} {items : List Node} {vs : List Json} (h : EncodesAll items vs) :
      Encodes (.list id items w) (.obj [("kind", .str "list"), ("elements", .arr vs)])
  | composite {id w : Nat} {k : Kind} {cs : List Node} {vs : List Json} (h : EncodesAll cs vs) :
      Encodes (.composite id k cs w) (.obj (k.members vs))

/-- Values that encode one tree each. -/
inductive EncodesAll : List Node → List Json → Prop where
  | nil : EncodesAll [] []
  | cons {n : Node} {ns : List Node} {v : Json} {vs : List Json} (h : Encodes n v)
      (hs : EncodesAll ns vs) : EncodesAll (n :: ns) (v :: vs)
end

theorem gives_member (t : Text) : Gives t t.member := by
  unfold Text.member
  split
  · next h =>
      have hgives := Gives.text t.toStr
      rwa [h] at hgives
  · exact .width rfl

theorem encodesTrivia_encoding (xs : List Trivia) :
    List.Forall₂ EncodesTrivia xs (xs.map Trivia.encoding) := by
  rw [List.forall₂_map_right_iff]
  exact List.forall₂_same.mpr fun x _ => .intro (gives_member x.text)

mutual
/-- The encoding of a tree encodes it. -/
theorem encodes_encoding : ∀ n : Node, Encodes n n.encoding
  | .missing => .missing
  | .token t => .token (encodesTrivia_encoding _) (gives_member t.text) (encodesTrivia_encoding _)
  | .list _ items _ => .list (encodesAll_encoding items)
  | .composite _ _ cs _ => .composite (encodesAll_encoding cs)

theorem encodesAll_encoding : ∀ ns : List Node, EncodesAll ns (Node.encodingAll ns)
  | [] => .nil
  | n :: ns => .cons (encodes_encoding n) (encodesAll_encoding ns)
end

theorem EncodesAll.length_eq : ∀ {ns : List Node} {vs : List Json}, EncodesAll ns vs →
    vs.length = ns.length
  | _, _, .nil => rfl
  | _, _, .cons _ hs => congrArg (· + 1) hs.length_eq

end Parse

/-- A value of a well-formed kind describes a composite. -/
theorem Kind.WellFormed.unreserved {k : Kind} (h : k.WellFormed) : k.name ∉ Parse.reservedKinds := by
  have hname := h.name
  simp only [reservedKinds, Parse.reservedKinds, List.mem_cons] at hname ⊢
  tauto

namespace Parse

/-! ### What an encoding describes -/

/-- Texts that are allowed, and stand in the source as a whole, are read one behind the other. -/
theorem Reads.of_at {source : Text} {o : Nat} {specs : List TextSpec} {texts : List Text}
    (h : List.Forall₂ TextSpec.Allows specs texts) (hat : source.At o texts.flatten) :
    Reads source o specs texts := by
  induction h generalizing o with
  | nil => exact .nil
  | cons hspec _ ih =>
      rw [List.flatten_cons, Text.at_append] at hat
      exact .cons hspec hat.1 (ih hat.2)

/-- The token and trivia kinds of a tree are kinds of the catalog. -/
def Declared (c : Catalog) (ts : List Token) : Prop :=
  ∀ t ∈ ts, c.isToken t.kind = true ∧ ∀ x ∈ t.leading ++ t.trailing, c.isTrivia x.kind = true

theorem Declared.append {c : Catalog} {ts us : List Token} (h : Declared c (ts ++ us)) :
    Declared c ts ∧ Declared c us :=
  ⟨fun t ht => h t (List.mem_append_left _ ht), fun t ht => h t (List.mem_append_right _ ht)⟩

/-- The kinds of a catalog have no slot under the key of the kind. -/
def NoKindKey (c : Catalog) : Prop := ∀ k ∈ c.kinds, ∀ s ∈ k.slots, s.key ≠ "kind"

instance (c : Catalog) : Decidable (NoKindKey c) :=
  inferInstanceAs (Decidable (∀ k ∈ c.kinds, ∀ s ∈ k.slots, s.key ≠ "kind"))

theorem Gives.key {t : Text} {m : String × Json} (h : Gives t m) : m.1 = "text" ∨ m.1 = "width" := by
  cases h with
  | text => exact .inl rfl
  | width => exact .inr rfl

theorem Gives.given {t : Text} {m : String × Json} (h : Gives t m)
    (front back : List (String × Json)) (hfront : ∀ p ∈ front, p.1 ≠ "text" ∧ p.1 ≠ "width")
    (hback : ∀ p ∈ back, p.1 ≠ "text") :
    ∃ spec, TextSpec.Given (front ++ m :: back) spec ∧ spec.Allows t := by
  -- members with other keys do not change what is found under the two
  have hskip : ∀ key, key = "text" ∨ key = "width" →
      Json.member? (front ++ m :: back) key = Json.member? (m :: back) key := by
    intro key hkey
    induction front with
    | nil => rfl
    | cons p front ih =>
        have hne : p.1 ≠ key := by
          have := hfront p (.head _)
          rcases hkey with rfl | rfl
          · exact this.1
          · exact this.2
        rw [List.cons_append, Json.member?, if_neg hne]
        exact ih fun q hq => hfront q (.tail _ hq)
  have hnone : ∀ back : List (String × Json), (∀ p ∈ back, p.1 ≠ "text") →
      Json.member? back "text" = none := by
    intro back hback
    induction back with
    | nil => rfl
    | cons p back ih =>
        rw [Json.member?, if_neg (hback p (.head _))]
        exact ih fun q hq => hback q (.tail _ hq)
  cases h with
  | text s => exact ⟨.text _, .text (by rw [hskip _ (.inl rfl)]; rfl), rfl⟩
  | width hx =>
      refine ⟨.width _, .width ?_ (by rw [hskip _ (.inr rfl)]; rfl) hx, rfl⟩
      rw [hskip _ (.inl rfl), Json.member?, if_neg (by decide)]
      exact hnone back hback

theorem EncodesTrivia.describes {c : Catalog} {xs : List Trivia} {vs : List Json}
    (h : List.Forall₂ EncodesTrivia xs vs) (hc : ∀ x ∈ xs, c.isTrivia x.kind = true) :
    ∃ specs, List.Forall₂ (DescribesTrivia c) vs specs ∧
      specs.map (fun p => (p.1, ())) = xs.map (fun x => (x.kind, ())) ∧
      List.Forall₂ TextSpec.Allows (specs.map (·.2)) (xs.map (·.text)) := by
  induction h with
  | nil => exact ⟨[], .nil, rfl, .nil⟩
  | @cons x v xs vs hx _ ih =>
      obtain ⟨specs, hspecs, hkinds, hallows⟩ := ih fun y hy => hc y (.tail _ hy)
      cases hx with
      | intro hm =>
          obtain ⟨spec, hgiven, hallow⟩ := hm.given [("kind", .str x.kind)] [] (by simp) nofun
          refine ⟨(x.kind, spec) :: specs, .cons (.intro rfl (hc x (.head _)) hgiven) hspecs, ?_,
            .cons hallow hallows⟩
          rw [List.map_cons, List.map_cons, hkinds]

/-- Every pair of two lists is found under its key when no key occurs twice. -/
theorem member?_zip {keys : List String} {vs : List Json} (h : keys.Nodup) :
    ∀ p ∈ keys.zip vs, Json.member? (keys.zip vs) p.1 = some p.2 := by
  induction keys generalizing vs with
  | nil => exact nofun
  | cons k keys ih =>
      cases vs with
      | nil => exact nofun
      | cons v vs =>
          obtain ⟨hk, hkeys⟩ := List.nodup_cons.mp h
          rintro p hp
          rcases List.mem_cons.mp hp with rfl | hp
          · exact if_pos rfl
          · have hne : k ≠ p.1 := fun he => hk (he ▸ (List.of_mem_zip hp).1)
            rw [List.zip_cons_cons, Json.member?, if_neg hne]
            exact ih hkeys p hp

/-- The values of a composite stand under the keys of its slots. -/
theorem member?_members {k : Kind} {vs : List Json} (hkeys : (k.slots.map (·.key)).Nodup)
    (hkind : ∀ s ∈ k.slots, s.key ≠ "kind") :
    ∀ p ∈ k.slots.zip vs, Json.member? (k.members vs) p.1.key = some p.2 := by
  intro p hp
  have hmem : (p.1.key, p.2) ∈ (k.slots.map (·.key)).zip vs := by
    rw [List.zip_map_left]
    exact List.mem_map_of_mem (f := Prod.map _ id) hp
  rw [Kind.members, Json.member?, if_neg (hkind p.1 (List.of_mem_zip hp).1).symm]
  exact member?_zip hkeys _ hmem

theorem DescribesAll.slots {c : Catalog} {members : List (String × Json)} :
    ∀ {slots : List Slot} {vs : List Json} {ds : List (Description TextSpec)},
      DescribesAll c vs ds → vs.length = slots.length →
      (∀ p ∈ slots.zip vs, Json.member? members p.1.key = some p.2) →
      DescribesSlots c members slots ds
  | [], _, _, .nil, _, _ => .nil
  | s :: _, _, _, .cons hd hds, hlen, hv =>
      .cons (hv (s, _) (.head _)) hd
        (hds.slots (Nat.succ.inj hlen) fun p hp => hv p (.tail _ hp))

/-- A description of a tree: with its outline, and with specifications that allow its texts. -/
structure Depicts (n : Node) (d : Description TextSpec) : Prop where
  outline : d.outline = n.description.outline
  allows : List.Forall₂ TextSpec.Allows d.leaves n.description.leaves

/-- Descriptions of several trees. -/
structure DepictsAll (ns : List Node) (ds : List (Description TextSpec)) : Prop where
  outline : Description.outlineAll ds = Description.outlineAll (Node.descriptionAll ns)
  allows : List.Forall₂ TextSpec.Allows (Description.leavesAll ds) (Node.leavesAll ns)

section Describes

variable {c : Catalog}

mutual
/-- **An encoding describes its tree.** -/
theorem Encodes.describes (hc : c.WellFormed) (hkeys : NoKindKey c) :
    ∀ {n : Node} {v : Json}, Encodes n v → n.Sound (· ∈ c.kinds) → Declared c n.frontier →
      ∃ d, Describes c v d ∧ Depicts n d
  | _, _, .missing, _, _ => ⟨.missing, .missing rfl, rfl, .nil⟩
  | .token t, _, @Encodes.token _ _ trailing m hleading h htrailing, _, hdeclared => by
      obtain ⟨htoken, htrivia⟩ := hdeclared t (.head _)
      obtain ⟨leading', hl, hkinds, hallows⟩ := EncodesTrivia.describes hleading
        fun x hx => htrivia x (List.mem_append_left _ hx)
      obtain ⟨trailing', hr, hkinds', hallows'⟩ := EncodesTrivia.describes htrailing
        fun x hx => htrivia x (List.mem_append_right _ hx)
      obtain ⟨spec, hgiven, hallow⟩ := h.given [("kind", .str t.kind), ("leading", .arr _)]
        [("trailing", .arr trailing)] (by simp) (by simp)
      have hskip : m.1 ≠ "trailing" := by rcases h.key with hm | hm <;> simp [hm]
      -- the member in between has another key
      have htail : Json.member? [m, ("trailing", Json.arr trailing)] "trailing" =
          some (.arr trailing) := by
        rw [Json.member?, if_neg hskip]
        rfl
      refine ⟨.token t.kind leading' spec trailing', .token rfl
        (.intro rfl rfl htoken (.array rfl hl) hgiven (.array htail hr)), ?_, ?_⟩
      · simp [Description.outline, Node.description, hkinds, hkinds', Function.comp_def]
      · simp only [Description.leaves, Node.description, List.map_map, Function.comp_def]
        exact List.rel_append hallows (.cons hallow hallows')
  | _, _, .list h, hsound, hdeclared => by
      rw [Node.frontier_list] at hdeclared
      obtain ⟨ds, hds, ho, hallows⟩ := EncodesAll.describes hc hkeys h hsound.children hdeclared
      exact ⟨.list ds, .list rfl rfl hds, congrArg _ ho, hallows⟩
  | .composite _ k cs _, _, @Encodes.composite _ _ _ _ vs h, hsound, hdeclared => by
      rw [Node.frontier_composite] at hdeclared
      obtain ⟨hk, hlen, -, -⟩ := Node.sound_composite_iff.mp hsound
      obtain ⟨ds, hds, ho, hallows⟩ := EncodesAll.describes hc hkeys h hsound.children hdeclared
      refine ⟨.composite k ds, .composite rfl (hc.kinds k hk).unreserved (hc.kind?_eq hk) ?_, ?_,
        hallows⟩
      · exact hds.slots (h.length_eq.trans hlen) (member?_members (hc.kinds k hk).keys (hkeys k hk))
      · exact congrArg (Description.composite k) ho

theorem EncodesAll.describes (hc : c.WellFormed) (hkeys : NoKindKey c) :
    ∀ {ns : List Node} {vs : List Json}, EncodesAll ns vs → (∀ n ∈ ns, n.Sound (· ∈ c.kinds)) →
      Declared c (Node.frontierAll ns) → ∃ ds, DescribesAll c vs ds ∧ DepictsAll ns ds
  | _, _, .nil, _, _ => ⟨[], .nil, rfl, .nil⟩
  | _, _, .cons h hs, hsound, hdeclared => by
      rw [Node.frontierAll_cons] at hdeclared
      obtain ⟨hfirst, hrest⟩ := hdeclared.append
      obtain ⟨d, hd, ho, hallows⟩ := Encodes.describes hc hkeys h (hsound _ (.head _)) hfirst
      obtain ⟨ds, hds, hos, hallowss⟩ :=
        EncodesAll.describes hc hkeys hs (fun n hn => hsound n (.tail _ hn)) hrest
      refine ⟨d :: ds, .cons hd hds, ?_, List.rel_append hallows hallowss⟩
      rw [Description.outlineAll, Node.descriptionAll, Description.outlineAll, ho, hos]
end

end Describes

/-! ### Round trip -/

/-- For every catalog that compiles and has no slot under the key `kind`, and every tree of its kinds:
each encoding of the tree, with any of its texts given by their widths, is accepted together with the
text of the tree, and the tree that is built is structurally equal to the given one. The encoding that
gives every text by itself, where it is that of a string, is one of them. -/
theorem fromDecoded_encoding {document : CatalogDocument} {c : Catalog}
    (hc : document.compile = .ok c) (hkeys : NoKindKey c) {n : Node}
    (hsound : n.Sound (· ∈ c.kinds)) (hdeclared : Declared c n.frontier) (file : String)
    (supply : Supply) :
    Encodes n n.encoding ∧
    ∀ v, Encodes n v → ∃ r supply',
      fromDecoded c v n.fullText file supply = .ok (r, supply') ∧
        n.equal r = true ∧ Node.Alike n r := by
  refine ⟨encodes_encoding n, fun v hv => ?_⟩
  have hwell := CatalogDocument.compile_wellFormed hc
  obtain ⟨d, hd, ho, hallows⟩ := hv.describes hwell hkeys hsound hdeclared
  let ctx : Context := ⟨c, file, n.fullText⟩
  have hd : Describes ctx.catalog v d := hd
  have hat : n.fullText.At 0 n.description.leaves.flatten := by
    rw [Node.flatten_leaves]
    exact Text.at_self _
  obtain ⟨r, supply', hr, hreal, hleaves⟩ := nodeOf_of_describes hd (Reads.of_at hallows hat) [] supply
  -- the tree that is built has the outline of the description and the texts of the given tree
  have heq : n.description = r.description :=
    Description.eq_of_outline (ho.symm.trans hreal.outline.symm) hleaves.symm
  have halike := Node.alike_of_description heq
  have hwidth : r.width = n.fullText.length := by
    rw [hreal.sound.width_eq, halike.fullText]
  have hbuilt : fromJson c v file 0 n.fullText supply = .ok (r, supply') :=
    fromJson_eq_ok_iff.mpr ⟨by omega, hr⟩
  exact ⟨r, supply', fromDecoded_eq_ok_iff.mpr ⟨hbuilt, hwidth⟩,
    halike.equal hsound hreal.sound, halike⟩

/-- A language of pairs of words. -/
def pairDocument : CatalogDocument where
  language := "Pairs"
  tokens := ["word"]
  kinds := [{ name := "pair", slots := [{ name := "left" }, { name := "right" }] }]

/-- The kind of pairs. -/
def pairKind : Kind where
  name := "pair"
  stem := "pair"
  slots := [⟨"left", "pair_left", []⟩, ⟨"right", "pair_right", []⟩]

/-- The catalog of pairs. -/
def pairCatalog : Catalog := ⟨"Pairs", [], [pairKind], ["word"], []⟩

/-- A list with one word, next to nothing. -/
def pairTree : Node :=
  .composite 3 pairKind [.list 2 [.token ⟨1, "word", [⟨"blank", " "⟩], "abc", [], 4⟩] 4, .missing] 4

/-- Parser output for the pair, with the word given by its width. -/
def pairValue : Json :=
  .obj (pairKind.members [.obj [("kind", .str "list"), ("elements", .arr [
      .obj [("kind", .str "token"), ("token", .obj [("kind", .str "word"),
        ("leading", .arr [.obj [("kind", .str "blank"), ("text", .str " ")]]),
        ("width", .number (.literal "3")), ("trailing", .arr [])])]])],
    .obj [("kind", .str "missing")]])

theorem fromDecoded_encoding_pairTree :
    (pairDocument.compile = .ok pairCatalog ∧ NoKindKey pairCatalog ∧
      pairTree.Sound (· ∈ pairCatalog.kinds) ∧ Declared pairCatalog pairTree.frontier) ∧
    Encodes pairTree pairValue ∧
    ∃ r supply', fromDecoded pairCatalog pairValue " abc" "a.pair" Supply.start = .ok (r, supply') ∧
      pairTree.equal r = true ∧ Node.Alike pairTree r := by
  have hc : pairDocument.compile = .ok pairCatalog := rfl
  have hkeys : NoKindKey pairCatalog := by decide
  have hsound : pairTree.Sound (· ∈ pairCatalog.kinds) := by
    refine .composite (.head _) rfl fun c hc => ?_
    rcases List.mem_pair.mp hc with rfl | rfl
    · refine .list fun t ht => ?_
      obtain rfl := List.mem_singleton.mp ht
      exact .token (by decide)
    · exact .missing
  have hdeclared : Declared pairCatalog pairTree.frontier := by
    intro t ht
    obtain rfl := List.mem_singleton.mp ht
    decide
  have hthree : numeralInt? (.literal "3") = some (3 : Int) := rfl
  have hencodes : Encodes pairTree pairValue :=
    .composite (.cons (.list (.cons
      (.token (.cons (.intro (.text " ")) .nil) (.width hthree) .nil) .nil))
      (.cons .missing .nil))
  exact ⟨⟨hc, hkeys, hsound, hdeclared⟩, hencodes,
    (fromDecoded_encoding hc hkeys hsound hdeclared "a.pair" Supply.start).2 _ hencodes⟩

end Parse

end Lossless
