import Lossless.Proofs.Node.Operations
import Lossless.Proofs.Parse.Grammar

/-!
# Parse — the builder accepts exactly its grammar

Building a node from a value follows the value, with an offset that moves on by the width of every
child; the grammar knows only the flat list of texts.  The two meet in `Realizes`: a node has the
outline of a description, and its texts are read in the source from the offset on.

* Texts and trivia are built exactly when they are given and read (`textOf_eq_ok_iff`,
  `triviaList_eq_ok_iff`).
* A node that is built realizes some description of its value (`nodeOf_realizes`).
* When a value describes a tree whose texts are read from the offset on, a node is built that
  realizes it with these texts (`nodeOf_of_describes`).
* Both together: **the constructor accepts exactly its grammar** (`fromJson_accepts_grammar`).

The offset behind a child is that of its parent plus the lengths of all texts before it, because
nodes that realize a description are sound: their width is the length of their texts.
-/

namespace Lossless.Parse

variable {ctx : Context} {path : ValuePath} {kind : String} {o : Nat} {s s' : Supply}

/-! ### Texts -/

theorem sliceOf_eq_ok_iff {start stop : Nat} {t : Text} :
    sliceOf ctx start stop s = .ok (t, s') ↔ ctx.source.slice? start stop = some t ∧ s' = s := by
  unfold sliceOf
  split
  · next u hu =>
      rw [hu]
      exact ⟨fun h => by cases h; exact ⟨rfl, rfl⟩, fun ⟨h, hs⟩ => by cases h; cases hs; rfl⟩
  · next hu => exact ⟨nofun, fun ⟨h, _⟩ => nomatch hu.symm.trans h⟩

theorem widthOf_eq_ok_iff {v : Option Json} {w : Int} :
    widthOf (v.getD .null) = .ok w ↔ ∃ x, v = some (.number x) ∧ numeralInt? x = some w := by
  constructor
  · intro h
    match v with
    | some (.number x) =>
        simp only [Option.getD_some, widthOf] at h
        split at h
        · next i hi => cases h; exact ⟨x, rfl, hi⟩
        · cases h
    | none | some .null | some (.bool _) | some (.str _) | some (.arr _) | some (.obj _) => cases h
  · rintro ⟨x, rfl, hx⟩
    simp only [Option.getD_some, widthOf, hx]

/-- An explicit text is built when it stands in the source. -/
theorem textOf_text {members : List (String × Json)} {u : String} {r : Text × Supply}
    (hu : Json.member? members "text" = some (.str u)) :
    textOf ctx path kind members o s = .ok r ↔
      ctx.source.At o (Text.ofString u) ∧ r = (Text.ofString u, s) := by
  simp only [textOf, hu]
  constructor
  · intro h
    split at h
    · cases h
    · -- the text is compared with what stands there
      obtain ⟨there, s₁, hs, hr⟩ := Make.bind_eq_ok.mp h
      obtain ⟨hslice, rfl⟩ := sliceOf_eq_ok_iff.mp hs
      split at hr
      · next heq => cases hr; exact ⟨heq ▸ hslice, rfl⟩
      · cases hr
  · rintro ⟨hat, rfl⟩
    have hle := (Text.at_iff.mp hat).1
    rw [if_neg (by unfold Context.left; omega)]
    refine Make.bind_eq_ok.mpr ⟨_, s, sliceOf_eq_ok_iff.mpr ⟨hat, rfl⟩, ?_⟩
    rw [if_pos rfl]
    rfl

/-- Without an explicit text, the bytes of the given width are taken from the source. -/
theorem textOf_width {members : List (String × Json)} {r : Text × Supply}
    (hu : Json.member? members "text" = none) :
    textOf ctx path kind members o s = .ok r ↔
      ∃ x t, Json.member? members "width" = some (.number x) ∧
        numeralInt? x = some (t.length : Int) ∧ ctx.source.At o t ∧ r = (t, s) := by
  simp only [textOf, hu]
  constructor
  · intro h
    cases hw : widthOf ((Json.member? members "width").getD .null) with
    | error got => rw [hw] at h; cases h
    | ok w =>
        simp only [hw] at h
        split at h
        · cases h
        · -- the width is within bounds, so its text is what stands there
          obtain ⟨x, hx, hi⟩ := widthOf_eq_ok_iff.mp hw
          obtain ⟨t, s₁⟩ := r
          obtain ⟨hslice, rfl⟩ := sliceOf_eq_ok_iff.mp h
          obtain ⟨hlen, hat⟩ := Text.at_of_slice? hslice
          have hw : w = t.length := by omega
          exact ⟨x, t, hx, hw ▸ hi, hat, rfl⟩
  · rintro ⟨x, t, hx, hi, hat, rfl⟩
    have hle := (Text.at_iff.mp hat).1
    rw [widthOf_eq_ok_iff.mpr ⟨x, hx, hi⟩]
    dsimp only
    rw [if_neg (by unfold Context.left; omega)]
    exact sliceOf_eq_ok_iff.mpr ⟨hat, rfl⟩

/-- A text is built when the members specify it and it stands in the source. -/
theorem textOf_eq_ok_iff {members : List (String × Json)} {r : Text × Supply} :
    textOf ctx path kind members o s = .ok r ↔
      ∃ spec t, TextSpec.Given members spec ∧ spec.Allows t ∧ ctx.source.At o t ∧ r = (t, s) := by
  constructor
  · intro h
    match hu : Json.member? members "text" with
    | some (.str u) =>
        obtain ⟨hat, rfl⟩ := (textOf_text hu).mp h
        exact ⟨_, _, .text hu, rfl, hat, rfl⟩
    | none =>
        obtain ⟨x, t, hx, hi, hat, rfl⟩ := (textOf_width hu).mp h
        exact ⟨_, t, .width hu hx hi, rfl, hat, rfl⟩
    | some .null | some (.bool _) | some (.number _) | some (.arr _) | some (.obj _) =>
        simp only [textOf, hu] at h
        cases h
  · rintro ⟨spec, t, hgiven, hspec, hat, rfl⟩
    cases hgiven with
    | text hu => cases hspec; exact (textOf_text hu).mpr ⟨hat, rfl⟩
    | width hu hx hi => cases hspec; exact (textOf_width hu).mpr ⟨_, t, hx, hi, hat, rfl⟩

/-! ### Trivia -/

/-- A piece of trivia is built when the value describes it and its text stands in the source. -/
theorem triviaOf_eq_ok_iff {v : Json} {r : Trivia × Supply} :
    triviaOf ctx path kind v o s = .ok r ↔
      ∃ k spec t, DescribesTrivia ctx.catalog v (k, spec) ∧ spec.Allows t ∧ ctx.source.At o t ∧
        r = (⟨k, t⟩, s) := by
  constructor
  · intro h
    cases v with
    | obj members =>
        match hk : Json.member? members "kind" with
        | some (.str k) =>
            simp only [triviaOf, hk, Option.getD_some] at h
            split at h
            · next hc =>
                obtain ⟨t, s₁, ht, hr⟩ := Make.bind_eq_ok.mp h
                obtain ⟨spec, u, hgiven, hspec, hat, hu⟩ := textOf_eq_ok_iff.mp ht
                cases hu
                cases hr
                exact ⟨k, spec, t, .intro hk hc hgiven, hspec, hat, rfl⟩
            · cases h
        | none | some .null | some (.bool _) | some (.number _) | some (.arr _)
        | some (.obj _) =>
            simp only [triviaOf, hk] at h
            cases h
    | _ => cases h
  · rintro ⟨k, spec, t, hd, hspec, hat, rfl⟩
    cases hd with
    | intro hk hc hgiven =>
        simp only [triviaOf, hk, Option.getD_some, hc, if_true]
        exact Make.bind_eq_ok.mpr ⟨t, s, textOf_eq_ok_iff.mpr ⟨spec, t, hgiven, hspec, hat, rfl⟩, rfl⟩

/-- Pieces of trivia of the kinds that are asked for, whose texts are read from an offset on. -/
inductive ReadsTrivia (source : Text) : Nat → List (String × TextSpec) → List Trivia → Prop where
  | nil {o : Nat} : ReadsTrivia source o [] []
  | cons {o : Nat} {k : String} {spec : TextSpec} {specs : List (String × TextSpec)} {t : Text}
      {ts : List Trivia} (hspec : spec.Allows t) (hat : source.At o t)
      (hrest : ReadsTrivia source (o + t.length) specs ts) :
      ReadsTrivia source o ((k, spec) :: specs) (⟨k, t⟩ :: ts)

namespace ReadsTrivia

variable {source : Text} {specs : List (String × TextSpec)} {ts : List Trivia}

theorem kinds (h : ReadsTrivia source o specs ts) : ts.map (·.kind) = specs.map (·.1) := by
  induction h with
  | nil => rfl
  | cons _ _ _ ih => simp [ih]

theorem reads (h : ReadsTrivia source o specs ts) :
    Reads source o (specs.map (·.2)) (ts.map (·.text)) := by
  induction h with
  | nil => exact .nil
  | cons hspec hat _ ih => exact .cons hspec hat ih

/-- Texts that are read become trivia of the kinds that are asked for. -/
theorem of_reads {texts : List Text} (h : Reads source o (specs.map (·.2)) texts) :
    ∃ ts, ReadsTrivia source o specs ts ∧ ts.map (·.text) = texts := by
  induction specs generalizing o texts with
  | nil => cases h; exact ⟨[], .nil, rfl⟩
  | cons p specs ih =>
      cases h with
      | @cons _ _ _ t texts hspec hat hrest =>
          obtain ⟨ts, hts, rfl⟩ := ih hrest
          exact ⟨⟨p.1, t⟩ :: ts, .cons hspec hat hts, rfl⟩

end ReadsTrivia

theorem triviaItems_eq_ok_iff {items : List Json} {i : Nat} {r : (List Trivia × Nat) × Supply} :
    triviaItems ctx path kind i items o s = .ok r ↔
      ∃ specs ts, List.Forall₂ (DescribesTrivia ctx.catalog) items specs ∧
        ReadsTrivia ctx.source o specs ts ∧ r = ((ts, o + triviaWidth ts), s) := by
  -- the place of the next piece is where the text of the last one ends
  induction items generalizing i o r with
  | nil =>
      constructor
      · intro h
        cases h
        exact ⟨[], [], .nil, .nil, rfl⟩
      · rintro ⟨specs, ts, hspecs, hts, rfl⟩
        cases hspecs
        cases hts
        rfl
  | cons v items ih =>
      have hwidth : ∀ (k : String) (t : Text) (ts : List Trivia),
          o + triviaWidth (⟨k, t⟩ :: ts) = o + t.length + triviaWidth ts := by
        intro k t ts
        simp [triviaWidth, Nat.add_assoc]
      rw [triviaItems, Make.bind_eq_ok]
      constructor
      · rintro ⟨t, s₁, ht, h⟩
        obtain ⟨k, spec, u, hd, hspec, hat, he⟩ := triviaOf_eq_ok_iff.mp ht
        cases he
        obtain ⟨⟨ts, stop⟩, s₂, hts, hr⟩ := Make.bind_eq_ok.mp h
        obtain ⟨specs, ts', hspecs, hread, he⟩ := ih.mp hts
        cases he
        cases hr
        exact ⟨_, _, .cons hd hspecs, .cons hspec hat hread, by rw [hwidth]⟩
      · rintro ⟨specs, ts, hspecs, hts, rfl⟩
        cases hspecs with
        | cons hd hspecs =>
            cases hts with
            | @cons _ k spec specs t ts hspec hat hrest =>
                rw [hwidth]
                refine ⟨_, s, triviaOf_eq_ok_iff.mpr ⟨k, spec, t, hd, hspec, hat, rfl⟩, ?_⟩
                exact Make.bind_eq_ok.mpr ⟨_, s, ih.mpr ⟨_, ts, hspecs, hrest, rfl⟩, rfl⟩

/-- The trivia under a key are built when the body describes them and their texts are read. -/
theorem triviaList_eq_ok_iff {body : List (String × Json)} {key : String}
    {r : (List Trivia × Nat) × Supply} :
    triviaList ctx path kind body key o s = .ok r ↔
      ∃ specs ts, DescribesTriviaAt ctx.catalog body key specs ∧
        ReadsTrivia ctx.source o specs ts ∧ r = ((ts, o + triviaWidth ts), s) := by
  constructor
  · intro h
    match hm : Json.member? body key with
    | none =>
        simp only [triviaList, hm, Option.getD_none] at h
        cases h
        exact ⟨[], [], .absent hm, .nil, rfl⟩
    | some .null =>
        simp only [triviaList, hm, Option.getD_some] at h
        cases h
        exact ⟨[], [], .null hm, .nil, rfl⟩
    | some (.arr items) =>
        simp only [triviaList, hm, Option.getD_some] at h
        obtain ⟨specs, ts, hspecs, hts, rfl⟩ := triviaItems_eq_ok_iff.mp h
        exact ⟨specs, ts, .array hm hspecs, hts, rfl⟩
    | some (.bool _) | some (.number _) | some (.str _) | some (.obj _) =>
        simp only [triviaList, hm] at h
        cases h
  · rintro ⟨specs, ts, hd, hts, rfl⟩
    unfold triviaList
    cases hd with
    | absent hm => cases hts; rw [hm]; rfl
    | null hm => cases hts; rw [hm]; rfl
    | array hm hspecs =>
        rw [hm]
        exact triviaItems_eq_ok_iff.mpr ⟨_, ts, hspecs, hts, rfl⟩

/-! ### Realizing a description -/

/-- A sound node with the outline of a description, whose texts are read from `o` on. -/
structure Realizes (ctx : Context) (o : Nat) (d : Description TextSpec) (n : Node) : Prop where
  outline : n.description.outline = d.outline
  reads : Reads ctx.source o d.leaves n.description.leaves
  sound : n.Sound (· ∈ ctx.catalog.kinds)

/-- Nodes that realize one description each, one behind the other. -/
structure RealizesAll (ctx : Context) (o : Nat) (ds : List (Description TextSpec))
    (ns : List Node) : Prop where
  outline : Description.outlineAll (Node.descriptionAll ns) = Description.outlineAll ds
  reads : Reads ctx.source o (Description.leavesAll ds) (Node.leavesAll ns)
  sound : ∀ n ∈ ns, n.Sound (· ∈ ctx.catalog.kinds)

namespace Realizes

variable {id : Nat} {d : Description TextSpec} {ds : List (Description TextSpec)}
  {n : Node} {ns : List Node}

theorem missing : Realizes ctx o .missing .missing := ⟨rfl, .nil, .missing⟩

theorem token {k : String} {leading trailing : List (String × TextSpec)} {spec : TextSpec}
    {l r : List Trivia} {t : Text} (hl : ReadsTrivia ctx.source o leading l) (hspec : spec.Allows t)
    (hat : ctx.source.At (o + triviaWidth l) t)
    (hr : ReadsTrivia ctx.source (o + triviaWidth l + t.length) trailing r) :
    Realizes ctx o (.token k leading spec trailing)
      (.token ⟨id, k, l, t, r, triviaWidth l + t.length + triviaWidth r⟩) where
  outline := by
    have map_kinds : ∀ {specs : List (String × TextSpec)} {ts : List Trivia},
        ts.map (·.kind) = specs.map (·.1) →
          ts.map (fun x => (x.kind, ())) = specs.map (fun p => (p.1, ())) := by
      intro specs ts h
      simpa [List.map_map, Function.comp_def] using congrArg (List.map (·, ())) h
    simp [Node.description, Description.outline, Function.comp_def, map_kinds hl.kinds,
      map_kinds hr.kinds]
  reads := by
    have hw : (l.map (·.text)).flatten.length = triviaWidth l := (triviaWidth_eq l).symm
    have := hl.reads.append (.cons hspec (hw ▸ hat) (by rw [hw]; exact hr.reads))
    simpa [Node.description, Description.leaves, Function.comp_def] using this
  sound := .token (by
    simp only [Token.fullText, Token.leadingText, Token.trailingText, triviaWidth_eq,
      List.length_append])

theorem cons (h : Realizes ctx o d n) (hs : RealizesAll ctx (o + n.width) ds ns) :
    RealizesAll ctx o (d :: ds) (n :: ns) where
  outline := by
    simp only [Node.descriptionAll, Description.outlineAll, h.outline, hs.outline]
  reads := h.reads.append (h.sound.width_eq_leaves ▸ hs.reads)
  sound := by
    intro m hm
    rcases List.mem_cons.mp hm with rfl | hm
    · exact h.sound
    · exact hs.sound m hm

theorem list (h : RealizesAll ctx o ds ns) :
    Realizes ctx o (.list ds) (.list id ns (Node.totalWidth ns)) where
  outline := congrArg Description.list h.outline
  reads := h.reads
  sound := .list h.sound

theorem composite {k : Kind} (hK : k ∈ ctx.catalog.kinds) (hk : ns.length = k.arity)
    (h : RealizesAll ctx o ds ns) :
    Realizes ctx o (.composite k ds) (.composite id k ns (Node.totalWidth ns)) where
  outline := congrArg (Description.composite k) h.outline
  reads := h.reads
  sound := .composite hK hk h.sound

end Realizes

theorem RealizesAll.nil : RealizesAll ctx o [] [] := ⟨rfl, .nil, nofun⟩

/-! ### Tokens -/

/-- A token that is built realizes what the members describe. -/
theorem tokenOf_realizes {members : List (String × Json)} {t : Token}
    (h : tokenOf ctx path members o s = .ok (t, s')) :
    ∃ d, DescribesToken ctx.catalog members d ∧ Realizes ctx o d (.token t) := by
  match hbody : Json.member? members "token" with
  | some (.obj body) =>
      match hkind : Json.member? body "kind" with
      | some (.str k) =>
          simp only [tokenOf, hbody, hkind, Option.getD_some] at h
          split at h
          · next hc =>
              -- leading trivia, text and trailing trivia are read one after the other
              obtain ⟨_, _, hfirst, h₁⟩ := Make.bind_eq_ok.mp h
              obtain ⟨leading, l, hleading, hl, he⟩ := triviaList_eq_ok_iff.mp hfirst
              cases he
              obtain ⟨_, _, hmiddle, h₂⟩ := Make.bind_eq_ok.mp h₁
              obtain ⟨spec, u, hgiven, hspec, hat, he⟩ := textOf_eq_ok_iff.mp hmiddle
              cases he
              obtain ⟨_, _, hlast, h₃⟩ := Make.bind_eq_ok.mp h₂
              obtain ⟨trailing, r, htrailing, hr, he⟩ := triviaList_eq_ok_iff.mp hlast
              cases he
              cases h₃
              exact ⟨_, .intro hbody hkind hc hleading hgiven htrailing, .token hl hspec hat hr⟩
          · cases h
      | none | some .null | some (.bool _) | some (.number _) | some (.arr _) | some (.obj _) =>
          simp only [tokenOf, hbody, hkind] at h
          cases h
  | none | some .null | some (.bool _) | some (.number _) | some (.str _) | some (.arr _) =>
      simp only [tokenOf, hbody] at h
      cases h

/-- A token is built when the members describe it and its texts are read. -/
theorem tokenOf_of_describes {members : List (String × Json)} {d : Description TextSpec}
    {texts : List Text} (hd : DescribesToken ctx.catalog members d)
    (hr : Reads ctx.source o d.leaves texts) (s : Supply) :
    ∃ t s', tokenOf ctx path members o s = .ok (t, s') ∧ Realizes ctx o d (.token t) ∧
      (Node.token t).description.leaves = texts := by
  cases hd with
  | @intro body k spec leading trailing hbody hkind hc hleading hgiven htrailing =>
      obtain ⟨texts₁, texts₂, rfl, h₁, h₂⟩ := Reads.of_append hr
      cases h₂ with
      | @cons _ _ _ u texts₂ hspec hat hrest =>
          obtain ⟨l, hl, rfl⟩ := ReadsTrivia.of_reads h₁
          obtain ⟨r, htr, rfl⟩ := ReadsTrivia.of_reads hrest
          have hw : (l.map (·.text)).flatten.length = triviaWidth l := (triviaWidth_eq l).symm
          rw [hw] at hat htr
          refine ⟨⟨s, k, l, u, r, triviaWidth l + u.length + triviaWidth r⟩, s + 1, ?_,
            .token hl hspec hat htr, ?_⟩
          · simp only [tokenOf, hbody, hkind, Option.getD_some, hc, if_true]
            refine Make.bind_eq_ok.mpr
              ⟨_, s, triviaList_eq_ok_iff.mpr ⟨leading, l, hleading, hl, rfl⟩, ?_⟩
            refine Make.bind_eq_ok.mpr
              ⟨u, s, textOf_eq_ok_iff.mpr ⟨spec, u, hgiven, hspec, hat, rfl⟩, ?_⟩
            exact Make.bind_eq_ok.mpr
              ⟨_, s, triviaList_eq_ok_iff.mpr ⟨trailing, r, htrailing, htr, rfl⟩, rfl⟩
          · simp [Node.description, Description.leaves, Function.comp_def]

/-! ### Nodes -/

theorem making_eq_ok_iff {α : Type} {m : Make NodeError α} {r : α × Supply} :
    making ctx path kind o m s = .ok r ↔ m s = .ok r := by
  unfold making
  split
  · next r' hr => rw [hr]; exact ⟨fun h => by cases h; rfl, fun h => by cases h; rfl⟩
  · next e he => rw [he]; exact ⟨nofun, nofun⟩

theorem listOf_apply (ns : List Node) (s : Supply) :
    listOf ctx path o ns s = .ok (.list s ns (Node.totalWidth ns), s + 1) :=
  Make.bind_eq_ok.mpr
    ⟨_, _, making_eq_ok_iff.mpr (NodeList.make_eq_ok_iff.mpr ⟨ns, rfl, rfl, rfl⟩), rfl⟩

theorem compositeOf_apply {k : Kind} {ns : List Node} (h : ns.length = k.arity) (s : Supply) :
    compositeOf ctx path k o ns s = .ok (.composite s k ns (Node.totalWidth ns), s + 1) :=
  Make.bind_eq_ok.mpr
    ⟨_, _, making_eq_ok_iff.mpr (Composite.make_eq_ok_iff.mpr ⟨k, ns, rfl, rfl, h, rfl, rfl⟩), rfl⟩

section Equations

variable {members : List (String × Json)}

theorem nodeOf_missing (hkind : Json.member? members "kind" = some (.str "missing")) :
    nodeOf ctx path (.obj members) o = pure .missing := by
  rw [nodeOf, hkind]
  rfl

theorem nodeOf_token (hkind : Json.member? members "kind" = some (.str "token")) :
    nodeOf ctx path (.obj members) o =
      (do return .token (← tokenOf ctx path members o) : Builder Node) := by
  rw [nodeOf, hkind]
  rfl

theorem nodeOf_list {items : List Json}
    (hkind : Json.member? members "kind" = some (.str "list"))
    (hitems : Json.member? members "elements" = some (.arr items)) :
    nodeOf ctx path (.obj members) o = (do
      let nodes ← elementsOf ctx (path ++ [.key "elements"]) 0 items o
      listOf ctx path (o + Node.totalWidth nodes) nodes : Builder Node) := by
  rw [nodeOf, hkind]
  dsimp only
  rw [if_neg (by decide), if_neg (by decide), if_pos rfl]
  split
  · next items' h => cases h.symm.trans hitems; rfl
  · next h => exact absurd hitems (h items)

theorem nodeOf_composite {name : String} {k : Kind}
    (hkind : Json.member? members "kind" = some (.str name)) (hname : name ∉ reservedKinds)
    (hk : ctx.catalog.kind? name = some k) :
    nodeOf ctx path (.obj members) o = (do
      let nodes ← slotsOf ctx path k.name members k.slots o
      compositeOf ctx path k (o + Node.totalWidth nodes) nodes : Builder Node) := by
  simp only [reservedKinds, List.mem_cons, List.not_mem_nil, or_false, not_or] at hname
  rw [nodeOf, hkind]
  dsimp only
  rw [if_neg hname.1, if_neg hname.2.1, if_neg hname.2.2, hk]

theorem slotsOf_cons {slot : Slot} {slots : List Slot} {v : Json}
    (hv : Json.member? members slot.key = some v) :
    slotsOf ctx path kind members (slot :: slots) o = (do
      let n ← nodeOf ctx (path ++ [.key slot.key]) v o
      return n :: (← slotsOf ctx path kind members slots (o + n.width)) : Builder (List Node)) := by
  rw [slotsOf]
  split
  · next h => cases h.symm.trans hv
  · next v' h => cases h.symm.trans hv; rfl

/-- Building fails at once on a value that is no description. -/
theorem nodeOf_of_misshapen {v : Json} {kind : String} {reason : MalformedReason}
    (h : Misshapen ctx.catalog v kind reason) :
    nodeOf ctx path v o = fail ctx path kind o reason := by
  cases h with
  | notObject h =>
      cases v with
      | obj members => exact absurd rfl (h members)
      | _ =>
          rw [nodeOf]
          rintro members ⟨⟩
  | noKind h =>
      rw [nodeOf]
      split
      · next name hname => exact absurd hname (h name)
      · rfl
  | unknownKind hkind hname h =>
      simp only [reservedKinds, List.mem_cons, List.not_mem_nil, or_false, not_or] at hname
      rw [nodeOf, hkind]
      dsimp only
      rw [if_neg hname.1, if_neg hname.2.1, if_neg hname.2.2, h]
  | noElements hkind h =>
      rw [nodeOf, hkind]
      dsimp only
      rw [if_neg (by decide), if_neg (by decide), if_pos rfl]
      split
      · next items hitems => exact absurd hitems (h items)
      · rfl

theorem slotsOf_none {slot : Slot} {slots : List Slot}
    (hv : Json.member? members slot.key = none) :
    slotsOf ctx path kind members (slot :: slots) o =
      fail ctx path kind o (.missingKey slot.key) := by
  rw [slotsOf]
  split
  · rfl
  · next v h => cases h.symm.trans hv

end Equations

mutual
/-- A node that is built realizes a description of its value. -/
theorem nodeOf_realizes (ctx : Context) (path : ValuePath) (v : Json) (o : Nat)
    {s s' : Supply} {n : Node} (h : nodeOf ctx path v o s = .ok (n, s')) :
    ∃ d, Describes ctx.catalog v d ∧ Realizes ctx o d n := by
  rcases misshapen_or_formed ctx.catalog v with
    ⟨kind, reason, hf⟩ | ⟨members, name, hv, hkind, hform⟩
  · rw [nodeOf_of_misshapen hf] at h
    cases h
  have hsize : sizeOf members < sizeOf v := by rw [hv]; simp
  rw [hv] at h ⊢
  -- one case for each form, along the equations of the builder
  rcases hform with rfl | rfl | ⟨rfl, items, hitems⟩ | ⟨hname, k, hk⟩
  · rw [nodeOf_missing hkind] at h
    cases h
    exact ⟨_, .missing hkind, .missing⟩
  · rw [nodeOf_token hkind] at h
    obtain ⟨t, s₁, ht, hr⟩ := Make.bind_eq_ok.mp h
    obtain ⟨d, hd, hreal⟩ := tokenOf_realizes ht
    cases hr
    exact ⟨d, .token hkind hd, hreal⟩
  · rw [nodeOf_list hkind hitems] at h
    have := Json.sizeOf_items hitems
    obtain ⟨ns, s₁, hns, hr⟩ := Make.bind_eq_ok.mp h
    obtain ⟨ds, hds, hreal⟩ := elementsOf_realizes ctx _ 0 items o hns
    rw [listOf_apply] at hr
    cases hr
    exact ⟨_, .list hkind hitems hds, .list hreal⟩
  · rw [nodeOf_composite hkind hname hk] at h
    obtain ⟨ns, s₁, hns, hr⟩ := Make.bind_eq_ok.mp h
    obtain ⟨hlen, ds, hds, hreal⟩ := slotsOf_realizes ctx path _ members _ o hns
    rw [compositeOf_apply hlen] at hr
    cases hr
    exact ⟨_, .composite hkind hname hk hds, .composite (List.mem_of_find?_eq_some hk) hlen hreal⟩
termination_by (sizeOf v, 0)

/-- The children that are built for the slots realize descriptions under their keys. -/
theorem slotsOf_realizes (ctx : Context) (path : ValuePath) (kind : String)
    (members : List (String × Json)) (slots : List Slot) (o : Nat) {s s' : Supply}
    {ns : List Node} (h : slotsOf ctx path kind members slots o s = .ok (ns, s')) :
    ns.length = slots.length ∧
      ∃ ds, DescribesSlots ctx.catalog members slots ds ∧ RealizesAll ctx o ds ns := by
  match slots with
  | [] =>
      rw [slotsOf] at h
      cases h
      exact ⟨rfl, [], .nil, .nil⟩
  | slot :: slots =>
      match hv : Json.member? members slot.key with
      | none =>
          rw [slotsOf_none hv] at h
          cases h
      | some v =>
          -- a member is smaller than its object, which is what the recursion ends on
          have := Json.sizeOf_member? hv
          rw [slotsOf_cons hv] at h
          obtain ⟨n, s₁, hn, h₁⟩ := Make.bind_eq_ok.mp h
          obtain ⟨d, hd, hreal⟩ := nodeOf_realizes ctx _ v o hn
          obtain ⟨ns', s₂, hns, h₂⟩ := Make.bind_eq_ok.mp h₁
          obtain ⟨hlen, ds, hds, hreals⟩ := slotsOf_realizes ctx path kind members slots _ hns
          cases h₂
          exact ⟨congrArg (· + 1) hlen, d :: ds, .cons hv hd hds, hreal.cons hreals⟩
termination_by (sizeOf members, slots.length)

/-- The items that are built for the elements realize descriptions of them. -/
theorem elementsOf_realizes (ctx : Context) (path : ValuePath) (i : Nat) (items : List Json)
    (o : Nat) {s s' : Supply} {ns : List Node}
    (h : elementsOf ctx path i items o s = .ok (ns, s')) :
    ∃ ds, DescribesAll ctx.catalog items ds ∧ RealizesAll ctx o ds ns := by
  match items with
  | [] =>
      rw [elementsOf] at h
      cases h
      exact ⟨[], .nil, .nil⟩
  | v :: items =>
      rw [elementsOf] at h
      obtain ⟨n, s₁, hn, h₁⟩ := Make.bind_eq_ok.mp h
      obtain ⟨d, hd, hreal⟩ := nodeOf_realizes ctx _ v o hn
      obtain ⟨ns', s₂, hns, h₂⟩ := Make.bind_eq_ok.mp h₁
      obtain ⟨ds, hds, hreals⟩ := elementsOf_realizes ctx path (i + 1) items _ hns
      cases h₂
      exact ⟨d :: ds, .cons hd hds, hreal.cons hreals⟩
termination_by (sizeOf items, 0)
end

mutual
/-- A node is built when its value describes a tree whose texts are read. -/
theorem nodeOf_of_describes {ctx : Context} :
    ∀ {v : Json} {d : Description TextSpec}, Describes ctx.catalog v d →
      ∀ {o : Nat} {texts : List Text}, Reads ctx.source o d.leaves texts →
      ∀ (path : ValuePath) (s : Supply), ∃ n s', nodeOf ctx path v o s = .ok (n, s') ∧
        Realizes ctx o d n ∧ n.description.leaves = texts
  | _, _, .missing hkind, _, _, hr, path, s => by
      cases hr
      exact ⟨.missing, s, by rw [nodeOf_missing hkind]; rfl, .missing, rfl⟩
  | _, _, .token hkind htoken, _, _, hr, path, s => by
      obtain ⟨t, s', ht, hreal, htexts⟩ := tokenOf_of_describes htoken hr s
      refine ⟨.token t, s', ?_, hreal, htexts⟩
      rw [nodeOf_token hkind]
      exact Make.bind_eq_ok.mpr ⟨t, s', ht, rfl⟩
  | _, _, .list hkind hitems hds, _, _, hr, path, s => by
      obtain ⟨ns, s', hns, hreal, htexts⟩ := elementsOf_of_describes hds hr _ 0 s
      refine ⟨.list s' ns (Node.totalWidth ns), s' + 1, ?_, .list hreal, htexts⟩
      rw [nodeOf_list hkind hitems]
      exact Make.bind_eq_ok.mpr ⟨ns, s', hns, listOf_apply ns s'⟩
  | _, _, .composite (k := k) hkind hname hk hds, _, _, hr, path, s => by
      obtain ⟨ns, s', hns, hlen, hreal, htexts⟩ := slotsOf_of_describes hds hr path k.name s
      refine ⟨.composite s' k ns (Node.totalWidth ns), s' + 1, ?_,
        .composite (List.mem_of_find?_eq_some hk) hlen hreal, htexts⟩
      rw [nodeOf_composite hkind hname hk]
      exact Make.bind_eq_ok.mpr ⟨ns, s', hns, compositeOf_apply hlen s'⟩

@[inherit_doc nodeOf_of_describes]
theorem elementsOf_of_describes {ctx : Context} :
    ∀ {items : List Json} {ds : List (Description TextSpec)}, DescribesAll ctx.catalog items ds →
      ∀ {o : Nat} {texts : List Text}, Reads ctx.source o (Description.leavesAll ds) texts →
      ∀ (path : ValuePath) (i : Nat) (s : Supply),
        ∃ ns s', elementsOf ctx path i items o s = .ok (ns, s') ∧
          RealizesAll ctx o ds ns ∧ Node.leavesAll ns = texts
  | _, _, .nil, _, _, hr, path, i, s => by
      cases hr
      exact ⟨[], s, by rw [elementsOf]; rfl, .nil, rfl⟩
  | _, _, .cons hd hds, o, _, hr, path, i, s => by
      obtain ⟨texts₁, texts₂, rfl, hr₁, hr₂⟩ := Reads.of_append hr
      obtain ⟨n, s₁, hn, hreal, rfl⟩ := nodeOf_of_describes hd hr₁ (path ++ [.index i]) s
      -- the offset of the other items: the width of `n` is the length of the texts that it read
      rw [← hreal.sound.width_eq_leaves] at hr₂
      obtain ⟨ns, s₂, hns, hreals, rfl⟩ := elementsOf_of_describes hds hr₂ path (i + 1) s₁
      refine ⟨n :: ns, s₂, ?_, hreal.cons hreals, rfl⟩
      rw [elementsOf]
      exact Make.bind_eq_ok.mpr ⟨n, s₁, hn, Make.bind_eq_ok.mpr ⟨ns, s₂, hns, rfl⟩⟩

@[inherit_doc nodeOf_of_describes]
theorem slotsOf_of_describes {ctx : Context} :
    ∀ {members : List (String × Json)} {slots : List Slot} {ds : List (Description TextSpec)},
      DescribesSlots ctx.catalog members slots ds →
      ∀ {o : Nat} {texts : List Text}, Reads ctx.source o (Description.leavesAll ds) texts →
      ∀ (path : ValuePath) (kind : String) (s : Supply),
        ∃ ns s', slotsOf ctx path kind members slots o s = .ok (ns, s') ∧
          ns.length = slots.length ∧ RealizesAll ctx o ds ns ∧ Node.leavesAll ns = texts
  | _, _, _, .nil, _, _, hr, path, kind, s => by
      cases hr
      exact ⟨[], s, by rw [slotsOf]; rfl, rfl, .nil, rfl⟩
  | _, _, _, .cons (s := slot) hv hd hds, o, _, hr, path, kind, s => by
      obtain ⟨texts₁, texts₂, rfl, hr₁, hr₂⟩ := Reads.of_append hr
      obtain ⟨n, s₁, hn, hreal, rfl⟩ := nodeOf_of_describes hd hr₁ (path ++ [.key slot.key]) s
      rw [← hreal.sound.width_eq_leaves] at hr₂
      obtain ⟨ns, s₂, hns, hlen, hreals, rfl⟩ := slotsOf_of_describes hds hr₂ path kind s₁
      refine ⟨n :: ns, s₂, ?_, congrArg (· + 1) hlen, hreal.cons hreals, rfl⟩
      rw [slotsOf_cons hv]
      exact Make.bind_eq_ok.mpr ⟨n, s₁, hn, Make.bind_eq_ok.mpr ⟨ns, s₂, hns, rfl⟩⟩
end

/-! ### Trees -/

theorem finish_eq_ok_iff {α : Type} {m : Builder α} (h : m.Inside) {r : α × Supply} :
    m.finish h s = .ok r ↔ m s = .ok r := by
  unfold Builder.finish
  split
  · next r' hm => rw [hm]; exact ⟨fun h => by cases h; rfl, fun h => by cases h; rfl⟩
  · next e hm => rw [hm]; exact ⟨nofun, nofun⟩
  · next start stop hm => exact absurd hm (h s start stop)

/-- A tree is built when the offset is one of the source and a node is built there. -/
theorem fromJson_eq_ok_iff {c : Catalog} {v : Json} {file : String} {offset : Int} {source : Text}
    {r : Node × Supply} :
    fromJson c v file offset source s = .ok r ↔
      (0 ≤ offset ∧ offset ≤ source.length) ∧
        nodeOf ⟨c, file, source⟩ [] v offset.toNat s = .ok r := by
  unfold fromJson
  split
  · next h => exact ⟨nofun, fun ⟨ho, _⟩ => by omega⟩
  · next h => rw [finish_eq_ok_iff]; exact ⟨fun hr => ⟨by omega, hr⟩, fun hr => hr.2⟩

/-- A tree that is built realizes a description of its value. -/
theorem fromJson_realizes {c : Catalog} {v : Json} {file : String} {offset : Int} {source : Text}
    {n : Node} {s' : Supply} (h : fromJson c v file offset source s = .ok (n, s')) :
    (0 ≤ offset ∧ offset ≤ source.length) ∧
      ∃ d, Describes c v d ∧ Realizes ⟨c, file, source⟩ offset.toNat d n := by
  obtain ⟨ho, hn⟩ := fromJson_eq_ok_iff.mp h
  exact ⟨ho, nodeOf_realizes _ _ v _ hn⟩

/-- A tree is built exactly from the values that describe one whose texts are read in the source. -/
theorem exists_fromJson_iff_matches {c : Catalog} {v : Json} {file : String} {offset : Int}
    {source : Text} {supply : Supply} :
    (∃ n supply', fromJson c v file offset source supply = .ok (n, supply')) ↔
      (0 ≤ offset ∧ offset ≤ source.length) ∧
        ∃ d, Describes c v d ∧ Matches source offset.toNat d.leaves := by
  constructor
  · rintro ⟨n, supply', h⟩
    obtain ⟨ho, d, hd, hreal⟩ := fromJson_realizes h
    exact ⟨ho, d, hd, matches_iff.mpr ⟨_, hreal.reads⟩⟩
  · rintro ⟨ho, d, hd, hmatch⟩
    obtain ⟨texts, hr⟩ := matches_iff.mp hmatch
    let ctx : Context := ⟨c, file, source⟩
    have hd : Describes ctx.catalog v d := hd
    obtain ⟨n, supply', hn, -, -⟩ := nodeOf_of_describes hd hr [] supply
    exact ⟨n, supply', fromJson_eq_ok_iff.mpr ⟨ho, hn⟩⟩

/-- The constructor accepts exactly the values that describe a tree whose flat list of texts and
widths matches the source from the offset on, and then gives the tree that is described: with the
same outline, and with the texts that are read in the source. -/
theorem fromJson_accepts_grammar (c : Catalog) (v : Json) (file : String) (offset : Int)
    (source : Text) (supply : Supply) :
    ((∃ n supply', fromJson c v file offset source supply = .ok (n, supply')) ↔
      (0 ≤ offset ∧ offset ≤ source.length) ∧
        ∃ d, Describes c v d ∧ Matches source offset.toNat d.leaves) ∧
    ∀ d n supply', Describes c v d → fromJson c v file offset source supply = .ok (n, supply') →
      n.description.outline = d.outline ∧
        Reads source offset.toNat d.leaves n.description.leaves := by
  refine ⟨exists_fromJson_iff_matches, ?_⟩
  intro d n supply' hd h
  obtain ⟨-, d', hd', hreal⟩ := fromJson_realizes h
  obtain rfl := hd.unique hd'
  exact ⟨hreal.outline, hreal.reads⟩

/-- The kind of phrases, which hold words. -/
def phraseKind : Kind := ⟨"phrase", "phrase", [⟨"words", "phrase_words", []⟩]⟩

/-- The catalog of phrases. -/
def phraseCatalog : Catalog := ⟨"Phrases", [], [phraseKind], ["word"], ["blank"]⟩

/-- Parser output for a phrase: one word by its text, behind a blank, and one by its width. -/
def phraseValue : Json :=
  .obj [("kind", .str "phrase"), ("phrase_words", .obj [("kind", .str "list"), ("elements", .arr [
    .obj [("kind", .str "token"), ("token", .obj [("kind", .str "word"), ("text", .str "ab"),
      ("leading", .arr [.obj [("kind", .str "blank"), ("text", .str " ")]]), ("trailing", .null)])],
    .obj [("kind", .str "token"), ("token", .obj [("kind", .str "word"),
      ("width", .number (.literal "3"))])]])])]

/-- What the phrase is described to be. -/
def phraseDescription : Description TextSpec :=
  .composite phraseKind [.list [.token "word" [("blank", .text " ")] (.text "ab") [],
    .token "word" [] (.width 3) []]]

theorem describes_phraseValue : Describes phraseCatalog phraseValue phraseDescription := by
  have hblank : DescribesTrivia phraseCatalog (.obj [("kind", .str "blank"), ("text", .str " ")])
      ("blank", .text " ") := .intro rfl rfl (.text rfl)
  have hthree : numeralInt? (.literal "3") = some 3 := rfl
  exact .composite rfl (by decide) rfl (.cons rfl (.list rfl rfl
    (.cons (.token rfl (.intro rfl rfl rfl (.array rfl (.cons hblank .nil)) (.text rfl) (.null rfl)))
    (.cons (.token rfl (.intro rfl rfl rfl (.absent rfl) (.width rfl rfl hthree) (.absent rfl)))
    .nil))) .nil)

/-- The phrase is built behind the first byte of a source that has room for it. -/
theorem fromJson_accepts_grammar_phrase :
    Describes phraseCatalog phraseValue phraseDescription ∧
    Matches "x ab cd." 1 phraseDescription.leaves ∧
    ∃ n supply', fromJson phraseCatalog phraseValue "a.phrase" 1 "x ab cd." Supply.start =
        .ok (n, supply') ∧
      n.description.outline = phraseDescription.outline ∧
      Reads "x ab cd." 1 phraseDescription.leaves n.description.leaves := by
  have hmatch : Matches "x ab cd." 1 phraseDescription.leaves :=
    ⟨rfl, rfl, by decide, by decide, trivial⟩
  obtain ⟨haccepts, hgives⟩ :=
    fromJson_accepts_grammar phraseCatalog phraseValue "a.phrase" 1 "x ab cd." Supply.start
  obtain ⟨n, supply', hn⟩ := haccepts.mpr ⟨by decide, _, describes_phraseValue, hmatch⟩
  exact ⟨describes_phraseValue, hmatch, n, supply', hn, hgives _ n supply' describes_phraseValue hn⟩

end Lossless.Parse
