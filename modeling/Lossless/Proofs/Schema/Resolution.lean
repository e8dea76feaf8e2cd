import Lossless.Proofs.Schema.Acceptance
import Lossless.Proofs.Text.Rune

/-!
# Schema — where references lead

A reference to a definition is written as the fragment of an address with the name of the definition
at its end.  To follow it, the fragment is decoded, split at slashes into tokens, and each token is
read as a key.  The name is not encoded when the reference is written, so it has to come through all
three steps as it is.

* **A name is found as it stands** (`keys_own_iff`) if and only if it is free of escapes
  (`EscapeFree`).  Each step makes a text shorter unless it leaves it alone (`unescape_length`,
  `keyOf_length`), so a name cannot come out as itself when some byte of it was decoded.
* Where the keys of a definition come out, the definition is what the tokens pick in the JSON form
  (`pick_definition`), so the reference leads there (`leadsTo_own_iff`), and to nothing else
  (`LeadsTo.unique`).
* The references that a JSON form has somewhere in it (`Json.RefersTo`) are those of its schemas, with
  one lemma for every form.  A property is no reference, whatever its key (`refersTo_props`).
-/

namespace Lossless

namespace Reference

variable {t u : Text} {digit new : UInt8}

/-! ### Decoding -/

/-- Bytes that are not decoded can be put in front. -/
theorem unescape_append {p : Text} (h : percent ∉ p) (t : Text) :
    unescape (p ++ t) = (unescape t).map (p ++ ·) := by
  induction p with
  | nil =>
      cases ht : unescape t with
      | error e => rw [List.nil_append, ht]; rfl
      | ok u => rw [List.nil_append, ht]; rfl
  | cons b p ih =>
      obtain ⟨hb, hp⟩ := not_or.mp (List.mem_cons.not.mp h)
      rw [List.cons_append, unescape.eq_def]
      dsimp only
      rw [if_pos (Ne.symm hb), ih hp]
      cases unescape t <;> rfl

theorem unescape_of_plain (h : percent ∉ t) : unescape t = .ok t := by
  have hfront := unescape_append h []
  rw [List.append_nil, unescape] at hfront
  rw [hfront, Except.map, List.append_nil]

theorem map_eq_ok {α β ε : Type} {f : α → β} {x : Except ε α} {b : β} :
    x.map f = .ok b ↔ ∃ a, x = .ok a ∧ f a = b := by
  cases x with
  | error e => exact iff_of_false nofun nofun
  | ok a =>
      constructor
      · rintro ⟨⟩
        exact ⟨a, rfl, rfl⟩
      · rintro ⟨_, ⟨⟩, rfl⟩
        rfl

/-- Decoding makes a text shorter, unless there is nothing to decode. -/
theorem unescape_length (h : unescape t = .ok u) :
    u.length ≤ t.length ∧ (u.length = t.length → percent ∉ t) := by
  fun_induction unescape t generalizing u with
  | case1 =>
      cases h
      simp
  | case2 b rest hb ih =>
      obtain ⟨v, hv, rfl⟩ := map_eq_ok.mp h
      obtain ⟨hle, hplain⟩ := ih hv
      refine ⟨Nat.succ_le_succ hle, fun heq => ?_⟩
      exact List.not_mem_cons_of_ne_of_not_mem (Ne.symm hb) (hplain (Nat.succ.inj heq))
  | case3 b hb x y more high low hlow hhigh ih =>
      -- three bytes become one
      obtain ⟨v, hv, rfl⟩ := map_eq_ok.mp h
      obtain ⟨hle, -⟩ := ih hv
      simp only [List.length_cons]
      exact ⟨by omega, by omega⟩
  | case4 => cases h
  | case5 => cases h

theorem replaceTilde_of_plain (h : ¬[tilde, digit] <:+: t) : replaceTilde digit new t = t := by
  fun_induction replaceTilde digit new t with
  | case1 => rfl
  | case2 => rfl
  | case3 b c rest hbc ih =>
      obtain ⟨hb, hc⟩ : b = tilde ∧ c = digit := by simpa using hbc
      exact absurd (hb ▸ hc ▸ (List.prefix_append [b, c] rest).isInfix) h
  | case4 b c rest hbc ih => rw [ih fun hrest => h (List.infix_cons hrest)]

/-- Replacing makes a text shorter, unless there is nothing to replace. -/
theorem replaceTilde_length (digit new : UInt8) (t : Text) :
    (replaceTilde digit new t).length ≤ t.length ∧
      ((replaceTilde digit new t).length = t.length → ¬[tilde, digit] <:+: t) := by
  fun_induction replaceTilde digit new t with
  | case1 => simp
  | case2 b => simp [List.infix_cons_iff]
  | case3 b c rest hbc ih =>
      -- two bytes become one
      simp only [List.length_cons]
      exact ⟨by omega, by omega⟩
  | case4 b c rest hbc ih =>
      refine ⟨Nat.succ_le_succ ih.1, fun heq hinfix => ?_⟩
      rcases List.infix_cons_iff.mp hinfix with hfront | hrest
      · obtain ⟨hb, hc⟩ : tilde = b ∧ digit = c := by simpa using hfront
        exact hbc (by simp [hb, hc])
      · exact ih.2 (Nat.succ.inj heq) hrest

/-- What is found as it stands when it is a token of a reference: no byte of it is decoded. -/
structure EscapeFree (t : Text) : Prop where
  percent : percent ∉ t
  slash : slash ∉ t
  zero : ¬[tilde, 48] <:+: t
  one : ¬[tilde, 49] <:+: t

theorem infix_append_iff {p : Text} (h : tilde ∉ p) :
    [tilde, digit] <:+: p ++ t ↔ [tilde, digit] <:+: t := by
  induction p with
  | nil => rfl
  | cons b p ih =>
      obtain ⟨hb, hp⟩ := not_or.mp (List.mem_cons.not.mp h)
      rw [List.cons_append, List.infix_cons_iff, ih hp, List.cons_prefix_cons]
      exact or_iff_right fun hfront => hb hfront.1

theorem EscapeFree.of_notMem (hpercent : Reference.percent ∉ t) (hslash : Reference.slash ∉ t)
    (htilde : tilde ∉ t) : EscapeFree t :=
  ⟨hpercent, hslash, fun h => htilde (h.subset (.head _)), fun h => htilde (h.subset (.head _))⟩

/-- Bytes that mark no escape can be put in front. -/
theorem escapeFree_append {p : Text} (hpercent : Reference.percent ∉ p) (hslash : Reference.slash ∉ p)
    (htilde : tilde ∉ p) : EscapeFree (p ++ t) ↔ EscapeFree t := by
  constructor
  · rintro ⟨hp, hs, hzero, hone⟩
    exact ⟨fun h => hp (List.mem_append_right _ h), fun h => hs (List.mem_append_right _ h),
      (infix_append_iff htilde).not.mp hzero, (infix_append_iff htilde).not.mp hone⟩
  · rintro ⟨hp, hs, hzero, hone⟩
    exact ⟨fun h => (List.mem_append.mp h).elim hpercent hp,
      fun h => (List.mem_append.mp h).elim hslash hs,
      (infix_append_iff htilde).not.mpr hzero, (infix_append_iff htilde).not.mpr hone⟩

theorem keyOf_of_plain (hzero : ¬[tilde, 48] <:+: t) (hone : ¬[tilde, 49] <:+: t) : keyOf t = t := by
  rw [keyOf, replaceTilde_of_plain hone, replaceTilde_of_plain hzero]

/-- A key is shorter than its token, unless it is the token. -/
theorem keyOf_length :
    (keyOf t).length ≤ t.length ∧
      ((keyOf t).length = t.length → ¬[tilde, 48] <:+: t ∧ ¬[tilde, 49] <:+: t) := by
  obtain ⟨hone, honeEq⟩ := replaceTilde_length 49 slash t
  obtain ⟨hzero, hzeroEq⟩ := replaceTilde_length 48 tilde (replaceTilde 49 slash t)
  refine ⟨hzero.trans hone, fun heq => ?_⟩
  -- neither replacement makes the token shorter, so the first one does nothing
  have hfirst : ¬[tilde, 49] <:+: t := honeEq (le_antisymm hone (heq ▸ hzero))
  rw [keyOf, replaceTilde_of_plain hfirst] at heq
  rw [replaceTilde_of_plain hfirst] at hzeroEq
  exact ⟨hzeroEq heq, hfirst⟩

/-! ### Pointers -/

/-- The byte in front of a fragment. -/
def hash : UInt8 := 35

/-- The tokens of a reference: it is the fragment of an address, and when the fragment is decoded every
token has a slash in front of it. -/
def tokens? (reference : String) : Option (List Text) :=
  match Text.ofString reference with
  | [] => none
  | b :: written =>
    if b ≠ hash then none
    else match unescape written with
      | .error _ => none
      | .ok fragment =>
        match List.splitOn slash fragment with
        | [] :: tokens => some tokens
        | _ => none

/-- The key of the definitions of a document. -/
def definitionsKey : Text := "definitions"

theorem escapeFree_definitionsKey : EscapeFree definitionsKey :=
  .of_notMem (by decide +kernel) (by decide +kernel) (by decide +kernel)

theorem ofString_definitionPointer (name : String) :
    Text.ofString (definitionPointer name) =
      hash :: ((slash :: definitionsKey ++ [slash]) ++ Text.ofString name) :=
  calc Text.ofString (definitionPointer name)
    _ = Text.ofString "#/definitions/" ++ Text.ofString name := Text.ofString_append _ _
    _ = hash :: ((slash :: definitionsKey ++ [slash]) ++ Text.ofString name) := rfl

/-- The tokens of the reference to a name: the name itself may be more than one. -/
theorem tokens?_definitionPointer (name : String) :
    tokens? (definitionPointer name) =
      (unescape (Text.ofString name)).toOption.map fun u => definitionsKey :: u.splitOn slash := by
  have hslash : percent ≠ slash := by decide
  have hplain : percent ∉ slash :: definitionsKey ++ [slash] := by
    simp [escapeFree_definitionsKey.percent, hslash]
  rw [tokens?, ofString_definitionPointer]
  dsimp only
  rw [if_neg (not_not.mpr rfl), unescape_append hplain]
  cases unescape (Text.ofString name) with
  | error e => rfl
  | ok u =>
      -- the first slash leaves nothing in front, the second one ends the key of the definitions
      have hsplit : List.splitOn slash (slash :: definitionsKey ++ [slash] ++ u) =
          [] :: definitionsKey :: u.splitOn slash := by
        rw [List.append_assoc, List.cons_append, List.splitOn_cons_eq_if_modifyHead,
          if_pos (beq_self_eq_true slash),
          List.singleton_append, List.splitOn_append_cons_self,
          List.splitOn_eq_singleton escapeFree_definitionsKey.slash]
        rfl
      dsimp only [Except.map]
      rw [hsplit]
      rfl

/-- A text is one token when it has no slash. -/
theorem splitOn_eq_singleton_iff {v : Text} : u.splitOn slash = [v] ↔ slash ∉ u ∧ v = u := by
  constructor
  · intro h
    obtain rfl : v = u := by
      have hjoin : List.intercalate [slash] (u.splitOn slash) = u := List.intercalate_splitOn slash
      rwa [h, List.intercalate_singleton] at hjoin
    exact ⟨notMem_of_mem_splitOn (h ▸ List.mem_singleton_self v), rfl⟩
  · rintro ⟨h, rfl⟩
    exact List.splitOn_eq_singleton h

/-- The keys of the reference to a name are those of a definition when the decoded name is one token. -/
theorem keys_definitionPointer {name other : String} :
    (∃ tokens, tokens? (definitionPointer name) = some tokens ∧
      tokens.map keyOf = [definitionsKey, Text.ofString other]) ↔
    ∃ u, unescape (Text.ofString name) = .ok u ∧ slash ∉ u ∧ keyOf u = Text.ofString other := by
  have hkey : keyOf definitionsKey = definitionsKey :=
    keyOf_of_plain escapeFree_definitionsKey.zero escapeFree_definitionsKey.one
  rw [tokens?_definitionPointer]
  cases unescape (Text.ofString name) with
  | error e => exact iff_of_false nofun nofun
  | ok u =>
      constructor
      · rintro ⟨_, ⟨⟩, hkeys⟩
        obtain ⟨token, htoken, hother⟩ := List.map_eq_singleton_iff.mp (List.cons.inj hkeys).2
        obtain ⟨hslash, rfl⟩ := splitOn_eq_singleton_iff.mp htoken
        exact ⟨token, rfl, hslash, hother⟩
      · rintro ⟨_, ⟨⟩, hslash, hother⟩
        refine ⟨_, rfl, ?_⟩
        dsimp only
        rw [List.splitOn_eq_singleton hslash, List.map_cons, List.map_singleton, hkey, hother]

/-- **A name is found as it stands** if and only if it is free of escapes. -/
theorem keys_own_iff {name : String} :
    (∃ tokens, tokens? (definitionPointer name) = some tokens ∧
      tokens.map keyOf = [definitionsKey, Text.ofString name]) ↔ EscapeFree (Text.ofString name) := by
  rw [keys_definitionPointer]
  constructor
  · rintro ⟨u, hu, hslash, hkey⟩
    -- each step makes the name shorter or leaves it as it is, and it comes out as long as it was
    obtain ⟨hdecoded, hplain⟩ := unescape_length hu
    obtain ⟨hle, htildes⟩ := keyOf_length (t := u)
    rw [hkey] at hle htildes
    have hpercent := hplain (le_antisymm hdecoded hle)
    obtain rfl : Text.ofString name = u := Except.ok.inj ((unescape_of_plain hpercent).symm.trans hu)
    obtain ⟨hzero, hone⟩ := htildes rfl
    exact ⟨hpercent, hslash, hzero, hone⟩
  · intro h
    exact ⟨_, unescape_of_plain h.percent, h.slash, keyOf_of_plain h.zero h.one⟩

end Reference

/-! ### JSON forms -/

theorem rulesToJson_eq_map (rules : List Constraint) :
    rulesToJson rules = rules.map Constraint.toMember := by
  induction rules with
  | nil => rfl
  | cons rule rules ih => rw [rulesToJson, ih, List.map_cons]

theorem schemasToJson_eq_map (schemas : List Schema) :
    schemasToJson schemas = schemas.map Schema.toJson := by
  induction schemas with
  | nil => rfl
  | cons s schemas ih => rw [schemasToJson, ih, List.map_cons]

theorem propsToJson_eq_map (props : List (String × Schema)) :
    propsToJson props = props.map fun p => (p.1, p.2.toJson) := by
  induction props with
  | nil => rfl
  | cons p props ih =>
      obtain ⟨key, s⟩ := p
      rw [propsToJson, ih, List.map_cons]

/-! ### Definitions that references lead to -/

namespace SchemaDocument

variable {d : SchemaDocument} {reference name other : String} {s s' : Schema}

/-- A reference leads to a definition of a document: its keys are the place of the definition in the
JSON form, and this is what its tokens pick there. -/
def LeadsTo (d : SchemaDocument) (reference name : String) (s : Schema) : Prop :=
  d.definition? name = some s ∧ ∃ tokens, Reference.tokens? reference = some tokens ∧
    tokens.map Reference.keyOf = [Reference.definitionsKey, Text.ofString name] ∧
    tokens.foldlM Reference.pick d.toJson = .ok s.toJson

/-- A reference leads to one definition at most. -/
theorem LeadsTo.unique (h : d.LeadsTo reference name s) (h' : d.LeadsTo reference other s') :
    other = name := by
  obtain ⟨-, tokens, htokens, hkeys, -⟩ := h
  obtain ⟨-, tokens', htokens', hkeys', -⟩ := h'
  obtain rfl : tokens = tokens' := Option.some.inj (htokens.symm.trans htokens')
  rw [hkeys] at hkeys'
  have hname := (List.cons.inj (List.cons.inj hkeys').2).1
  exact (Text.ofString_injective hname).symm

/-- A token picks the member under its key. -/
theorem pick_obj {members : List (String × Json)} {token : Text} {key : String} {v : Json}
    (hkey : Reference.keyOf token = Text.ofString key)
    (hfind : members.find? (fun m => m.1 = key) = some (key, v)) :
    Reference.pick (.obj members) token = .ok v := by
  have hsame : (fun m : String × Json => decide (Text.ofString m.1 = Reference.keyOf token)) =
      fun m => decide (m.1 = key) := by
    -- keys are compared by their bytes
    funext m
    rw [hkey]
    exact decide_eq_decide.mpr Text.ofString_injective.eq_iff
  rw [Reference.pick.eq_def]
  dsimp only
  rw [hsame, hfind]

/-- The tokens of the place of a definition pick the definition. -/
theorem pick_definition {tokens : List Text}
    (hkeys : tokens.map Reference.keyOf = [Reference.definitionsKey, Text.ofString name])
    (hs : d.definition? name = some s) : tokens.foldlM Reference.pick d.toJson = .ok s.toJson := by
  obtain ⟨first, rest, rfl, hfirst, hrest⟩ := List.map_eq_cons_iff.mp hkeys
  obtain ⟨second, rfl, hsecond⟩ := List.map_eq_singleton_iff.mp hrest
  have hdefinitions : Reference.pick d.toJson first = .ok (.obj (propsToJson d.definitions)) :=
    pick_obj hfirst rfl
  have hdefinition : Reference.pick (.obj (propsToJson d.definitions)) second = .ok s.toJson := by
    refine pick_obj hsecond ?_
    obtain ⟨p, hp, rfl⟩ := Option.map_eq_some_iff.mp hs
    have hname : p.1 = name := by simpa using List.find?_some hp
    rw [propsToJson_eq_map, List.find?_map]
    show Option.map _ (d.definitions.find? (·.1 = name)) = _
    rw [hp, ← hname]
    rfl
  rw [List.foldlM_cons, hdefinitions]
  show List.foldlM Reference.pick (.obj (propsToJson d.definitions)) [second] = _
  rw [List.foldlM_cons, hdefinition]
  rfl

/-- The reference to a definition leads to it if and only if its name is free of escapes. -/
theorem leadsTo_own_iff (hs : d.definition? name = some s) :
    d.LeadsTo (definitionPointer name) name s ↔ Reference.EscapeFree (Text.ofString name) := by
  rw [← Reference.keys_own_iff]
  constructor
  · rintro ⟨-, tokens, htokens, hkeys, -⟩
    exact ⟨tokens, htokens, hkeys⟩
  · rintro ⟨tokens, htokens, hkeys⟩
    exact ⟨hs, tokens, htokens, hkeys, pick_definition hkeys hs⟩

end SchemaDocument

/-! ### References of a document -/

/-- A JSON value has a reference somewhere in it: a string under the key `$ref`. -/
inductive Json.RefersTo : Json → String → Prop
  | here {members : List (String × Json)} {r : String} (h : ("$ref", .str r) ∈ members) :
      RefersTo (.obj members) r
  | member {members : List (String × Json)} {key : String} {v : Json} {r : String}
      (hv : (key, v) ∈ members) (h : RefersTo v r) : RefersTo (.obj members) r
  | item {items : List Json} {v : Json} {r : String} (hv : v ∈ items) (h : RefersTo v r) :
      RefersTo (.arr items) r

section RefersTo

variable {r : String} {s : Schema}

@[simp] theorem refersTo_str (t : String) : ¬(Json.str t).RefersTo r := nofun

@[simp] theorem refersTo_number (n : Numeral) : ¬(Json.number n).RefersTo r := nofun

theorem refersTo_obj {members : List (String × Json)} :
    (Json.obj members).RefersTo r ↔
      ("$ref", .str r) ∈ members ∨ ∃ m ∈ members, m.2.RefersTo r := by
  constructor
  · intro h
    cases h with
    | here h => exact .inl h
    | member hv h => exact .inr ⟨_, hv, h⟩
  · rintro (h | ⟨m, hm, h⟩)
    · exact .here h
    · exact .member hm h

theorem refersTo_arr {items : List Json} :
    (Json.arr items).RefersTo r ↔ ∃ v ∈ items, v.RefersTo r := by
  constructor
  · intro h
    cases h with
    | item hv h => exact ⟨_, hv, h⟩
  · rintro ⟨v, hv, h⟩
    exact .item hv h

@[simp] theorem refersTo_ofStrings (names : List String) : ¬(Json.ofStrings names).RefersTo r := by
  simp [Json.ofStrings, refersTo_arr]

/-- A schema that is a reference has this reference only. -/
@[simp] theorem refersTo_ref {name : String} :
    (Schema.ref name).toJson.RefersTo r ↔ r = definitionPointer name := by
  simp [Schema.toJson, refersTo_obj]

/-- What a rule states is not itself a reference. -/
theorem toMember_ne_ref (rule : Constraint) : rule.toMember ≠ ("$ref", .str r) := by
  cases rule <;> simp [Constraint.toMember]

/-- The references of rules are those of what they state. -/
@[simp] theorem refersTo_rules {rules : List Constraint} :
    (Schema.rules rules).toJson.RefersTo r ↔ ∃ rule ∈ rules, rule.toMember.2.RefersTo r := by
  rw [Schema.toJson, rulesToJson_eq_map, refersTo_obj]
  simp [toMember_ne_ref]

theorem toJson_ne_str (s : Schema) (t : String) : s.toJson ≠ .str t := by
  cases s <;> exact nofun

/-- The references of properties are those of their schemas, whatever the keys. -/
@[simp] theorem refersTo_props {props : List (String × Schema)} :
    (Json.obj (propsToJson props)).RefersTo r ↔ ∃ p ∈ props, p.2.toJson.RefersTo r := by
  rw [propsToJson_eq_map, refersTo_obj]
  simp [toJson_ne_str]

@[simp] theorem refersTo_schemas {schemas : List Schema} :
    (Json.arr (schemasToJson schemas)).RefersTo r ↔ ∃ s ∈ schemas, s.toJson.RefersTo r := by
  rw [schemasToJson_eq_map, refersTo_arr]
  simp

/-- The references of a document are those of its definitions and of its root. -/
theorem refersTo_document {d : SchemaDocument} {rules : List Constraint} (hroot : d.root = .rules rules) :
    d.toJson.RefersTo r ↔
      (∃ p ∈ d.definitions, p.2.toJson.RefersTo r) ∨ d.root.toJson.RefersTo r := by
  rw [SchemaDocument.toJson, hroot, refersTo_rules, Schema.toJson, refersTo_obj]
  simp [rulesToJson_eq_map, toMember_ne_ref]

end RefersTo

end Lossless
