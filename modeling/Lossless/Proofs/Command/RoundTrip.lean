import Lossless.Command.Run
import Lossless.Proofs.Ensures
import Lossless.Proofs.Parse.Coverage

/-!
# Command — no document fails the round trip

`parse --check` compares the text of a tree with the source that the tree was built from, and has an
error for the case that they differ.  They never do: a session loads only trees that cover their
source.

It is enough to say what each part of a session ensures: loading gives a tree whose text is the
source (`load_ensures`), and nothing but the comparison itself fails with the error (`Unrelated`).

**Lossless construction** (`construction_lossless`) collects what follows for values, documents and
the command.
-/

namespace Lossless

namespace Command

/-- Every world. -/
def Always (_ : World) : Prop := True

/-- A failure that is not the error of the round trip. -/
def Unrelated (e : CommandFailure) : Prop := ∀ path diff, e.cause ≠ .roundTrip path diff

section Parts

variable {α ε : Type} {Q : α → Prop} {E : CommandFailure → Prop}

theorem print_ensures (t : Text) : Ensures Always (print t) (fun _ => True) E :=
  fun _ _ => ⟨trivial, trivial⟩

theorem report_ensures (logger : Telemetry.Logger) (records : List Telemetry.Record) :
    Ensures Always (report logger records) (fun _ => True) E :=
  fun _ _ => ⟨trivial, trivial⟩

theorem orFail_ensures {wrap : ε → CommandError} {x : Except ε α} (hok : ∀ a, x = .ok a → Q a)
    (herr : ∀ e, x = .error e → E { cause := wrap e }) :
    Ensures Always (orFail wrap x) Q E := by
  cases x with
  | ok a => exact .pure (hok a rfl)
  | error e => exact .throw (herr e rfl)

theorem readInput_ensures {path : Text} {limit : UInt64} (h : ∀ e, E { cause := .input e }) :
    Ensures Always (readInput path limit) (fun _ => True) E := by
  refine .bind .get fun w _ => ?_
  split
  · refine .bind (.set trivial) fun _ _ => ?_
    exact orFail_ensures (fun _ _ => trivial) fun e _ => h e
  · exact orFail_ensures (fun _ _ => trivial) fun e _ => h e

theorem writeFile_ensures {wrap : FileError → CommandError} {path contents : Text}
    (h : ∀ e, E { cause := wrap e }) :
    Ensures Always (writeFile wrap path contents) (fun _ => True) E := by
  refine .bind .get fun w _ => ?_
  refine .bind (orFail_ensures (Q := fun _ => True) (fun _ _ => trivial) fun e _ => h e) ?_
  exact fun _ _ => .set trivial

end Parts

end Command

/-! ### Sessions -/

namespace Session

open Command (Always Unrelated)

theorem loadCatalogs_unrelated {fs : FileSystem} {c : Config.Checked} {e : CommandError}
    (h : loadCatalogs fs c = .error e) : Unrelated { cause := e } := by
  unfold loadCatalogs at h
  dsimp only at h
  split at h
  · cases h
  · split at h
    · cases h; exact nofun
    · cases h; exact nofun
    · split at h
      · cases h; exact nofun
      · cases h

theorem ofConfig_unrelated {x : Externals} {fs : FileSystem} {g : Globals} {mode : String}
    {c : Config.Checked} {e : CommandError} (h : ofConfig x fs g mode c = .error e) :
    Unrelated { cause := e } := by
  unfold ofConfig at h
  cases hc : loadCatalogs fs c with
  | error e' => rw [hc] at h; cases h; exact loadCatalogs_unrelated hc
  | ok registry =>
      rw [hc] at h
      simp only [bind, Except.bind] at h
      generalize (if g.language = "" then c.catalog.language else g.language) = language at h
      split at h
      · cases h; exact nofun
      · cases h

theorem start_ensures (x : Externals) (g : Globals) (mode : String) :
    Ensures Always (start x g mode) (fun _ => True) Unrelated := by
  refine .bind .get fun w _ => ?_
  refine .bind (Q := fun _ => True)
    (Command.orFail_ensures (fun _ _ => trivial) fun _ _ => nofun) fun c _ => ?_
  exact Command.orFail_ensures (fun _ _ => trivial) fun e he => ofConfig_unrelated he

theorem close_ensures (s : Session) : Ensures Always s.close (fun _ => True) Unrelated := by
  unfold close
  dsimp only
  split
  · exact .pure trivial
  · exact .bind .get fun _ _ => Command.writeFile_ensures fun _ => nofun

/-- A command in a session fails as its body does, or for reasons of the session. -/
theorem run_ensures {x : Externals} {g : Globals} {mode : String} {body : Session → Command Unit}
    (h : ∀ s, Ensures Always (body s) (fun _ => True) Unrelated) :
    Ensures Always (run x g mode body) (fun _ => True) Unrelated := by
  refine .bind (start_ensures x g mode) fun s _ => ?_
  refine .bind (.handle (h s) fun e he => ?_) fun _ (_ : True) => close_ensures s
  -- closing the session after a failure: its own failure is dropped
  exact .bind (.handle (close_ensures s) fun _ _ => .pure trivial) fun _ (_ : True) => .throw he

theorem decode_unrelated {s : Session} {path : String} {data : Text} {e : CommandError}
    (h : s.decode path data = .error e) : Unrelated { cause := e } := by
  unfold decode at h
  cases hd : Parse.Document.decode s.wording data path with
  | error e' => rw [hd] at h; cases h; exact nofun
  | ok content =>
      rw [hd] at h
      cases hc : s.catalogFor (Input.sourceName path).toStr content.source with
      | error e' =>
          simp only [Except.mapError, bind, Except.bind, hc] at h
          cases h
          exact nofun
      | ok c =>
          simp only [Except.mapError, bind, Except.bind, hc] at h
          cases h

theorem readDocument_ensures (s : Session) (path : String) :
    Ensures Always (s.readDocument path) (fun _ => True) Unrelated :=
  .bind (Command.readInput_ensures fun _ => nofun) fun _ _ =>
    Command.orFail_ensures (fun _ _ => trivial) fun _ he => decode_unrelated he

/-- Building a document gives what it decodes to, or fails for other reasons. -/
theorem build_spec (s : Session) (d : LoadedDocument) (supply : Supply) :
    match s.build d supply with
    | .ok r => Parse.fromDecoded d.catalog d.content.tree d.content.source d.path supply = .ok r
    | .error e => Unrelated e := by
  -- strict or not, the construction comes last, and none of its errors is that of the round trip
  have hlast : ∀ invalid : Malformed → CommandFailure, (∀ e, Unrelated (invalid e)) →
      match (Parse.fromDecoded d.catalog d.content.tree d.content.source d.path supply).mapError
        invalid with
      | .ok r => Parse.fromDecoded d.catalog d.content.tree d.content.source d.path supply = .ok r
      | .error e => Unrelated e := by
    intro invalid hi
    cases Parse.fromDecoded d.catalog d.content.tree d.content.source d.path supply with
    | error e => exact hi e
    | ok r => rfl
  unfold build
  dsimp only
  by_cases hs : s.config.catalog.strict = true
  · rw [if_pos hs]
    cases Parse.validate d.catalog d.content.tree with
    | error e => exact nofun
    | ok valid =>
        cases valid with
        | false => exact nofun
        | true => exact hlast _ fun _ _ _ h => nomatch h
  · rw [if_neg hs]
    exact hlast _ fun _ _ _ h => nomatch h

/-- A session loads only trees whose text is their source. -/
theorem load_ensures (s : Session) (path : String) :
    Ensures Always (s.load path) (fun p => p.2.fullText = p.1.content.source) Unrelated := by
  refine .bind (readDocument_ensures s path) fun d _ => .bind .get fun w _ => ?_
  have hbuild := s.build_spec d w.supply
  split
  · next e he =>
      rw [he] at hbuild
      exact .throw hbuild
  · next tree supply ht =>
      rw [ht] at hbuild
      refine .bind (.set trivial) fun _ _ => ?_
      refine .bind (Command.report_ensures _ _) fun _ _ => .pure ?_
      exact Parse.fromDecoded_fullText hbuild

end Session

/-! ### The command -/

/-- No run of `parse` fails because the text of a tree is not its source. -/
theorem Command.parse_ensures (x : Externals) (g : Globals) (path : String) (output : Text)
    (outline check : Bool) :
    Ensures Always (parse x g path output outline check) (fun _ => True) Unrelated := by
  refine Session.run_ensures fun s => .bind (s.load_ensures path) fun ⟨d, root⟩ htext => ?_
  dsimp only at htext ⊢
  cases check with
  | true =>
      -- the comparison of the two texts comes out equal
      rw [if_pos rfl, if_neg (not_not.mpr htext)]
      split
      · exact print_ensures _
      · exact .pure trivial
  | false =>
      rw [if_neg Bool.false_ne_true]
      split
      · exact print_ensures _
      · exact writeFile_ensures fun _ => nofun

/-! ### Lossless construction -/

/-- A tree that is built has at every node the slice of the source that starts at the place of the
node and is as long as the node is wide; no value makes the construction ask for a slice outside the
source; a tree that covers its source has the source for its text; and `parse` never fails because
the two differ. -/
theorem construction_lossless (c : Catalog) (v : Json) (file : String) (source : Text) :
    (∀ (offset : Int) (supply supply' : Supply) (n : Node),
      Parse.fromJson c v file offset source supply = .ok (n, supply') →
        (offset + n.width ≤ source.length ∧
          source.slice? offset.toNat (offset.toNat + n.width) = some n.fullText) ∧
        ∀ p ∈ n.placed offset.toNat, p.1 + p.2.width ≤ source.length ∧
          source.slice? p.1 (p.1 + p.2.width) = some p.2.fullText) ∧
    (∀ (offset : Nat) (supply : Supply) (start stop : Nat),
      Parse.nodeOf ⟨c, file, source⟩ [] v offset supply ≠ .error (.outside start stop)) ∧
    (∀ (supply supply' : Supply) (root : Node),
      Parse.fromDecoded c v source file supply = .ok (root, supply') → root.fullText = source) ∧
    ∀ (x : Externals) (g : Globals) (path : String) (output : Text) (outline check : Bool)
      (w w' : World) (e : CommandFailure),
      Command.parse x g path output outline check w = (.error e, w') →
        ∀ path' diff, e.cause ≠ .roundTrip path' diff := by
  refine ⟨?_, ?_, ?_, ?_⟩
  · intro offset supply supply' n h
    have hplaces := fun p hp => Parse.slice?_of_stands (Parse.fromJson_stands h p hp)
    obtain ⟨hle, hslice⟩ := hplaces _ (Node.mem_placed _ n)
    obtain ⟨ho, -⟩ := Parse.fromJson_eq_ok_iff.mp h
    exact ⟨⟨by dsimp only at hle; omega, hslice⟩, hplaces⟩
  · intro offset
    exact Parse.nodeOf_inside _ _ v offset
  · intro supply supply' root h
    exact Parse.fromDecoded_fullText h
  · intro x g path output outline check w w' e h
    have hw := (Command.parse_ensures x g path output outline check w trivial).2
    rw [h] at hw
    exact hw

/-- Others that tell little: no language is detected, data end too soon, and trees fit no schema. -/
def curtExternals : Externals where
  detect := fun _ _ => none
  wording := {
    undecodable := fun _ => "unexpected EOF"
    objections := fun _ _ => [⟨"(root)", "Must validate one and only one schema (oneOf)",
      "(root): Must validate one and only one schema (oneOf)"⟩] }

/-- A phrase that covers its source is made of slices of it and gives it back. The check of a document
that cannot be decoded fails, but not because of the text. -/
theorem construction_lossless_phrase :
    (∃ n supply, Parse.fromDecoded Parse.phraseCatalog Parse.phraseValue " ab cd" "a.phrase"
        Supply.start = .ok (n, supply) ∧ n.fullText = Text.ofString " ab cd" ∧
      ∀ p ∈ n.placed 0,
        (Text.ofString " ab cd").slice? p.1 (p.1 + p.2.width) = some p.2.fullText) ∧
    ∃ e w, Command.parse curtExternals {} "-" [] false true { stdin := "\x7b" } = (.error e, w) ∧
      ∀ path diff, e.cause ≠ .roundTrip path diff := by
  let ctx : Parse.Context := ⟨Parse.phraseCatalog, "a.phrase", " ab cd"⟩
  have hreads : Parse.Reads ctx.source 0 Parse.phraseDescription.leaves [" ", "ab", " cd"] :=
    .cons rfl rfl (.cons rfl rfl (.cons rfl rfl .nil))
  have hdescribes : Parse.Describes ctx.catalog Parse.phraseValue Parse.phraseDescription :=
    Parse.describes_phraseValue
  obtain ⟨n, supply, hn, hreal, htexts⟩ :=
    Parse.nodeOf_of_describes hdescribes hreads [] Supply.start
  have hjson : Parse.fromJson Parse.phraseCatalog Parse.phraseValue "a.phrase" 0 " ab cd"
      Supply.start = .ok (n, supply) := Parse.fromJson_eq_ok_iff.mpr ⟨by decide, hn⟩
  have hwidth : n.width = (Text.ofString " ab cd").length := by
    rw [hreal.sound.width_eq_leaves, htexts]
    rfl
  have hdecoded := Parse.fromDecoded_eq_ok_iff.mpr ⟨hjson, hwidth⟩
  obtain ⟨hslices, -, htext, hparse⟩ :=
    construction_lossless Parse.phraseCatalog Parse.phraseValue "a.phrase" " ab cd"
  refine ⟨⟨n, supply, hdecoded, htext _ _ _ hdecoded, fun p hp => ((hslices _ _ _ _ hjson).2 p hp).2⟩,
    ?_⟩
  have hfails : (Command.parse curtExternals {} "-" [] false true { stdin := "\x7b" }).1.toOption =
      none := by
    decide +kernel
  rcases hrun : Command.parse curtExternals {} "-" [] false true { stdin := "\x7b" } with ⟨e | u, w⟩
  · exact ⟨e, w, rfl, hparse _ _ _ _ _ _ _ _ _ hrun⟩
  · rw [hrun] at hfails
    cases hfails

end Lossless
