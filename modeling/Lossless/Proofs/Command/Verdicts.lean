import Lossless.Proofs.Command.RoundTrip

/-!
# Command — what loading and validating say of a document

Loading and validating both decode a document, compare it with the schema of its catalog, when
settings are strict, and build its tree.  They are written apart, and classify failures apart: loading
fails with a status, validating gives a verdict.

A document that was decoded gets the same verdict from both (`SameVerdict`, `build_sameVerdict`):
they compare it with the same schema, and whether its tree is built does not depend on the numbers
that its nodes get (`exists_fromDecoded`).

**Strict verdicts** (`strict_verdicts`).  What can be read is loaded exactly when it is found valid,
and a document that was decoded fails with the status for invalid documents exactly when it is found
invalid.  Data that cannot be decoded are found invalid too, but loading fails on them with the status
of all other errors (`undecodable_status_differs`).
-/

namespace Lossless

namespace Parse

variable {c : Catalog} {v : Json} {file : String} {source : Text} {s s' : Supply} {n : Node}

/-- Whether a tree is built does not depend on the numbers that its nodes get. -/
theorem exists_fromDecoded (h : fromDecoded c v source file s = .ok (n, s')) (t : Supply) :
    ∃ m t', fromDecoded c v source file t = .ok (m, t') := by
  obtain ⟨hn, hw⟩ := fromDecoded_eq_ok_iff.mp h
  obtain ⟨ho, d, hd, hreal⟩ := fromJson_realizes hn
  -- the description is one of the value, so it is realized from any supply, with the same leaves
  let ctx : Context := ⟨c, file, source⟩
  have hd : Describes ctx.catalog v d := hd
  obtain ⟨m, t', hm, hreal', hleaves⟩ := nodeOf_of_describes hd hreal.reads [] t
  have hwidth : m.width = n.width := by
    rw [hreal'.sound.width_eq_leaves, hreal.sound.width_eq_leaves, hleaves]
  exact ⟨m, t', fromDecoded_eq_ok_iff.mpr ⟨fromJson_eq_ok_iff.mpr ⟨ho, hm⟩, hwidth.trans hw⟩⟩

end Parse

variable {s : Session} {w w' : World} {path : String} {data : Text}

/-! ### Reading and decoding -/

/-- What can be read is read, whatever becomes of standard input. -/
theorem Command.readInput_of_ok {path : Text} {limit : UInt64}
    (h : Input.read w.files w.stdin path limit = .ok data) :
    ∃ w', Command.readInput path limit w = (.ok data, w') := by
  by_cases hpath : path = Input.stdinPath
  · refine ⟨{ w with stdin := [] }, ?_⟩
    show (if path = Input.stdinPath then _ else _ : Command Text) w = _
    rw [if_pos hpath, h]
    rfl
  · refine ⟨w, ?_⟩
    show (if path = Input.stdinPath then _ else _ : Command Text) w = _
    rw [if_neg hpath, h]
    rfl

namespace Session

/-- The catalog of the language of a session is used for every document. -/
theorem catalogFor_of_chosen {c : Catalog} (hlang : s.language ≠ "")
    (hcat : s.catalogs.lookup s.language = some c) (name : String) (source : Text) :
    s.catalogFor name source = .ok c := by
  rw [catalogFor, if_neg hlang, hcat]

theorem decode_of_error {e : Malformed} (h : Parse.Document.decode s.wording data path = .error e) :
    s.decode path data = .error (.malformed e) := by
  rw [decode, h]
  rfl

/-- In a session whose language has a catalog a document is decoded when its data are. -/
theorem decode_of_ok {c : Catalog} (hlang : s.language ≠ "")
    (hcat : s.catalogs.lookup s.language = some c) {content : Parse.Document}
    (h : Parse.Document.decode s.wording data path = .ok content) :
    s.decode path data = .ok ⟨path, content, c, data.length⟩ := by
  rw [decode, h]
  simp only [Except.mapError, bind, Except.bind, catalogFor_of_chosen hlang hcat]
  rfl

/-- Loading goes on with the data that are read. -/
theorem load_of_read (h : Command.readInput path s.config.sizeLimit w = (.ok data, w')) :
    (s.load path w).1 = match s.decode path data with
      | .error e => .error { cause := e }
      | .ok d => (s.build d w'.supply).map fun r => (d, r.1) := by
  have hdoc : s.readDocument path w = Command.orFail id (s.decode path data) w' := by
    rw [readDocument, bind_run, h]
  have hget : (get : Command World) w' = (.ok w', w') := rfl
  rw [load, bind_run, hdoc]
  cases s.decode path data with
  | error e => rfl
  | ok d =>
      dsimp only [Command.orFail, pure, ExceptT.pure, ExceptT.mk, StateT.pure]
      rw [bind_run, hget]
      dsimp only
      cases s.build d w'.supply with
      | error e => rfl
      | ok r => rfl

end Session

/-- Validating goes on with the data that are read, and prints the report on them. -/
theorem Command.validateDocument_run {use : Bool}
    (h : readInput path s.config.sizeLimit w = (.ok data, w')) :
    validateDocument s use path w = match validateData s use path data with
      | .error e => (.error { cause := e }, w')
      | .ok r => (.ok r.1, { w' with stdout := w'.stdout ++ r.2 }) := by
  rw [validateDocument, bind_run, h]
  dsimp only
  rw [bind_run]
  cases validateData s use path data with
  | error e => rfl
  | ok r => rfl

/-- What validating comes to. -/
theorem Command.validateDocument_of_read {use : Bool}
    (h : readInput path s.config.sizeLimit w = (.ok data, w')) :
    (validateDocument s use path w).1 = match validateData s use path data with
      | .error e => .error { cause := e }
      | .ok r => .ok r.1 := by
  rw [validateDocument_run h]
  cases validateData s use path data with
  | error e => rfl
  | ok r => rfl

/-! ### Verdicts -/

/-- What loading a document comes to next to what validating it comes to: both accept it, both find
fault with it, or its schema cannot be used, which is no fault of the document. -/
inductive SameVerdict {α : Type} : Except CommandFailure α → Except CommandFailure Bool → Prop
  | valid (a : α) : SameVerdict (.ok a) (.ok true)
  | invalid {e : CommandFailure} (h : e.exitStatus = Failed.invalidStatus) :
      SameVerdict (.error e) (.ok false)
  | unchecked (e : Parse.BadSchema) :
      SameVerdict (.error { cause := .schema e }) (.error { cause := .schema e })

namespace SameVerdict

variable {α β : Type} {x : Except CommandFailure α} {y : Except CommandFailure Bool}

theorem map (h : SameVerdict x y) (f : α → β) : SameVerdict (x.map f) y := by
  cases h with
  | valid a => exact .valid (f a)
  | invalid h => exact .invalid h
  | unchecked e => exact .unchecked e

theorem ok_iff (h : SameVerdict x y) : (∃ a, x = .ok a) ↔ y = .ok true := by
  cases h <;> simp

theorem invalid_iff (h : SameVerdict x y) :
    (∃ e, x = .error e ∧ e.exitStatus = Failed.invalidStatus) ↔ y = .ok false := by
  cases h with
  | valid a => simp
  | invalid h => simp [h]
  | unchecked e => simp [Failed.exitStatus, Failed.failureStatus, Failed.invalidStatus]

end SameVerdict

/-- With strict settings building and validating judge a decoded document alike. -/
theorem Session.build_sameVerdict (hstrict : s.config.catalog.strict = true) {d : LoadedDocument}
    (hd : s.decode path data = .ok d) (hpath : d.path = path) (use : Bool) (supply : Supply) :
    SameVerdict (s.build d supply) (match Command.validateData s use path data with
      | .error e => .error { cause := e }
      | .ok r => .ok r.1) := by
  obtain rfl := hpath
  rw [Command.validateData, hd, build, if_pos hstrict]
  dsimp only
  cases Parse.validate d.catalog d.content.tree with
  | error e => exact .unchecked e
  | ok conforms =>
      cases conforms with
      | false => exact .invalid rfl
      | true =>
          -- validating builds the tree from a supply of its own
          dsimp only
          cases hstart : Parse.fromDecoded d.catalog d.content.tree d.content.source d.path
              Supply.start with
          | ok r =>
              obtain ⟨m, t, hm⟩ := Parse.exists_fromDecoded hstart supply
              rw [hm]
              exact .valid _
          | error e =>
              cases hany : Parse.fromDecoded d.catalog d.content.tree d.content.source d.path
                  supply with
              | ok r =>
                  obtain ⟨m, t, hm⟩ := Parse.exists_fromDecoded hany Supply.start
                  rw [hm] at hstart
                  cases hstart
              | error e' => exact .invalid rfl

/-- With strict settings and a language that has a catalog, what can be read is loaded if and only if
it is found valid. Of the documents that are found invalid, loading fails with the status for these on
all that can be decoded. On what cannot be decoded it fails with the status of all other errors. -/
theorem strict_verdicts (hstrict : s.config.catalog.strict = true) (hlang : s.language ≠ "")
    (hcat : (s.catalogs.lookup s.language).isSome)
    (hread : Input.read w.files w.stdin path s.config.sizeLimit = .ok data) (use : Bool) :
    ((∃ r, (s.load path w).1 = .ok r) ↔
      (Command.validateDocument s use path w).1 = .ok true) ∧
    ((∃ e, (s.load path w).1 = .error e ∧ e.exitStatus = Failed.invalidStatus) ↔
      (Command.validateDocument s use path w).1 = .ok false ∧
        ∃ content, Parse.Document.decode s.wording data path = .ok content) ∧
    ∀ e, Parse.Document.decode s.wording data path = .error e →
      (Command.validateDocument s use path w).1 = .ok false ∧
        ∃ f, (s.load path w).1 = .error f ∧ f.cause = .malformed e ∧
          f.exitStatus = Failed.failureStatus := by
  obtain ⟨w', hw⟩ := Command.readInput_of_ok hread
  rw [Session.load_of_read hw, Command.validateDocument_of_read hw]
  cases hdecode : Parse.Document.decode s.wording data path with
  | ok content =>
      obtain ⟨c, hc⟩ := Option.isSome_iff_exists.mp hcat
      have hd := Session.decode_of_ok hlang hc hdecode
      have hsame := (Session.build_sameVerdict hstrict hd rfl use w'.supply).map
        fun r => (LoadedDocument.mk path content c data.length, r.1)
      rw [hd]
      refine ⟨hsame.ok_iff, ?_, nofun⟩
      rw [hsame.invalid_iff]
      exact (and_iff_left ⟨content, rfl⟩).symm
  | error e =>
      -- loading fails where it decodes, before anything that gives its failures a status
      have hd := Session.decode_of_error hdecode (s := s)
      rw [Command.validateData, hd]
      refine ⟨?_, ?_, ?_⟩
      · exact iff_of_false nofun nofun
      · refine iff_of_false ?_ nofun
        rintro ⟨f, hf, hstatus⟩
        cases hf
        cases hstatus
      · rintro e' ⟨⟩
        exact ⟨rfl, _, rfl, rfl, rfl⟩

/-- A session with strict settings whose language is `X`. -/
def strictSession : Session where
  toExternals := curtExternals
  config := {
    catalog := { strict := true }
    sizeLimit := 1000
    level := Telemetry.Level.info
    format := .pairs }
  catalogs := .ofCatalogs [⟨"X", [], [], [], []⟩]
  language := "X"
  logger := {}
  mode := "cli"
  quiet := false

/-- A world with a text on standard input. -/
def World.ofInput (t : Text) : World := { stdin := t }

/-- Short texts on standard input are read. -/
theorem strictSession_reads {t : Text} (hlen : t.length ≤ 1000) (hbin : Text.isBinary t = false) :
    Input.read {} t Input.stdinPath strictSession.config.sizeLimit = .ok t := by
  have hbound : (Input.readBound 1000).toInt.toNat = 1001 := by decide +kernel
  have htake : ({ bytes := t } : Input.Stream).read (Input.readBound 1000) = .ok t := by
    rw [Input.Stream.read, hbound, List.take_of_length_le (Nat.le_succ_of_le hlen)]
  have hshort : ¬(1000 : UInt64).toNat < t.length := by
    show ¬1000 < t.length
    omega
  rw [Input.read, Input.openPath, if_pos rfl]
  show Input.readStream { bytes := t } Input.stdinPath 1000 = .ok t
  rw [Input.readStream, htake]
  dsimp only
  rw [if_neg hshort, hbin]
  rfl

/-- A document with a node of a kind that its language does not have. -/
def strangeDocument : Text :=
  "\x7b\"parse_tree\":\x7b\"kind\":\"b\"\x7d,\"program_text\":\"\"\x7d"

theorem strict_verdicts_strangeDocument :
    (strictSession.config.catalog.strict = true ∧ strictSession.language ≠ "" ∧
      (strictSession.catalogs.lookup strictSession.language).isSome ∧
      Input.read (World.ofInput strangeDocument).files (World.ofInput strangeDocument).stdin "-"
        strictSession.config.sizeLimit = .ok strangeDocument) ∧
    (Command.validateDocument strictSession false "-" (.ofInput strangeDocument)).1 = .ok false ∧
    ∃ e, (strictSession.load "-" (.ofInput strangeDocument)).1 = .error e ∧
      e.exitStatus = Failed.invalidStatus := by
  have hcat : (strictSession.catalogs.lookup strictSession.language).isSome := rfl
  have hread := strictSession_reads (t := strangeDocument) (by decide +kernel) (by decide +kernel)
  have hdecode : (Parse.Document.decode strictSession.wording strangeDocument "-").isOk = true := by
    decide +kernel
  have hverdict : (Command.validateData strictSession false "-" strangeDocument).toOption.map (·.1) =
      some false := by decide +kernel
  have hvalid : (Command.validateDocument strictSession false "-" (.ofInput strangeDocument)).1 =
      .ok false := by
    obtain ⟨w', hw⟩ := Command.readInput_of_ok (w := .ofInput strangeDocument) hread
    rw [Command.validateDocument_of_read hw]
    cases hdata : Command.validateData strictSession false "-" strangeDocument with
    | error e =>
        rw [hdata] at hverdict
        cases hverdict
    | ok r =>
        rw [hdata] at hverdict
        exact congrArg _ (Option.some.inj hverdict)
  obtain ⟨-, hinvalid, -⟩ := strict_verdicts (w := .ofInput strangeDocument) rfl (by decide)
    hcat hread false
  cases hcontent : Parse.Document.decode strictSession.wording strangeDocument "-" with
  | error e =>
      rw [hcontent] at hdecode
      cases hdecode
  | ok content =>
      exact ⟨⟨rfl, by decide, hcat, hread⟩, hvalid, hinvalid.mpr ⟨hvalid, content, hcontent⟩⟩

/-- Loading does not fail with the status for invalid documents where validating finds one: the
document cannot be decoded. -/
theorem undecodable_status_differs :
    (strictSession.config.catalog.strict = true ∧ strictSession.language ≠ "" ∧
      (strictSession.catalogs.lookup strictSession.language).isSome ∧
      Input.read (World.ofInput "\x7b").files (World.ofInput "\x7b").stdin "-"
        strictSession.config.sizeLimit = .ok "\x7b") ∧
    (Command.validateDocument strictSession false "-" (.ofInput "\x7b")).1 = .ok false ∧
    ¬∃ e, (strictSession.load "-" (.ofInput "\x7b")).1 = .error e ∧
      e.exitStatus = Failed.invalidStatus := by
  have hread := strictSession_reads (t := "\x7b") (by decide) rfl
  have hdecode : (Parse.Document.decode strictSession.wording "\x7b" "-").isOk = false := by
    decide +kernel
  cases hfault : Parse.Document.decode strictSession.wording "\x7b" "-" with
  | ok content =>
      rw [hfault] at hdecode
      cases hdecode
  | error fault =>
      have hd := Session.decode_of_error (s := strictSession) hfault
      obtain ⟨w', hw⟩ := Command.readInput_of_ok (w := .ofInput "\x7b") hread
      rw [Command.validateDocument_of_read hw, Session.load_of_read hw, Command.validateData, hd]
      refine ⟨⟨rfl, by decide, rfl, hread⟩, rfl, ?_⟩
      rintro ⟨e, ⟨⟩, hstatus⟩
      cases hstatus

end Lossless
