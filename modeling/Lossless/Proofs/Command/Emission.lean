import Lossless.Command.Migrated
import Lossless.Proofs.Ensures
import Lossless.Proofs.Files.Writing
import Lossless.Proofs.Lists

/-!
# Command — what is left of migrated documents

Migrated documents are written one after the other, each to a file that its path gives: next to the
document, or in one directory for all.  So two documents can have one file: in a directory those with
one base name have, and so do a document and its compressed copy.  No check is made for this.

A document changes the file that it is written to, and no other one (`emit_files`).  From this follows
what a whole run leaves: a file that no document is written to is kept (`emitAll_keeps`), and **the
last one stays** (`emitAll_last`) in a file that several are written to.

For the migrated sources (`writing_keeps_last`) this means that all of them are kept exactly when
documents with one file have one migrated source.  With distinct paths alone one can be lost
(`migrated_source_lost`).
-/

namespace Lossless

variable {w w' : World}

/-! ### Writing one document -/

namespace Command

theorem orFail_eq_ok {α ε : Type} {wrap : ε → CommandError} {x : Except ε α} {a : α} :
    orFail wrap x w = (.ok a, w') ↔ x = .ok a ∧ w' = w := by
  cases x with
  | error e => exact iff_of_false nofun nofun
  | ok b =>
      constructor
      · rintro ⟨⟩
        exact ⟨rfl, rfl⟩
      · rintro ⟨⟨⟩, rfl⟩
        rfl

theorem writeFile_files {wrap : FileError → CommandError} {path contents : Text}
    (h : writeFile wrap path contents w = (.ok (), w')) :
    w.files.write path contents = .ok w'.files := by
  obtain ⟨_, _, ⟨⟩, h⟩ := run_bind_eq_ok.mp h
  obtain ⟨files, t, hwrite, h⟩ := run_bind_eq_ok.mp h
  obtain ⟨hwrite, rfl⟩ := orFail_eq_ok.mp hwrite
  cases h
  exact hwrite

/-- A file that is written holds what was written, and all others what they held. -/
theorem writeOutput_files {target contents : Text}
    (h : writeOutput target contents w = (.ok (), w')) (q : Text) :
    w'.files.files.lookup q =
      if Path.clean target = q then some contents else w.files.files.lookup q := by
  obtain ⟨_, _, ⟨⟩, h⟩ := run_bind_eq_ok.mp h
  obtain ⟨files, t, hdirs, h⟩ := run_bind_eq_ok.mp h
  obtain ⟨hdirs, rfl⟩ := orFail_eq_ok.mp hdirs
  obtain ⟨_, t, ⟨⟩, h⟩ := run_bind_eq_ok.mp h
  rw [FileSystem.write_eq_put (writeFile_files h), FileSystem.lookup_put]
  show (if Path.clean target = q then _ else files.files.lookup q) = _
  rw [FileSystem.files_makeDirectories hdirs]

end Command

namespace Migrated

variable {opts : EmitOptions} {o : Migrated} {os : List Migrated} {q : Text}

/-- The document is written to the file under a cleaned path. -/
def WrittenTo (opts : EmitOptions) (q : Text) (o : Migrated) : Prop :=
  o.isWritten opts = true ∧ Path.clean o.target = q

instance : Decidable (o.WrittenTo opts q) := inferInstanceAs (Decidable (_ ∧ _))

/-- A document changes only the file that it is written to. -/
theorem emit_files (h : o.emit opts w = (.ok (), w')) (q : Text) :
    w'.files.files.lookup q =
      if o.WrittenTo opts q then some o.after else w.files.files.lookup q := by
  have hwrite : ∀ t : World, t.files = w.files →
      (if o.isWritten opts then Command.writeOutput o.target o.after else pure () : Command Unit) t =
        (.ok (), w') →
      w'.files.files.lookup q =
        if o.WrittenTo opts q then some o.after else w.files.files.lookup q := by
    intro t hfiles ht
    split at ht
    · next hwritten =>
        rw [Command.writeOutput_files ht q, hfiles]
        simp only [WrittenTo, hwritten, true_and]
    · next hwritten =>
        cases ht
        rw [hfiles, if_neg fun h => hwritten h.1]
  -- what is printed leaves the files as they are
  have hprinted : ∀ (shown : Text) (t : World), Command.print shown w = (.ok (), t) →
      t.files = w.files := by
    rintro shown t ⟨⟩
    rfl
  unfold emit at h
  split at h
  · obtain ⟨_, t, hprint, h⟩ := run_bind_eq_ok.mp h
    exact hwrite t (hprinted _ t hprint) h
  · split at h
    · obtain ⟨_, t, hprint, h⟩ := run_bind_eq_ok.mp h
      exact hwrite t (hprinted _ t hprint) h
    · exact hwrite w rfl h

/-! ### Writing many documents -/

theorem emitAll_append (before after : List Migrated) :
    emitAll opts (before ++ after) w = (.ok (), w') ↔
      ∃ t, emitAll opts before w = (.ok (), t) ∧ emitAll opts after t = (.ok (), w') := by
  induction before generalizing w with
  | nil =>
      constructor
      · intro h
        exact ⟨w, rfl, h⟩
      · rintro ⟨t, ⟨⟩, h⟩
        exact h
  | cons o before ih =>
      constructor
      · intro h
        obtain ⟨_, t, ho, h⟩ := run_bind_eq_ok.mp h
        obtain ⟨u, hbefore, h⟩ := ih.mp h
        exact ⟨u, run_bind_eq_ok.mpr ⟨_, t, ho, hbefore⟩, h⟩
      · rintro ⟨u, hbefore, h⟩
        obtain ⟨_, t, ho, hbefore⟩ := run_bind_eq_ok.mp hbefore
        exact run_bind_eq_ok.mpr ⟨_, t, ho, ih.mpr ⟨u, hbefore, h⟩⟩

/-- A file that no document is written to is kept. -/
theorem emitAll_keeps (h : emitAll opts os w = (.ok (), w')) (hos : ∀ o ∈ os, ¬o.WrittenTo opts q) :
    w'.files.files.lookup q = w.files.files.lookup q := by
  induction os generalizing w with
  | nil =>
      cases h
      rfl
  | cons o os ih =>
      obtain ⟨ho, hos⟩ := List.forall_mem_cons.mp hos
      obtain ⟨_, t, hemit, h⟩ := run_bind_eq_ok.mp h
      rw [ih h hos, emit_files hemit, if_neg ho]

/-- A file that documents are written to holds what the last of them holds. -/
theorem emitAll_last (h : emitAll opts os w = (.ok (), w')) (hlast : LastOf (WrittenTo opts q) os o) :
    w'.files.files.lookup q = some o.after := by
  obtain ⟨before, after, rfl, ho, hafter⟩ := hlast
  obtain ⟨t, -, h⟩ := (emitAll_append _ _).mp h
  obtain ⟨_, u, hemit, h⟩ := run_bind_eq_ok.mp h
  rw [emitAll_keeps h hafter, emit_files hemit, if_pos ho]

/-! ### Kept texts -/

/-- The document is to be written: it was changed, or there is a directory for it. -/
def IsOutput (opts : EmitOptions) (o : Migrated) : Prop := o.changed = true ∨ opts.outputDir ≠ []

/-- Both documents have their output path at one file. -/
def SameFile (opts : EmitOptions) (a b : Migrated) : Prop :=
  Path.clean (Input.outputPath a.path opts.outputDir) =
    Path.clean (Input.outputPath b.path opts.outputDir)

instance {a b : Migrated} : Decidable (SameFile opts a b) := inferInstanceAs (Decidable (_ = _))

/-- The file at the output path of a document holds its migrated source. -/
def IsKept (opts : EmitOptions) (fs : FileSystem) (o : Migrated) : Prop :=
  fs.contents? (Input.outputPath o.path opts.outputDir) = some o.after

theorem isWritten_iff (hwrite : opts.write = true) : o.isWritten opts = true ↔ o.IsOutput opts := by
  rw [isWritten, hwrite, Bool.true_and, Bool.or_eq_true, Bool.not_eq_true', List.isEmpty_eq_false_iff,
    IsOutput]

/-- When documents were written, the file of each of them holds the migrated source of the last one
with that file. So all of them are kept if and only if those with one file have one migrated source.
All other files are as they were. -/
theorem writing_keeps_last (hwrite : opts.write = true)
    (htarget : ∀ o ∈ os, o.target = Input.outputPath o.path opts.outputDir)
    (hok : emitAll opts os w = (.ok (), w')) :
    (∀ o ∈ os, o.IsOutput opts →
      ∃ last, LastOf (fun a => a.IsOutput opts ∧ SameFile opts a o) os last ∧
        w'.files.contents? (Input.outputPath o.path opts.outputDir) = some last.after) ∧
    ((∀ o ∈ os, o.IsOutput opts → IsKept opts w'.files o) ↔
      ∀ a ∈ os, ∀ b ∈ os, a.IsOutput opts → b.IsOutput opts → SameFile opts a b →
        a.after = b.after) ∧
    ∀ q, (∀ o ∈ os, o.IsOutput opts → Path.clean (Input.outputPath o.path opts.outputDir) ≠ q) →
      w'.files.files.lookup q = w.files.files.lookup q := by
  have hto : ∀ o ∈ os, ∀ q, o.WrittenTo opts q ↔
      o.IsOutput opts ∧ Path.clean (Input.outputPath o.path opts.outputDir) = q := by
    intro o ho q
    rw [WrittenTo, isWritten_iff hwrite, htarget o ho]
  have hlast : ∀ o ∈ os, o.IsOutput opts →
      ∃ last, LastOf (fun a => a.IsOutput opts ∧ SameFile opts a o) os last ∧
        w'.files.contents? (Input.outputPath o.path opts.outputDir) = some last.after := by
    intro o ho hout
    obtain ⟨last, hlast⟩ :=
      exists_lastOf (p := fun a => a.IsOutput opts ∧ SameFile opts a o) ho ⟨hout, rfl⟩
    refine ⟨last, hlast, emitAll_last hok ?_⟩
    -- the same document is the last one that is written to the file
    obtain ⟨before, after, heq, hholds, hafter⟩ := hlast
    refine ⟨before, after, heq, (hto last (by simp [heq]) _).mpr hholds, fun b hb hbto => ?_⟩
    exact hafter b hb ((hto b (by simp [heq, hb]) _).mp hbto)
  refine ⟨hlast, ⟨fun hkept a ha b hb haout hbout hsame => ?_, fun hsame o ho hout => ?_⟩,
    fun q hq => emitAll_keeps hok fun o ho hoto => ?_⟩
  · -- one file has one content
    have hfile : w'.files.contents? (Input.outputPath a.path opts.outputDir) =
        w'.files.contents? (Input.outputPath b.path opts.outputDir) :=
      congrArg (w'.files.files.lookup ·) hsame
    rw [hkept a ha haout, hkept b hb hbout] at hfile
    exact Option.some.inj hfile
  · obtain ⟨last, hlast, hholds⟩ := hlast o ho hout
    obtain ⟨hlastout, hfile⟩ := hlast.holds
    rw [IsKept, hholds, hsame last hlast.mem o ho hlastout hout hfile]
  · obtain ⟨hout, hfile⟩ := (hto o ho q).mp hoto
    exact hq o ho hout hfile

/-- Writing into the directory `out`. -/
def intoOut : EmitOptions := { write := true, outputDir := "out", diff := false }

/-- A document whose source was empty before it was migrated. -/
def filled (path : String) (text : Text) : Migrated where
  path := path
  target := Input.outputPath path "out"
  before := []
  after := text
  results := []

/-- Three documents, of which the first and the last have the same base name. -/
def threeDocuments : List Migrated :=
  [filled "a/x.json" "1", filled "b/y.json" "2", filled "c/x.json" "3"]

theorem sameFile_first_last :
    SameFile intoOut (filled "a/x.json" "1") (filled "c/x.json" "3") := by decide +kernel

theorem emitAll_threeDocuments : ∃ w', emitAll intoOut threeDocuments {} = (.ok (), w') := by
  have hok : (emitAll intoOut threeDocuments {}).1.isOk = true := by decide +kernel
  match hrun : emitAll intoOut threeDocuments {} with
  | (.ok (), w') => exact ⟨w', rfl⟩
  | (.error e, w') =>
      rw [hrun] at hok
      cases hok

theorem target_threeDocuments :
    ∀ o ∈ threeDocuments, o.target = Input.outputPath o.path intoOut.outputDir := by
  simp [threeDocuments, filled, intoOut]

theorem isOutput_intoOut (o : Migrated) : o.IsOutput intoOut := .inr (by decide)

theorem writing_keeps_last_threeDocuments : ∃ w' : World,
    (intoOut.write = true ∧
      (∀ o ∈ threeDocuments, o.target = Input.outputPath o.path intoOut.outputDir) ∧
      emitAll intoOut threeDocuments {} = (.ok (), w')) ∧
    IsKept intoOut w'.files (filled "b/y.json" "2") ∧
    ¬∀ o ∈ threeDocuments, o.IsOutput intoOut → IsKept intoOut w'.files o := by
  obtain ⟨w', hok⟩ := emitAll_threeDocuments
  obtain ⟨hlast, hkept, -⟩ := writing_keeps_last rfl target_threeDocuments hok
  refine ⟨w', ⟨rfl, target_threeDocuments, hok⟩, ?_, hkept.not.mpr fun hsame => ?_⟩
  · -- no other document has the file of the second one
    have hsecond : filled "b/y.json" "2" ∈ threeDocuments := .tail _ (.head _)
    obtain ⟨last, hlast, hholds⟩ := hlast _ hsecond (isOutput_intoOut _)
    have hfirst : ¬SameFile intoOut (filled "a/x.json" "1") (filled "b/y.json" "2") := by
      decide +kernel
    have hafter : last.after = Text.ofString "2" := by
      have hfile := hlast.holds.2
      have hmem := hlast.mem
      simp only [threeDocuments, List.mem_cons, List.not_mem_nil, or_false] at hmem
      obtain rfl | rfl | rfl := hmem
      · exact absurd hfile hfirst
      · rfl
      · exact absurd (sameFile_first_last.trans hfile) hfirst
    exact hholds.trans (congrArg some hafter)
  · have htext := hsame _ (.head _) _ (.tail _ (.tail _ (.head _))) (isOutput_intoOut _)
      (isOutput_intoOut _) sameFile_first_last
    exact absurd htext (by decide)

/-- A migrated source is lost: another document has its output path at the same file. -/
theorem migrated_source_lost : ∃ w' : World,
    (threeDocuments.map (·.path)).Nodup ∧ intoOut.write = true ∧
    (∀ o ∈ threeDocuments, o.target = Input.outputPath o.path intoOut.outputDir) ∧
    emitAll intoOut threeDocuments {} = (.ok (), w') ∧
    ∃ o ∈ threeDocuments, o.IsOutput intoOut ∧ ¬IsKept intoOut w'.files o := by
  obtain ⟨w', hok⟩ := emitAll_threeDocuments
  have hpaths : (threeDocuments.map (·.path)).Nodup := by simp [threeDocuments, filled]
  refine ⟨w', hpaths, rfl, target_threeDocuments, hok, filled "a/x.json" "1", .head _,
    isOutput_intoOut _, fun hkept => ?_⟩
  have hlast : LastOf (WrittenTo intoOut (Path.clean (Input.outputPath "a/x.json" "out")))
      threeDocuments (filled "c/x.json" "3") :=
    ⟨[_, _], [], rfl, ⟨rfl, sameFile_first_last.symm⟩, nofun⟩
  have htext := hkept.symm.trans (emitAll_last hok hlast)
  exact absurd htext (by decide)

end Migrated

end Lossless
