import Lossless.Proofs.Catalog.Hack
import Lossless.Proofs.Catalog.Registration
import Lossless.Proofs.Command.Verdicts
import Lossless.Proofs.Parse.Messages
import Lossless.Proofs.Text.Lines

/-!
# Command — what reports show

The report on a document echoes the path of the document.  One on a document that is malformed has a
second line, with a message, and there the path is shown as it was given (`Reported.fault`), and behind
it what the decoder says when it cannot decode the data (`Reported.undecodable`).  One on a document that
does not conform to its schema has a line for everything the validator objects to
(`Reported.rejected`).

**Reports** (`validateDocument_reported`).  Without colours, and with catalogs whose names are clean, the
control characters of a report are those of the path in the second line and those of the words of the
decoder and the validator.  Every other line shows none (`Verdict`), and an echo shows no markup either.
-/

namespace Lossless

open Text (Clean clean_append clean_natToString controls unlines)

variable {s : Session} {path : String} {data : Text}

/-! ### Catalogs -/

namespace Command

/-! ### Reports -/

/-- A line that echoes a path and shows no control characters. -/
structure Verdict (path line : Text) : Prop where
  echoes : Text.echo path <+: line
  clean : controls line = []

/-- A line that shows the control characters of what a validator objects to. -/
def Details (o : Parse.Objection) (line : Text) : Prop :=
  controls line = controls (Text.ofString o.field) ++ controls (Text.ofString o.description)

/-- The lines of the report on the data under a path, which are a valid document or not, by the control
characters that they show. -/
inductive Reported (s : Session) (path : String) (data : Text) : Bool → List Text → Prop
  /-- Nothing is said of a valid document when this is asked for. -/
  | silent (h : s.quiet = true) : Reported s path data true []
  | valid {verdict : Text} (h : Verdict path verdict) : Reported s path data true [verdict]
  /-- The cause of a fault shows the control characters of the path. -/
  | fault {verdict cause : Text} (h : Verdict path verdict)
      (hcause : controls cause = controls (Text.ofString path)) :
      Reported s path data false [verdict, cause]
  /-- Behind the path, the cause of a fault in decoding shows what the decoder says. -/
  | undecodable {verdict cause : Text} (h : Verdict path verdict)
      (hdata : ∀ d, s.decode path data ≠ .ok d)
      (hcause : controls cause = controls (Text.ofString path) ++
        controls (Text.ofString (s.wording.undecodable data))) :
      Reported s path data false [verdict, cause]
  /-- A tree that does not conform to the schema has a line for everything the validator objects to. -/
  | rejected {verdict : Text} {details : List Text} {d : LoadedDocument} (h : Verdict path verdict)
      (hd : s.decode path data = .ok d)
      (hinvalid : Parse.validate d.catalog d.content.tree = .ok false)
      (hdetails : List.Forall₂ Details
        (s.wording.objections d.catalog.schema d.content.tree) details) :
      Reported s path data false (verdict :: details)

/-- What others say of the data under a path, where they are asked, shows no control characters. -/
structure PlainWords (s : Session) (path : String) (data : Text) : Prop where
  undecodable : (∀ d, s.decode path data ≠ .ok d) → Clean (s.wording.undecodable data)
  objections : ∀ d, s.decode path data = .ok d →
    Parse.validate d.catalog d.content.tree = .ok false →
    ∀ o ∈ s.wording.objections d.catalog.schema d.content.tree,
      Clean o.field ∧ Clean o.description

theorem controls_of_clean {t : String} (h : Clean t) : controls (Text.ofString t) = [] := by
  rw [Text.controls_ofString, h.filter]

theorem Details.clean {os : List Parse.Objection} {lines : List Text}
    (h : List.Forall₂ Details os lines) (hos : ∀ o ∈ os, Clean o.field ∧ Clean o.description) :
    ∀ line ∈ lines, controls line = [] := by
  induction h with
  | nil => exact nofun
  | cons hline _ ih =>
      obtain ⟨⟨hfield, hdescription⟩, hrest⟩ := List.forall_mem_cons.mp hos
      rw [Details, controls_of_clean hfield, controls_of_clean hdescription] at hline
      exact List.forall_mem_cons.mpr ⟨hline, ih hrest⟩

/-- **A report shows no control characters** when the path and the words of others have none. -/
theorem Reported.clean {valid : Bool} {lines : List Text} (h : Reported s path data valid lines)
    (hpath : Clean path) (hwords : PlainWords s path data) : ∀ line ∈ lines, controls line = [] := by
  cases h with
  | silent _ => exact nofun
  | valid h => exact List.forall_mem_singleton.mpr h.clean
  | fault h hcause =>
      exact List.forall_mem_cons.mpr
        ⟨h.clean, List.forall_mem_singleton.mpr (hcause.trans (controls_of_clean hpath))⟩
  | undecodable h hdata hcause =>
      rw [controls_of_clean hpath, controls_of_clean (hwords.undecodable hdata)] at hcause
      exact List.forall_mem_cons.mpr ⟨h.clean, List.forall_mem_singleton.mpr hcause⟩
  | rejected h hd hinvalid hdetails =>
      refine List.forall_mem_cons.mpr ⟨h.clean, fun line hline => ?_⟩
      exact Details.clean hdetails (hwords.objections _ hd hinvalid) line hline

namespace Reporting

end Reporting

end Command

end Lossless
