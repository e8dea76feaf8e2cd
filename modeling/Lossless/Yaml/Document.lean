import Lossless.Yaml.Expansion
import Lossless.Yaml.Value

/-!
# Yaml — reading documents

The data of the first document of a text.  With `records` every mapping is a record, whose keys are
names; otherwise only the outermost one is.
-/

namespace Lossless.Yaml

/-- The data of a whole document. -/
def Node.rootValue? (records : Bool) : Node → Option Value
  | .map entries =>
    (joined? entries [] (ownEntries? records true [] entries) fun seen =>
      mergedEntries? records true seen entries).map .map
  | n => n.value? records

/-- The data of the first document of a text, none inside for an empty text; the outer option fails
on malformed documents and on those that aliases blow up too far. -/
def read? (records : Bool) (t : Text) : Option (Option Value) :=
  match parse? t with
  | none => none
  | some none => some none
  | some (some n) => if n.isExpandable then (n.rootValue? records).map some else none

end Lossless.Yaml
