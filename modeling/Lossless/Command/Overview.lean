import Lossless.Catalog.Basic
import Lossless.Command.Grid
import Lossless.Migration.Basic
import Lossless.Text.Template

/-!
# Command — overviews

The grids that list the kinds of a catalog, the slots of a kind, and migrations.
-/

namespace Lossless

/-- The slots of a kind. Its name is the template of the title. -/
def Kind.grid (k : Kind) : Grid where
  title := Template.withoutValues k.name
  head := ["Slot", "JSON key", "Variants"]
  rows := k.slots.map fun s => [.text s.name, .text s.key, .text s.variants.text]

/-- The kinds of a catalog. -/
def Catalog.grid (c : Catalog) : Grid where
  title := c.language ++ " catalog"
  head := ["Kind", "Slots"]
  rows := c.sortedKinds.map fun k => [.text k.name, .text (", ".intercalate k.slotNames)]
  foot := [toString c.kinds.length ++ " kinds, " ++ toString c.tokenKinds.length ++ " tokens, "
    ++ toString c.triviaKinds.length ++ " trivia"]

/-- The steps and descriptions of migrations. -/
def Migration.grid (ms : List Migration) : Grid where
  head := ["Name", "Steps", "Description"]
  rows := ms.map fun m =>
    [.text m.name, .text ("[" ++ " ".intercalate (m.steps.map (·.name)) ++ "]"),
      .text m.description]

end Lossless
