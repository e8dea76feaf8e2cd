import Lossless.Node.Text
import Lossless.Pass.Basic

/-!
# Migration — keeping trivia in front

When a new token is put in front of a node, the comments and the indentation before the node have
to come before the new token.
-/

namespace Lossless

/-- Takes the leading trivia off the first token of `source` and puts it in front of the leading
trivia of `target`. Both stay as they are when there is no such text. -/
def moveLeadingTrivia (source : Node) (target : Token) : Make Failure (Node × Token) :=
  match source.firstToken with
  | none => pure (source, target)
  | some first =>
    if first.leadingText = [] then pure (source, target)
    else do
      let bare ← first.withLeading []
      let stripped ← fun supply =>
        (Pass.replace source (some (.token first)) (some (.token bare)) supply).mapError
          (.stripping first.kind)
      return (stripped, ← target.withLeading (first.leading ++ target.leading))

end Lossless
