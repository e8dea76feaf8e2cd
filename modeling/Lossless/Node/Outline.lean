import Lossless.Node.Basic
import Lossless.Text.Quoted

/-!
# Node — outlines

An outline shows a tree with one node per line, indented by its depth and labelled with the name of
its position.  Tokens show their text and trivia in quotes.
-/

namespace Lossless.Node

/-- A labelled part of an outline line; empty texts are left out. -/
def outlinePart (label : String) (t : Text) : String :=
  if t.isEmpty then "" else label ++ Text.quote t

/-- What an outline says of a node itself. -/
def headline : Node → String
  | .missing => "missing"
  | .token t => "token:" ++ t.kind ++ " " ++ Text.quote t.text
      ++ outlinePart " leading=" t.leadingText ++ outlinePart " trailing=" t.trailingText
  | .list _ items _ => "list[" ++ toString items.length ++ "]"
  | .composite _ k _ _ => k.name

/-- One line of an outline. -/
def outlineLine (depth : Nat) (label : String) (n : Node) : String :=
  String.ofList (List.replicate (2 * depth) ' ')
    ++ (if label = "" then "" else label ++ ": ") ++ n.headline ++ "\n"

mutual
/-- The lines of a tree at a depth, under a label. -/
def outlineAt (depth : Nat) (label : String) : Node → List String
  | .missing => [outlineLine depth label .missing]
  | .token t => [outlineLine depth label (.token t)]
  | .list id items w =>
    outlineLine depth label (.list id items w)
      :: outlineAll (depth + 1) ((List.range items.length).map toString) items
  | .composite id k cs w =>
    outlineLine depth label (.composite id k cs w) :: outlineAll (depth + 1) k.slotNames cs

@[inherit_doc outlineAt]
def outlineAll (depth : Nat) : List String → List Node → List String
  | _, [] => []
  | labels, n :: rest =>
    outlineAt depth (labels.headD "") n ++ outlineAll depth (labels.drop 1) rest
end

/-- The outline of a tree. -/
def outline (n : Node) : String := String.join (outlineAt 0 "" n)

end Lossless.Node
