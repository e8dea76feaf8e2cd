import Lossless.Node.Basic

/-!
# Node — text

The full text of a tree is the concatenation of its tokens with their trivia.  The text of a node
leaves out the trivia in front of its first token and after its last one.
-/

namespace Lossless.Node

mutual
/-- The source text of a node, trivia included. -/
def fullText : Node → Text
  | .missing => []
  | .token t => t.fullText
  | .list _ items _ => fullTextAll items
  | .composite _ _ cs _ => fullTextAll cs

@[inherit_doc fullText]
def fullTextAll : List Node → Text
  | [] => []
  | n :: rest => fullText n ++ fullTextAll rest
end

mutual
/-- The leftmost token of a tree. -/
def firstToken : Node → Option Token
  | .missing => none
  | .token t => some t
  | .list _ items _ => firstTokenAll items
  | .composite _ _ cs _ => firstTokenAll cs

@[inherit_doc firstToken]
def firstTokenAll : List Node → Option Token
  | [] => none
  | n :: rest =>
    match firstToken n with
    | some t => some t
    | none => firstTokenAll rest
end

mutual
/-- The rightmost token of a tree. -/
def lastToken : Node → Option Token
  | .missing => none
  | .token t => some t
  | .list _ items _ => lastTokenAll items
  | .composite _ _ cs _ => lastTokenAll cs

@[inherit_doc lastToken]
def lastTokenAll : List Node → Option Token
  | [] => none
  | n :: rest =>
    match lastTokenAll rest with
    | some t => some t
    | none => lastToken n
end

/-- The text of a node without the trivia at its ends. -/
def text (n : Node) : Text :=
  let full := n.fullText
  match n.firstToken, n.lastToken with
  | some first, some last =>
    (full.drop first.leadingText.length).take
      (full.length - last.trailingText.length - first.leadingText.length)
  | _, _ => full

end Lossless.Node
