import Lossless.Node.Basic

/-!
# Node — structural equality

Two nodes are equal when their classes, kinds, texts, trivia and children are.  The same object is
equal to itself without a walk, and nodes of different widths are told apart at once.
-/

namespace Lossless.Node

/-- Whether two nodes agree in class, kind and width. -/
def sameShape (a b : Node) : Bool :=
  a.nodeClass == b.nodeClass && a.kind == b.kind && a.width == b.width

/-- Whether two tokens have the same text and the same trivia. -/
def sameToken (a b : Token) : Bool :=
  a.text == b.text && a.leading == b.leading && a.trailing == b.trailing

mutual
/-- Structural equality of nodes. -/
def equal (a b : Node) : Bool :=
  a.same b || (sameShape a b && match a with
    | .missing => true
    | .token t => match b with
      | .token u => sameToken t u
      | _ => false
    | .list _ items _ => equalAll items b.children
    | .composite _ _ cs _ => equalAll cs b.children)

@[inherit_doc equal]
def equalAll : List Node → List Node → Bool
  | [], [] => true
  | a :: as, b :: bs => equal a b && equalAll as bs
  | _, _ => false
end

end Lossless.Node
