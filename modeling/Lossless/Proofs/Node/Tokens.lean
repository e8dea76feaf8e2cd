import Lossless.Proofs.Node.Traversal
import Lossless.Proofs.Node.View

/-!
# Node — tokens and text

The tokens of a tree are found in four ways: by the walk that collects them, from either end by a
search that skips the subtrees without any, and by the printer of the full text.  All of them go by
the frontier of the tree: tokens have no children, so it does not matter whether parents come before
children or behind them (`tokens_eq_frontier`).

**Text** (`text_between_ends`).  The full text of a tree is that of its tokens, and its text is what
stands between the leading trivia of the first token and the trailing trivia of the last one.
-/

namespace Lossless.Node

open Consumer

/-! ### The tokens from left to right -/

theorem frontierAll_eq (ns : List Node) : frontierAll ns = ns.flatMap frontier := by
  induction ns with
  | nil => rfl
  | cons n ns ih => rw [frontierAll_cons, List.flatMap_cons, ih]

theorem tokens_eq_frontier (n : Node) : n.tokens = n.frontier := by
  induction n using children_induct with
  | step n ih =>
      have hbelow : n.children.flatMap tokens = frontierAll n.children := by
        rw [frontierAll_eq]
        exact List.flatMap_congr ih
      rw [tokens_eq, frontier_eq, hbelow]
      -- there is something on one side only: a token has no children
      cases n <;> simp [token?, children]

/-- The rightmost token is the last one of the frontier. -/
theorem lastToken_eq (n : Node) : n.lastToken = n.frontier.getLast? := by
  have hall : ∀ ns : List Node, (∀ n ∈ ns, n.lastToken = n.frontier.getLast?) →
      lastTokenAll ns = (frontierAll ns).getLast? := by
    intro ns h
    induction ns with
    | nil => rfl
    | cons n ns ih =>
        rw [lastTokenAll, h n (.head _), ih fun m hm => h m (.tail _ hm), frontierAll_cons,
          List.getLast?_append]
        cases (frontierAll ns).getLast? <;> rfl
  induction n using induct with
  | missing | token _ => rfl
  | list _ items _ ih | composite _ _ items _ ih =>
      simp [lastToken, hall items ih]

/-! ### The text between the ends -/

/-- The trivia at the ends of a sequence of tokens do not overlap, also when it has one token. -/
theorem exists_between {ts : List Token} {first last : Token} (hfirst : ts.head? = some first)
    (hlast : ts.getLast? = some last) :
    ∃ inner, ts.flatMap Token.fullText = first.leadingText ++ inner ++ last.trailingText := by
  rcases List.eq_nil_or_concat ts with rfl | ⟨front, t, rfl⟩
  · cases hfirst
  · obtain rfl : t = last := by simpa using hlast
    cases front with
    | nil =>
        cases hfirst
        exact ⟨first.text, by simp [Token.fullText]⟩
    | cons s front =>
        cases hfirst
        refine ⟨first.text ++ first.trailingText ++ front.flatMap Token.fullText ++ t.leadingText
          ++ t.text, ?_⟩
        simp [Token.fullText]

variable {n : Node} {first last : Token}

theorem text_eq {inner : Text} (hfirst : n.firstToken = some first)
    (hlast : n.lastToken = some last)
    (h : n.fullText = first.leadingText ++ inner ++ last.trailingText) : n.text = inner := by
  have hlength : n.fullText.length - last.trailingText.length - first.leadingText.length
      = inner.length := by
    simp only [h, List.length_append]
    omega
  rw [text, hfirst, hlast]
  dsimp only
  rw [hlength, h, List.append_assoc, List.drop_left, List.take_left]

theorem text_of_no_token (h : n.firstToken = none) : n.text = n.fullText := by
  rw [text, h]

/-- The full text is the text between the trivia at its ends. -/
theorem fullText_eq_between (hfirst : n.firstToken = some first) (hlast : n.lastToken = some last) :
    n.fullText = first.leadingText ++ n.text ++ last.trailingText := by
  obtain ⟨inner, hinner⟩ :=
    exists_between (firstToken_eq n ▸ hfirst) (lastToken_eq n ▸ hlast)
  rw [← fullText_eq] at hinner
  rwa [text_eq hfirst hlast hinner]

theorem trivia_le_fullText (hfirst : n.firstToken = some first) (hlast : n.lastToken = some last) :
    first.leadingText.length + last.trailingText.length ≤ n.fullText.length := by
  rw [fullText_eq_between hfirst hlast, List.length_append, List.length_append]
  omega

/-- The text is a slice between places of the full text. -/
theorem slice?_text (hfirst : n.firstToken = some first) (hlast : n.lastToken = some last) :
    n.fullText.slice? first.leadingText.length
      (n.fullText.length - last.trailingText.length) = some n.text := by
  have hroom := trivia_le_fullText hfirst hlast
  rw [Text.slice?, if_pos ⟨by omega, by omega⟩, text, hfirst, hlast]

/-- **Tokens and text.** The tokens that the walk in pre-order collects spell the full text, each with
its leading trivia, its text and its trailing trivia, and the searches from both ends find the first
and the last of them. The text is the slice of the full text between the trivia at its ends, which do
not overlap; without tokens it is the full text. -/
theorem text_between_ends (n : Node) :
    (n.walkPreOrder (collect token?) [] = n.tokens ∧
      n.fullText = n.tokens.flatMap fun t => t.leadingText ++ t.text ++ t.trailingText) ∧
    (n.firstToken = n.tokens.head? ∧ n.lastToken = n.tokens.getLast?) ∧
    match n.firstToken, n.lastToken with
    | some first, some last =>
        first.leadingText.length + last.trailingText.length ≤ n.fullText.length ∧
        n.fullText.slice? first.leadingText.length
          (n.fullText.length - last.trailingText.length) = some n.text ∧
        n.fullText = first.leadingText ++ n.text ++ last.trailingText
    | _, _ => n.tokens = [] ∧ n.text = n.fullText := by
  have hfull : n.fullText = n.tokens.flatMap Token.fullText := by
    rw [tokens_eq_frontier, fullText_eq]
  have hhead : n.firstToken = n.tokens.head? := by rw [tokens_eq_frontier, firstToken_eq]
  have hlast : n.lastToken = n.tokens.getLast? := by rw [tokens_eq_frontier, lastToken_eq]
  -- the walk collects the tokens in the order in which they stand in the text
  refine ⟨⟨(walkPreOrder_gives n).collects _, hfull⟩, ⟨hhead, hlast⟩, ?_⟩
  cases hfirst : n.firstToken with
  | none => exact ⟨List.head?_eq_none_iff.mp (hhead ▸ hfirst), text_of_no_token hfirst⟩
  | some first =>
      cases hend : n.lastToken with
      | none =>
          exact ⟨List.getLast?_eq_none_iff.mp (hlast ▸ hend), by rw [text, hfirst, hend]⟩
      | some last =>
          exact ⟨trivia_le_fullText hfirst hend, slice?_text hfirst hend,
            fullText_eq_between hfirst hend⟩

end Lossless.Node
