import Lossless.Proofs.Node.Alike
import Lossless.Proofs.Node.Positions
import Lossless.Proofs.Node.View
import Lossless.Proofs.Parse.Grammar

/-!
# Node — descriptions of trees

The description of a tree is what the tree is apart from the objects it is made of.  Trees of one
description are alike (`Node.alike_of_description`), and a description is known by its outline and its
texts (`Description.eq_of_outline`).  Positions lead to the same places in a tree and in its
description (`Node.at?_description`).
-/

namespace Lossless

theorem Trivia.pair_injective : Function.Injective fun x : Trivia => (x.kind, x.text) := by
  rintro ⟨kind, text⟩ ⟨kind', text'⟩ h
  cases h
  rfl

namespace Description

variable {α : Type}

/-- Induction on descriptions: what holds of a description when it holds of its children holds of
every description. -/
@[elab_as_elim]
theorem induct {motive : Description α → Prop} (missing : motive .missing)
    (token : ∀ kind leading text trailing, motive (.token kind leading text trailing))
    (list : ∀ items, (∀ d ∈ items, motive d) → motive (.list items))
    (composite : ∀ k cs, (∀ d ∈ cs, motive d) → motive (.composite k cs)) : ∀ d, motive d := by
  intro d
  cases d with
  | missing => exact missing
  | token kind leading text trailing => exact token kind leading text trailing
  | list items => exact list items fun c _ => induct missing token list composite c
  | composite k cs => exact composite k cs fun c _ => induct missing token list composite c

/-- The children of a description. -/
def children : Description α → List (Description α)
  | .missing | .token .. => []
  | .list items => items
  | .composite _ cs => cs

/-- The part of a description at a position. -/
def at? (d : Description α) : Position → Option (Description α)
  | [] => some d
  | i :: p => d.children[i]?.bind (at? · p)

/-! ### Outlines and texts -/

theorem eq_of_labels {ps qs : List (String × α)}
    (h : ps.map (fun p => (p.1, ())) = qs.map fun p => (p.1, ())) (hs : ps.map (·.2) = qs.map (·.2)) :
    ps = qs := by
  induction ps generalizing qs with
  | nil => cases qs with
    | nil => rfl
    | cons q qs => cases h
  | cons p ps ih =>
      cases qs with
      | nil => cases h
      | cons q qs =>
          simp only [List.map_cons, List.cons.injEq, Prod.mk.injEq, and_true] at h hs
          rw [Prod.ext h.1 hs.1, ih h.2 hs.2]

mutual
/-- Texts are told apart by the outline of what they belong to, also when others follow. -/
theorem eq_of_outline_append : ∀ {d e : Description α} {xs ys : List α}, d.outline = e.outline →
    d.leaves ++ xs = e.leaves ++ ys → d = e ∧ xs = ys
  | .missing, .missing, _, _, _, hl => ⟨rfl, hl⟩
  | .token kind leading text trailing, .token kind' leading' text' trailing', xs, ys, ho, hl => by
      simp only [outline, Description.token.injEq] at ho
      obtain ⟨rfl, hleading, -, htrailing⟩ := ho
      -- the outlines fix how many of the leaves are leading and how many are trailing
      have hlen := congrArg List.length hleading
      have hlen' := congrArg List.length htrailing
      simp only [List.length_map] at hlen hlen'
      simp only [leaves, List.append_assoc, List.cons_append] at hl
      obtain ⟨hfront, hrest⟩ := List.append_inj hl (by simpa using hlen)
      obtain ⟨rfl, hend⟩ := List.cons.inj hrest
      obtain ⟨hback, rfl⟩ := List.append_inj hend (by simpa using hlen')
      rw [eq_of_labels hleading hfront, eq_of_labels htrailing hback]
      exact ⟨rfl, rfl⟩
  | .list items, .list items', _, _, ho, hl => by
      simp only [outline, Description.list.injEq] at ho
      obtain ⟨rfl, rfl⟩ := eqAll_of_outline_append ho hl
      exact ⟨rfl, rfl⟩
  | .composite k cs, .composite k' cs', _, _, ho, hl => by
      simp only [outline, Description.composite.injEq] at ho
      obtain ⟨rfl, ho⟩ := ho
      obtain ⟨rfl, rfl⟩ := eqAll_of_outline_append ho hl
      exact ⟨rfl, rfl⟩

theorem eqAll_of_outline_append : ∀ {ds es : List (Description α)} {xs ys : List α},
    outlineAll ds = outlineAll es → leavesAll ds ++ xs = leavesAll es ++ ys → ds = es ∧ xs = ys
  | [], [], _, _, _, hl => ⟨rfl, hl⟩
  | d :: ds, e :: es, _, _, ho, hl => by
      simp only [outlineAll, List.cons.injEq] at ho
      simp only [leavesAll, List.append_assoc] at hl
      obtain ⟨rfl, hrest⟩ := eq_of_outline_append ho.1 hl
      obtain ⟨rfl, rfl⟩ := eqAll_of_outline_append ho.2 hrest
      exact ⟨rfl, rfl⟩
end

/-- **A description is known by its outline and its texts.** -/
theorem eq_of_outline {d e : Description α} (ho : d.outline = e.outline) (hl : d.leaves = e.leaves) :
    d = e := by
  have h : d = e ∧ ([] : List α) = [] := eq_of_outline_append ho (by simpa using hl)
  exact h.1

end Description

/-! ### Trees -/

mutual
/-- Trees of one description are alike. -/
theorem Node.alike_of_description : ∀ {a b : Node}, a.description = b.description → Node.Alike a b
  | .missing, .missing, _ => .missing
  | .token t, .token u, h => by
      simp only [Node.description, Description.token.injEq] at h
      obtain ⟨hkind, hleading, htext, htrailing⟩ := h
      exact .token hkind (Trivia.pair_injective.list_map hleading) htext
        (Trivia.pair_injective.list_map htrailing)
  | .list _ items _, .list _ items' _, h => by
      simp only [Node.description, Description.list.injEq] at h
      exact .list (Node.alikeAll_of_description h)
  | .composite _ k cs _, .composite _ k' cs' _, h => by
      simp only [Node.description, Description.composite.injEq] at h
      exact .composite (congrArg Kind.name h.1) (Node.alikeAll_of_description h.2)

theorem Node.alikeAll_of_description : ∀ {as bs : List Node},
    Node.descriptionAll as = Node.descriptionAll bs → Node.AlikeAll as bs
  | [], [], _ => .nil
  | a :: as, b :: bs, h => by
      simp only [Node.descriptionAll, List.cons.injEq] at h
      exact .cons (Node.alike_of_description h.1) (Node.alikeAll_of_description h.2)
end

namespace Node

theorem descriptionAll_eq_map (ns : List Node) : descriptionAll ns = ns.map description := by
  induction ns with
  | nil => rfl
  | cons n ns ih => rw [descriptionAll, ih, List.map_cons]

theorem description_children (n : Node) : n.description.children = n.children.map description := by
  cases n with
  | missing | token _ => rfl
  | list _ items _ => exact descriptionAll_eq_map items
  | composite _ _ cs _ => exact descriptionAll_eq_map cs

theorem description_composite (id : Nat) (k : Kind) (cs : List Node) (w : Nat) :
    (Node.composite id k cs w).description = .composite k (cs.map description) := by
  rw [description, descriptionAll_eq_map]

/-- What stands at a position of a tree is described at that position. -/
theorem at?_description (n : Node) (p : Position) :
    n.description.at? p = (n.at? p).map description := by
  induction p generalizing n with
  | nil => rfl
  | cons i p ih =>
      rw [Description.at?, Node.at?, description_children, List.getElem?_map]
      cases n.children[i]? with
      | none => rfl
      | some c => exact ih c

end Node

end Lossless
