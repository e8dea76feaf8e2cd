import Lossless.Proofs.Node.Description

/-!
# Node — rewriting descriptions bottom up

What a pass makes of a tree, apart from which objects it shares, is a function on descriptions: every
composite gets other children, chosen by a *rule* from its kind and from what its children became
(`Description.rewrite`).

**Composition** (`rewrite_rewrite`).  Rewriting twice is rewriting once with one rule after the other,
when the first rule can as well be applied after the children were rewritten a second time.

Two things are read off a description that rules look at: the trivia in front of its tokens, left to
right (`Description.leads`), and what is left without those in front of the first token
(`Description.bare`).
-/

namespace Lossless

namespace Description

variable {α : Type}

/-- How a composite of a kind gets other children. -/
abbrev Rule (α : Type) := Kind → List (Description α) → List (Description α)

mutual
/-- A description with a rule applied at every composite, children first. -/
def rewrite (f : Rule α) : Description α → Description α
  | .missing => .missing
  | .token kind leading text trailing => .token kind leading text trailing
  | .list items => .list (rewriteAll f items)
  | .composite k cs => .composite k (f k (rewriteAll f cs))

@[inherit_doc rewrite]
def rewriteAll (f : Rule α) : List (Description α) → List (Description α)
  | [] => []
  | d :: rest => rewrite f d :: rewriteAll f rest
end

variable {f g : Rule α}

theorem rewriteAll_eq_map (f : Rule α) (ds : List (Description α)) :
    rewriteAll f ds = ds.map (rewrite f) := by
  induction ds with
  | nil => rfl
  | cons d ds ih => rw [rewriteAll, ih, List.map_cons]

@[simp] theorem rewrite_list (f : Rule α) (items : List (Description α)) :
    rewrite f (.list items) = .list (items.map (rewrite f)) := by
  rw [rewrite, rewriteAll_eq_map]

@[simp] theorem rewrite_composite (f : Rule α) (k : Kind) (cs : List (Description α)) :
    rewrite f (.composite k cs) = .composite k (f k (cs.map (rewrite f))) := by
  rw [rewrite, rewriteAll_eq_map]

/-- **Rewriting twice** is rewriting once, when the first rule does not mind that the children are
rewritten a second time. -/
theorem rewrite_rewrite (hg : ∀ k ds, (g k ds).map (rewrite f) = g k (ds.map (rewrite f)))
    (d : Description α) : (d.rewrite g).rewrite f = d.rewrite fun k ds => f k (g k ds) := by
  induction d using induct with
  | missing => rfl
  | token _ _ _ _ => rfl
  | list items ih =>
      simp only [rewrite_list, List.map_map]
      exact congrArg _ (List.map_congr_left ih)
  | composite k cs ih =>
      simp only [rewrite_composite, hg, List.map_map]
      congr 3
      exact List.map_congr_left ih

/-- Rules that do not mind each other can be applied in any order. -/
theorem rewrite_comm (hf : ∀ k ds, (f k ds).map (rewrite g) = f k (ds.map (rewrite g)))
    (hg : ∀ k ds, (g k ds).map (rewrite f) = g k (ds.map (rewrite f)))
    (h : ∀ k ds, f k (g k ds) = g k (f k ds)) (d : Description α) :
    (d.rewrite g).rewrite f = (d.rewrite f).rewrite g := by
  rw [rewrite_rewrite hg, rewrite_rewrite hf]
  congr 1
  funext k ds
  exact h k ds

/-! ### Trivia in front of tokens -/

mutual
/-- The trivia in front of each token, left to right. -/
def leads : Description α → List (List (String × α))
  | .missing => []
  | .token _ leading _ _ => [leading]
  | .list items => leadsAll items
  | .composite _ cs => leadsAll cs

@[inherit_doc leads]
def leadsAll : List (Description α) → List (List (String × α))
  | [] => []
  | d :: rest => leads d ++ leadsAll rest
end

mutual
/-- A description without the trivia in front of its first token. -/
def bare : Description α → Description α
  | .missing => .missing
  | .token kind _ text trailing => .token kind [] text trailing
  | .list items => .list (bareAll items)
  | .composite k cs => .composite k (bareAll cs)

@[inherit_doc bare]
def bareAll : List (Description α) → List (Description α)
  | [] => []
  | d :: rest => if d.leads.isEmpty then d :: bareAll rest else bare d :: rest
end

end Description

namespace Node

mutual
/-- The trivia in front of the tokens of a tree. -/
theorem leads_description : ∀ n : Node,
    n.description.leads = n.frontier.map fun t => t.leading.map fun x => (x.kind, x.text)
  | .missing => rfl
  | .token _ => rfl
  | .list _ items _ => by
      rw [frontier_list]
      exact leadsAll_description items
  | .composite _ _ cs _ => by
      rw [frontier_composite]
      exact leadsAll_description cs

theorem leadsAll_description : ∀ ns : List Node, Description.leadsAll (descriptionAll ns) =
    (frontierAll ns).map fun t => t.leading.map fun x => (x.kind, x.text)
  | [] => rfl
  | n :: ns => by
      rw [descriptionAll, Description.leadsAll, frontierAll_cons, List.map_append,
        leads_description n, leadsAll_description ns]
end

end Node

end Lossless
