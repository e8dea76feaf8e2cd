import Lossless.Proofs.Node.Rewriting
import Lossless.Proofs.Pass.Among

/-!
# Pass — passes as rules on descriptions

A pass whose calls follow a rule rewrites the description of its tree with that rule
(`PureTransform.Makes.rewriting`): all that has to be known is what a call returns for a node whose
children are done.  It comes on top of whatever else the calls are known to make of their nodes.

A tree in which another token stands in the place of the first one, with the same content but for the
trivia in front of it, is described without these (`MapsTokens.description_bare`).  This needs the
token to stand at one place only.
-/

namespace Lossless

/-- A description whose children are done, with a rule applied at its top. -/
def Description.atTop {α : Type} (f : Description.Rule α) : Description α → Description α
  | .composite k cs => .composite k (f k cs)
  | d => d

section Makes

variable {Q Q' : Set Node → Set Node → Node → Node → Prop} {S S' : Set Node} {cs rs : List Node}
  {f : Description.Rule Text}

theorem Chain.imp (h : Chain Q S cs rs S') (hQ : ∀ {S S' n r}, Q S S' n r → Q' S S' n r) :
    Chain Q' S cs rs S' := by
  induction h with
  | nil => exact .nil
  | cons hsub hr hq _ ih => exact .cons hsub hr (hQ hq) ih

theorem Chain.map_eq {β : Type} {g g' : Node → β} (h : Chain Q S cs rs S')
    (hQ : ∀ {S S' n r}, Q S S' n r → g r = g' n) : rs.map g = cs.map g' := by
  induction h with
  | nil => rfl
  | cons _ _ hq _ ih => rw [List.map_cons, List.map_cons, hQ hq, ih]

/-- The description of a node whose children became others. -/
theorem RegrownIn.description {n m : Node} (h : RegrownIn S n rs m S')
    (hrs : rs.map Node.description = n.children.map fun c => c.description.rewrite f) :
    m.description.atTop f = n.description.rewrite f := by
  -- kept or made anew, a list describes as the list of its results
  have hlist : ∀ id items w, n = .list id items w → m.description = .list (rs.map Node.description) := by
    rintro id items w rfl
    cases h with
    | kept h => subst h; exact congrArg _ (Node.descriptionAll_eq_map _)
    | anew _ _ _ => exact congrArg _ (Node.descriptionAll_eq_map _)
  have hcomposite : ∀ id k cs w, n = .composite id k cs w →
      m.description = .composite k (rs.map Node.description) := by
    rintro id k cs w rfl
    cases h with
    | kept h => subst h; exact Node.description_composite _ _ _ _
    | anew _ _ _ => exact Node.description_composite _ _ _ _
  cases n with
  | missing | token _ =>
      obtain rfl := h.eq_of_leaf id
      rfl
  | list id items w =>
      rw [hlist id items w rfl, hrs, Node.description, Node.descriptionAll_eq_map,
        Description.rewrite_list, List.map_map]
      rfl
  | composite id k cs w =>
      rw [hcomposite id k cs w rfl, hrs, Node.description_composite,
        Description.rewrite_composite, List.map_map]
      rfl

/-- **A pass whose calls follow a rule** rewrites descriptions with the rule. -/
theorem PureTransform.Makes.rewriting {fn : PureTransform} {S₀ : Set Node} {E : Node → Prop}
    (h : fn.Makes S₀ Q E)
    (hcall : ∀ {S S₁ S₂ : Set Node} {n m r : Node} {rs : List Node} {a : Ancestors} {s s' : Supply},
      S₀ ⊆ S → n ∈ S₀ → Chain Q S n.children rs S₁ → RegrownIn S₁ n rs m S₂ → m ∈ S₂ →
      Objects S₂ s → fn m a s = .ok (some r, s') → r.description = m.description.atTop f) :
    fn.Makes S₀ (fun S S' n r => Q S S' n r ∧ r.description = n.description.rewrite f) E where
  up := h.up
  call {S S₁ S₂ n m rs a s} hS hn hchain hm hmem hobjects := by
    have hchain' := hchain.imp And.left
    have hrs : rs.map Node.description = n.children.map fun c => c.description.rewrite f :=
      hchain.map_eq And.right
    have hmakes := h.call (a := a) hS hn hchain' hm hmem hobjects
    match hfn : fn m a s with
    | .error e => rwa [hfn] at hmakes
    | .ok (none, s') => rwa [hfn] at hmakes
    | .ok (some r, s') =>
        rw [hfn] at hmakes
        obtain ⟨S₃, hsub, hS₃, hr, hq⟩ := hmakes
        exact ⟨S₃, hsub, hS₃, hr, hq,
          (hcall hS hn hchain' hm hmem hobjects hfn).trans (hm.description hrs)⟩

end Makes

/-! ### Another first token -/

namespace Node

variable {f : Token → Token}

mutual
/-- A tree whose tokens are left alone. -/
theorem MapsTokens.description_same : ∀ {n r : Node}, MapsTokens f n r →
    (∀ t ∈ n.frontier, f t = t) → r.description = n.description
  | _, _, .missing, _ => rfl
  | _, _, .token, h => by rw [h _ (.head _)]
  | _, _, .list hs, h => by
      rw [frontier_list] at h
      exact congrArg Description.list (hs.description_same h)
  | _, _, .composite hs, h => by
      rw [frontier_composite] at h
      exact congrArg (Description.composite _) (hs.description_same h)

theorem MapsTokensAll.description_same : ∀ {ns rs : List Node}, MapsTokensAll f ns rs →
    (∀ t ∈ frontierAll ns, f t = t) → descriptionAll rs = descriptionAll ns
  | _, _, .nil, _ => rfl
  | _, _, .cons h hs, hf => by
      rw [frontierAll_cons] at hf
      rw [descriptionAll, descriptionAll, h.description_same fun t ht => hf t (List.mem_append_left _ ht),
        hs.description_same fun t ht => hf t (List.mem_append_right _ ht)]
end

/-- `u` is `t` without the trivia in front of it. -/
def IsBare (t u : Token) : Prop :=
  u.kind = t.kind ∧ u.leading = [] ∧ u.text = t.text ∧ u.trailing = t.trailing

mutual
/-- **A tree with a bare first token** is described without the trivia in front of it. -/
theorem MapsTokens.description_bare : ∀ {n r : Node} {t : Token} {ts : List Token},
    MapsTokens f n r → n.frontier = t :: ts → IsBare t (f t) → (∀ x ∈ ts, f x = x) →
      r.description = n.description.bare
  | _, _, _, _, .token, hn, hbare, _ => by
      rw [frontier_token] at hn
      cases hn
      obtain ⟨hkind, hleading, htext, htrailing⟩ := hbare
      simp [description, Description.bare, hkind, hleading, htext, htrailing]
  | _, _, _, _, .list hs, hn, hbare, h => by
      rw [frontier_list] at hn
      exact congrArg Description.list (hs.description_bare hn hbare h)
  | _, _, _, _, .composite hs, hn, hbare, h => by
      rw [frontier_composite] at hn
      exact congrArg (Description.composite _) (hs.description_bare hn hbare h)

theorem MapsTokensAll.description_bare : ∀ {ns rs : List Node} {t : Token} {ts : List Token},
    MapsTokensAll f ns rs → frontierAll ns = t :: ts → IsBare t (f t) → (∀ x ∈ ts, f x = x) →
      descriptionAll rs = Description.bareAll (descriptionAll ns)
  | n :: ns, r :: rs, t, ts, .cons h hs, hn, hbare, hf => by
      rw [frontierAll_cons] at hn
      rw [descriptionAll, descriptionAll, Description.bareAll, leads_description]
      cases hfront : n.frontier with
      | nil =>
          -- no token stands in `n`, so the first one stands behind it
          rw [hfront] at hn
          have hsame := h.description_same (by rw [hfront]; exact nofun)
          rw [hsame, hs.description_bare hn hbare hf]
          rfl
      | cons t' ts' =>
          rw [hfront, List.cons_append, List.cons.injEq] at hn
          obtain ⟨rfl, rfl⟩ := hn
          rw [h.description_bare hfront hbare fun x hx => hf x (List.mem_append_left _ hx),
            hs.description_same fun x hx => hf x (List.mem_append_right _ hx)]
          rfl
end

end Node

end Lossless
