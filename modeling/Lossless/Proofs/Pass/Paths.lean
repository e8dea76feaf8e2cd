import Lossless.Proofs.Node.Paths
import Lossless.Proofs.Pass.Calls
import Lossless.Proofs.Pass.Substitution
import Mathlib.Data.List.Find

/-!
# Pass — the path that a call sees

The search for the ancestors of an object and a pass find the nodes above a position independently:
the search goes parents before children and carries a path with every waiting node, a pass goes
children before parents and links the ancestors of the children of each node.  They agree on the first
position of an object, because an object does not stand below itself (`apart_hits`).

**Ancestors** (`ancestors_of_first_call`).  What the search finds is a path from the root to the first
position of the object, and it is what the first call for the object sees in a pass that changes
nothing.
-/

namespace Lossless

/-- The transform that leaves every node as it is. -/
def PureTransform.identity : PureTransform := fun n _ => pure (some n)

namespace Node

variable {S : Set Node} {supply : Supply} {root target : Node} {p : Position} {path : List Node}

theorem holds_iff_hits : root.Holds target ↔ ∃ p, root.hits target p = true := by
  simp only [Holds, hits_eq_true_iff]

/-- What stands at a position of an object is the object. -/
theorem at?_of_hits (hS : Objects S supply) (hroot : root ∈ S) (htarget : target ∈ S)
    (h : root.hits target p = true) : root.at? p = some target := by
  obtain ⟨m, hm, hsame⟩ := hits_eq_true_iff.mp h
  rw [hm, hS.eq_of_same (mem_of_at? hS.child hroot hm) htarget hsame]

/-- No position of an object is above another one. -/
theorem apart_hits (hS : Objects S supply) (hroot : root ∈ S) (htarget : target ∈ S) :
    root.Apart (root.hits target) := by
  rintro p - _ - hp hq ⟨t, rfl⟩
  have hbelow := at?_of_hits hS hroot htarget hq
  rw [at?_append (at?_of_hits hS hroot htarget hp)] at hbelow
  rw [eq_nil_of_at?_self hbelow, List.append_nil]

/-- The path to the first position of an object, parents before children. It starts with the root,
every node on it is a child of the one before, and the object is a child of the last. -/
structure PathTo (root target : Node) (p : Position) (path : List Node) : Prop where
  first : root.topDown.find? (root.hits target) = some p
  holds : root.at? p = some target
  above : path = root.above p
  head : path.head? = some root
  chain : (path ++ [target]).IsChain fun a b => b ∈ a.children

theorem exists_pathTo (hS : Objects S supply) (hroot : root ∈ S) (htarget : target ∈ S)
    (h : root.ancestors target = some path) : ∃ p, PathTo root target p path := by
  obtain ⟨p, hp, hne, rfl⟩ := ancestors_eq_some_iff.mp h
  have hat := at?_of_hits hS hroot htarget (List.find?_some hp)
  refine ⟨p, hp, hat, rfl, ?_, isChain_above hat⟩
  cases p with
  | nil => exact (hne rfl).elim
  | cons i p => rfl

end Node

namespace Pass

variable {σ : Type} {fn : Transform σ}

/-! ### Passes with the identity -/

/-- The transform answers every call with the node it is called for. -/
def Idle (fn : Transform σ) : Prop := ∀ n a s, (fn n a s).1 = .ok (some n)

theorem identity_idle : Idle (PureTransform.identity.lift (σ := σ)).logged := fun _ _ _ => rfl

mutual
/-- A pass with such a transform calls it for the nodes as they stand, and returns its tree. -/
theorem Visits.idle (hfn : Idle fn) {a : Ancestors} {p : Position} {n : Node}
    {st st' : PassState σ} {tr : List Entry} {o : Except Failure Node} :
    Visits fn a p n st tr o st' → o = .ok n ∧ ∀ e ∈ tr, e.call.node = e.origin
  | @Visits.call _ _ a _ _ m _ _ st₂ _ _ hall hm => by
      obtain ⟨hrs, hnodes⟩ := hall.idle hfn
      cases hrs
      obtain rfl : m = n := by
        cases hm with
        | kept _ => rfl
        | anew hs _ => simp at hs
      refine ⟨?_, List.forall_mem_append.mpr ⟨hnodes, List.forall_mem_singleton.mpr rfl⟩⟩
      rw [apply_run]
      dsimp only
      rw [hfn m a _, answer]
  | .stop hall => nomatch (hall.idle hfn).1

theorem VisitsAll.idle (hfn : Idle fn) {a : Ancestors} {p : Position} {i : Nat} {cs : List Node}
    {st st' : PassState σ} {tr : List Entry} {o : Except Failure (List Node)} :
    VisitsAll fn a p i cs st tr o st' → o = .ok cs ∧ ∀ e ∈ tr, e.call.node = e.origin
  | .nil => ⟨rfl, nofun⟩
  | .cons h hrest => by
      obtain ⟨hr, hnodes⟩ := h.idle hfn
      obtain ⟨hrs, hothers⟩ := hrest.idle hfn
      cases hr
      cases hrs
      exact ⟨rfl, List.forall_mem_append.mpr ⟨hnodes, hothers⟩⟩
  | .later _ hrest => nomatch (hrest.idle hfn).1
  | .stop h => nomatch (h.idle hfn).1
end

/-- The calls of a pass with the identity: one for every position, in post-order, with the node that
stands there. -/
structure TellsIdle (root : Node) (trace : List Entry) : Prop where
  tells : Tells root {} trace
  order : trace.map (·.position) = root.positions
  nodes : ∀ e ∈ trace, e.call.node = e.origin

theorem identity_calls {K : Kind → Prop} {root : Node} (hroot : root.Sound K) (supply : Supply) :
    let o := whole root (PureTransform.identity.lift (σ := Unit)).logged supply ((), [])
    o.result = .ok root ∧ ∃ trace, TellsIdle root trace ∧ trace.map (·.call) = o.memory.2 := by
  intro o
  obtain ⟨trace, h⟩ :=
    below_visits hroot (PureTransform.identity.lift (σ := Unit)).logged {} supply ((), [])
  obtain ⟨hresult, hnodes⟩ := h.idle identity_idle
  refine ⟨hresult, trace, ⟨h.tells, ?_, hnodes⟩, h.log.symm⟩
  simpa using h.order.2 root hresult

/-! ### The first call for an object -/

variable {S : Set Node} {supply : Supply} {root target : Node} {trace : List Entry}

/-- The first call for an object is at its first position. -/
theorem TellsIdle.find?_position (h : TellsIdle root trace) (target : Node) :
    (trace.find? (·.origin.same target)).map (·.position) =
      root.positions.find? (root.hits target) := by
  rw [← h.order, List.find?_map]
  refine congrArg _ (List.find?_congr fun e he => ?_)
  rw [Function.comp, Node.hits, h.tells.origin e he, Option.any_some]

/-- **The path to an object is what the first call for it sees.** The search finds nothing exactly
when the object is the root or stands nowhere below it. Otherwise it finds the path to the first
position of the object in pre-order. A pass with the identity comes to the object there first, though
it goes children before parents, and the call sees that path. Keeping a record of the calls does not
change the pass. -/
theorem ancestors_of_first_call (hS : Objects S supply) (hroot : root ∈ S) (htarget : target ∈ S) :
    let o := whole root (PureTransform.identity.lift (σ := Unit)).logged supply ((), [])
    (root.ancestors target = none ↔ root.same target = true ∨ ¬root.Holds target) ∧
    root.topDown.map root.at? = root.preOrder.map some ∧
    (withStats root .identity supply = o.part Prod.fst ∧ o.result = .ok root) ∧
    ∃ trace, TellsIdle root trace ∧ trace.map (·.call) = o.memory.2 ∧
      ∀ path, root.ancestors target = some path →
        ∃ p, Node.PathTo root target p path ∧
          ∃ e, trace.find? (·.origin.same target) = some e ∧ e.position = p ∧
            e.call.ancestors.toList = path := by
  intro o
  obtain ⟨hresult, trace, hidle, hcalls⟩ := identity_calls (hS.sound root hroot) supply
  have hrun : withStats root .identity supply = o.part Prod.fst :=
    below_part (Transform.logged_extends _) root {} supply ((), [])
  refine ⟨?_, root.map_at?_topDown, ⟨hrun, hresult⟩, trace, hidle, hcalls, fun path hpath => ?_⟩
  · rw [Node.ancestors_eq_none_iff, Node.holds_iff_hits]
    simp
  · obtain ⟨p, hp⟩ := Node.exists_pathTo hS hroot htarget hpath
    -- the first call on the target comes at the first of its places in the walk
    have hfirst := hidle.find?_position target
    rw [← Node.find?_topDown root (Node.apart_hits hS hroot htarget), hp.first] at hfirst
    obtain ⟨e, he, rfl⟩ := Option.map_eq_some_iff.mp hfirst
    refine ⟨e.position, hp, e, he, rfl, ?_⟩
    rw [hidle.tells.above e (List.mem_of_find?_eq_some he), hp.above]
    exact List.nil_append _

theorem ancestors_sharedTree :
    sharedTree.ancestors (.token ⟨1, "name", [], [97], [], 1⟩) = some [sharedTree] :=
  Node.ancestors_eq_some_iff.mpr ⟨[0], rfl, List.cons_ne_nil _ _, rfl⟩

/-- The token stands in the tree and, further down, in a list of the tree. -/
theorem ancestors_of_first_call_sharedTree :
    (Objects sharedObjects 4 ∧ sharedTree ∈ sharedObjects ∧
      .token ⟨1, "name", [], [97], [], 1⟩ ∈ sharedObjects) ∧
    ∃ trace, TellsIdle sharedTree trace ∧ ∃ p,
      Node.PathTo sharedTree (.token ⟨1, "name", [], [97], [], 1⟩) p [sharedTree] ∧
      ∃ e, trace.find? (·.origin.same (.token ⟨1, "name", [], [97], [], 1⟩)) = some e ∧
        e.position = p ∧ e.call.ancestors.toList = [sharedTree] := by
  have hroot : sharedTree ∈ sharedObjects := Set.mem_insert _ _
  have htoken : .token ⟨1, "name", [], [97], [], 1⟩ ∈ sharedObjects := .inr (.inr (.inl rfl))
  obtain ⟨-, -, -, trace, hidle, -, hfirst⟩ :=
    ancestors_of_first_call sharedObjects_objects hroot htoken
  exact ⟨⟨sharedObjects_objects, hroot, htoken⟩, trace, hidle, hfirst _ ancestors_sharedTree⟩

end Pass

end Lossless
