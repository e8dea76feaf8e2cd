import Lossless.Proofs.Pass.Ancestors
import Lossless.Proofs.Pass.Trace

/-!
# Pass — the calls of a pass

What the transform is called for, and when.  The facts are those of a trace (`Visits`), each by
induction on the rules of a pass: in which order positions come (`Visits.order`), what stands at them
and above them (`Visits.places`), which node is passed and where its children come from
(`Visits.seen`), how the answers lead to the outcome (`Visits.answers`), and what is counted on the
way (`Visits.stats`).

**Calls** (`calls_in_post_order`).  A pass calls the transform for the positions of the tree in
post-order until a call fails.  Each call sees the node at its position, built anew if a child became
another object, below the ancestors of the pass and the nodes of the tree as it was.
-/

namespace Lossless

namespace Pass

variable {σ : Type} {fn : Transform σ}

/-! ### The order of the calls -/

mutual
/-- Calls come in post-order. They stop somewhere, but not before the end if there is a result. -/
theorem Visits.order {a : Ancestors} {p : Position} {n : Node} {st st' : PassState σ}
    {tr : List Entry} {o : Except Failure Node} : Visits fn a p n st tr o st' →
      tr.map (·.position) <+: n.positions.map (p ++ ·) ∧
        ∀ r, o = .ok r → tr.map (·.position) = n.positions.map (p ++ ·)
  | .call hall _ => by
      have h := hall.order.2 _ rfl
      rw [Node.positions_eq]
      simp [h]
  | .stop hall => by
      refine ⟨?_, nofun⟩
      rw [Node.positions_eq, List.map_append]
      exact hall.order.1.trans (List.prefix_append _ _)

theorem VisitsAll.order {a : Ancestors} {p : Position} {i : Nat} {cs : List Node}
    {st st' : PassState σ} {tr : List Entry} {o : Except Failure (List Node)} :
    VisitsAll fn a p i cs st tr o st' →
      tr.map (·.position) <+: (Node.positionsAll i cs).map (p ++ ·) ∧
        ∀ rs, o = .ok rs → tr.map (·.position) = (Node.positionsAll i cs).map (p ++ ·)
  | .nil => ⟨List.nil_prefix, fun _ _ => rfl⟩
  | .cons h hrest => by
      have h₁ := h.order.2 _ rfl
      have h₂ := hrest.order.2 _ rfl
      simp [Node.positionsAll, h₁, h₂, Function.comp_def]
  | .later h hrest => by
      refine ⟨?_, nofun⟩
      have h₁ := h.order.2 _ rfl
      simp only [Node.positionsAll, List.map_append, h₁, List.map_map, Function.comp_def,
        List.append_assoc, List.singleton_append]
      exact (List.prefix_append_right_inj _).mpr hrest.order.1
  | .stop h => by
      refine ⟨?_, nofun⟩
      have h₁ := h.order.1
      simp only [List.append_assoc, List.singleton_append] at h₁
      rw [Node.positionsAll, List.map_append, List.map_map]
      exact h₁.trans (List.prefix_append _ _)
end

/-! ### Where the calls stand -/

/-- An entry for a position at or below `p`, where the tree `n` stands below the ancestors `a`: what
is there, and what is above it. -/
def Entry.StandsIn (e : Entry) (a : Ancestors) (p : Position) (n : Node) : Prop :=
  ∃ q, e.position = p ++ q ∧ n.at? q = some e.origin ∧
    e.call.ancestors.chain = (n.above q).reverse ++ a.chain

theorem Entry.StandsIn.of_child {e : Entry} {a : Ancestors} {p : Position} {i : Nat} {n c : Node}
    (h : e.StandsIn (a.push n) (p ++ [i]) c) (hc : n.children[i]? = some c) :
    e.StandsIn a p n := by
  obtain ⟨q, hq, hat, hchain⟩ := h
  refine ⟨i :: q, by simp [hq], by rw [Node.at?_cons hc, hat], ?_⟩
  rw [hchain, Node.above_cons hc, List.reverse_cons, List.append_assoc]
  rfl

mutual
/-- Every call is for a position of the tree, below the nodes that stand above it. -/
theorem Visits.places {a : Ancestors} {p : Position} {n : Node} {st st' : PassState σ}
    {tr : List Entry} {o : Except Failure Node} :
    Visits fn a p n st tr o st' → ∀ e ∈ tr, e.StandsIn a p n
  | .call hall _ => by
      intro e he
      rcases List.mem_append.mp he with he | he
      · obtain ⟨j, c, hc, hstands⟩ := hall.places e he
        rw [Nat.zero_add] at hstands
        exact hstands.of_child hc
      · obtain rfl := List.mem_singleton.mp he
        exact ⟨[], by simp, rfl, rfl⟩
  | .stop hall => by
      intro e he
      obtain ⟨j, c, hc, hstands⟩ := hall.places e he
      rw [Nat.zero_add] at hstands
      exact hstands.of_child hc

theorem VisitsAll.places {a : Ancestors} {p : Position} {i : Nat} {cs : List Node}
    {st st' : PassState σ} {tr : List Entry} {o : Except Failure (List Node)} :
    VisitsAll fn a p i cs st tr o st' →
      ∀ e ∈ tr, ∃ j c, cs[j]? = some c ∧ e.StandsIn a (p ++ [i + j]) c
  | .nil => nofun
  | .cons h hrest | .later h hrest => by
      intro e he
      rcases List.mem_append.mp he with he | he
      · exact ⟨0, _, rfl, h.places e he⟩
      · obtain ⟨j, c, hc, hstands⟩ := hrest.places e he
        rw [Nat.add_assoc, Nat.add_comm 1] at hstands
        exact ⟨j + 1, c, hc, hstands⟩
  | .stop h => fun e he => ⟨0, _, rfl, h.places e he⟩
end

/-! ### What the calls answer -/

/-- A call that returned a node. -/
def Entry.Succeeds (e : Entry) : Prop := ∃ r, e.call.answer = .ok (some r)

/-- All calls returned nodes, and the last of them is for a position and returned `r`. -/
def Gives (tr : List Entry) (p : Position) (r : Node) : Prop :=
  ∃ front e, tr = front ++ [e] ∧ (∀ e' ∈ front, e'.Succeeds) ∧ e.position = p ∧
    e.call.answer = .ok (some r)

/-- The last call is the first that did not return a node, and `err` is what the pass makes of it. -/
def Stopped (tr : List Entry) (err : Failure) : Prop :=
  ∃ front e, tr = front ++ [e] ∧ (∀ e' ∈ front, e'.Succeeds) ∧
    answer e.call.node e.call.answer = .error err

/-- What came out at a position. -/
def Became (tr : List Entry) (p : Position) (r : Node) : Prop :=
  ∃ e ∈ tr, e.position = p ∧ e.call.answer = .ok (some r)

/-- All calls returned nodes, and the results are what came out at the children of `p` from number
`i` on. -/
def GivesAll (tr : List Entry) (p : Position) (i : Nat) (rs : List Node) : Prop :=
  (∀ e ∈ tr, e.Succeeds) ∧ ∀ j r, rs[j]? = some r → Became tr (p ++ [i + j]) r

theorem Gives.succeeds {tr : List Entry} {p : Position} {r : Node} (h : Gives tr p r) :
    ∀ e ∈ tr, e.Succeeds := by
  obtain ⟨front, e, rfl, hfront, -, hr⟩ := h
  exact List.forall_mem_append.mpr ⟨hfront, List.forall_mem_singleton.mpr ⟨r, hr⟩⟩

theorem Gives.became {tr : List Entry} {p : Position} {r : Node} (h : Gives tr p r) :
    Became tr p r := by
  obtain ⟨front, e, rfl, -, hp, hr⟩ := h
  exact ⟨e, by simp, hp, hr⟩

theorem Became.mono {tr tr' : List Entry} {p : Position} {r : Node} (h : Became tr p r)
    (hsub : tr ⊆ tr') : Became tr' p r := by
  obtain ⟨e, he, hrest⟩ := h
  exact ⟨e, hsub he, hrest⟩

theorem Stopped.append {tr tr' : List Entry} {err : Failure} (h : Stopped tr' err)
    (htr : ∀ e ∈ tr, e.Succeeds) : Stopped (tr ++ tr') err := by
  obtain ⟨front, e, rfl, hfront, he⟩ := h
  exact ⟨tr ++ front, e, by simp, List.forall_mem_append.mpr ⟨htr, hfront⟩, he⟩

mutual
/-- A pass goes on as long as calls return nodes; its outcome is that of the last call. -/
theorem Visits.answers {a : Ancestors} {p : Position} {n : Node} {st st' : PassState σ}
    {tr : List Entry} {o : Except Failure Node} :
    Visits fn a p n st tr o st' → Meets (Gives tr p) (Stopped tr) o
  | @Visits.call _ _ a _ _ m _ _ st₂ _ _ hall _ => by
      have hfront := hall.answers.1
      rw [apply_run]
      dsimp only
      cases ho : answer m (fn m a (st₂.supply, st₂.memory)).1 with
      | ok r => exact ⟨_, _, rfl, hfront, rfl, answer_eq_ok ho⟩
      | error err => exact ⟨_, _, rfl, hfront, ho⟩
  | .stop hall => hall.answers

theorem VisitsAll.answers {a : Ancestors} {p : Position} {i : Nat} {cs : List Node}
    {st st' : PassState σ} {tr : List Entry} {o : Except Failure (List Node)} :
    VisitsAll fn a p i cs st tr o st' → Meets (GivesAll tr p i) (Stopped tr) o
  | .nil => ⟨nofun, nofun⟩
  | .cons h hrest => by
      have h₁ := h.answers
      have h₂ := hrest.answers
      refine ⟨List.forall_mem_append.mpr ⟨h₁.succeeds, h₂.1⟩, fun j r hr => ?_⟩
      cases j with
      | zero =>
          cases hr
          exact h₁.became.mono (List.subset_append_left _ _)
      | succ j =>
          have hj := h₂.2 j r hr
          rw [Nat.add_assoc, Nat.add_comm 1] at hj
          exact hj.mono (List.subset_append_right _ _)
  | .later h hrest => hrest.answers.append h.answers.succeeds
  | .stop h => h.answers
end

/-! ### What the calls see -/

/-- The node that a call is given: the one that stands at the position, if the results are the
children of it, object by object. Otherwise it is a new object, the last one that was made before the
call, of the same class and kind, and its children are the results. -/
def Entry.Passed (e : Entry) : Prop :=
  if Node.sameAll e.results e.origin.children = true then e.call.node = e.origin
  else e.call.node.nodeClass = e.origin.nodeClass ∧ e.call.node.kind = e.origin.kind ∧
    Node.sameAll e.call.node.children e.results = true ∧ e.call.node.id + 1 = e.call.supply

/-- The results of a call are what came out at the children of its position, one for each. -/
def Entry.Collects (e : Entry) (tr : List Entry) : Prop :=
  e.results.length = e.origin.childCount ∧
    ∀ j r, e.results[j]? = some r → Became tr (e.position ++ [j]) r

theorem Entry.Collects.mono {e : Entry} {tr tr' : List Entry} (h : e.Collects tr)
    (hsub : tr ⊆ tr') : e.Collects tr' := ⟨h.1, fun j r hr => (h.2 j r hr).mono hsub⟩

theorem Regrown.passed {n m : Node} {rs : List Node} {st st' : PassState σ}
    (h : Regrown n rs st m st') (hlen : rs.length = n.children.length) (p : Position)
    (a : Ancestors) : Entry.Passed ⟨p, n, rs, fn.callIn m a (st'.supply, st'.memory)⟩ := by
  cases h with
  | kept hs => simp [Entry.Passed, Transform.callIn, hs]
  | @anew hs cs hcs =>
      have hinner : n.IsInner := by
        cases n with
        | missing | token _ =>
            obtain rfl := List.eq_nil_of_length_eq_zero hlen
            cases hs
        | list _ _ _ | composite _ _ _ _ => trivial
      have hclass : (n.renewed st.supply cs).nodeClass = n.nodeClass := by cases n <;> rfl
      have hkind : (n.renewed st.supply cs).kind = n.kind := by cases n <;> rfl
      simp [Entry.Passed, Transform.callIn, hs, hclass, hkind, Node.renewed_children hinner,
        Node.renewed_id hinner, hcs]

theorem Entry.Passed.kind_eq {e : Entry} (h : e.Passed) : e.call.node.kind = e.origin.kind := by
  unfold Entry.Passed at h
  split at h
  · rw [h]
  · exact h.2.1

mutual
/-- Every call is for a node made of what its children became. -/
theorem Visits.seen {a : Ancestors} {p : Position} {n : Node} {st st' : PassState σ}
    {tr : List Entry} {o : Except Failure Node} :
    Visits fn a p n st tr o st' → ∀ e ∈ tr, e.Passed ∧ e.Collects tr
  | .call hall hm => by
      intro e he
      rcases List.mem_append.mp he with he | he
      · obtain ⟨hpassed, hcollects⟩ := hall.seen e he
        exact ⟨hpassed, hcollects.mono (List.subset_append_left _ _)⟩
      · obtain rfl := List.mem_singleton.mp he
        refine ⟨hm.passed hall.length_eq p a, hall.length_eq, fun j r hr => ?_⟩
        have hj := hall.answers.2 j r hr
        rw [Nat.zero_add] at hj
        exact hj.mono (List.subset_append_left _ _)
  | .stop hall => hall.seen

theorem VisitsAll.seen {a : Ancestors} {p : Position} {i : Nat} {cs : List Node}
    {st st' : PassState σ} {tr : List Entry} {o : Except Failure (List Node)} :
    VisitsAll fn a p i cs st tr o st' → ∀ e ∈ tr, e.Passed ∧ e.Collects tr
  | .nil => nofun
  | .cons h hrest | .later h hrest => by
      intro e he
      rcases List.mem_append.mp he with he | he
      · obtain ⟨hpassed, hcollects⟩ := h.seen e he
        exact ⟨hpassed, hcollects.mono (List.subset_append_left _ _)⟩
      · obtain ⟨hpassed, hcollects⟩ := hrest.seen e he
        exact ⟨hpassed, hcollects.mono (List.subset_append_right _ _)⟩
  | .stop h => h.seen
end

/-! ### What is counted -/

/-- What is counted for the calls of a trace. -/
def counted (tr : List Entry) : Stats where
  visited := Int64.ofNat tr.length
  rebuilt := Int64.ofNat (tr.countP Entry.childChanged)
  replaced := Int64.ofNat (tr.countP (·.call.replaces))

theorem Stats.add_counted_append (s : Stats) (tr tr' : List Entry) :
    s.add (counted (tr ++ tr')) = (s.add (counted tr)).add (counted tr') := by
  simp [Stats.add, counted, List.countP_append, Int64.ofNat_add, Int64.add_assoc]

theorem counted_singleton (e : Entry) :
    counted [e] = ⟨1, if e.childChanged then 1 else 0, if e.call.replaces then 1 else 0⟩ := by
  cases hc : e.childChanged <;> cases hr : e.call.replaces <;> simp [counted, hc, hr]

theorem afterCall_eq (s : Stats) (c : Call) :
    s.afterCall c.node c.answer = s.add ⟨1, 0, if c.replaces then 1 else 0⟩ := by
  rcases c with ⟨supply, n, a, e | r | m⟩
  · simp [Stats.afterCall, Call.replaces, Stats.add]
  · simp [Stats.afterCall, Call.replaces, Stats.add]
  · cases hs : m.same n <;> simp [Stats.afterCall, Call.replaces, Stats.add, hs]

/-- One call is counted once, with the node that was built for it. -/
theorem Regrown.counted {n m : Node} {rs : List Node} {st st' : PassState σ}
    (h : Regrown n rs st m st') (p : Position) (a : Ancestors) :
    (apply fn a m st').2.stats =
      st.stats.add (counted [⟨p, n, rs, fn.callIn m a (st'.supply, st'.memory)⟩]) := by
  have hcall : (apply fn a m st').2.stats = st'.stats.add
      ⟨1, 0, if (fn.callIn m a (st'.supply, st'.memory)).replaces then 1 else 0⟩ := by
    rw [apply_run]
    exact afterCall_eq st'.stats (fn.callIn m a (st'.supply, st'.memory))
  rw [hcall, counted_singleton]
  cases h with
  | kept hs => simp [Stats.add, Entry.childChanged, hs]
  | anew hs hcs => simp [Stats.add, Entry.childChanged, hs]

mutual
/-- A pass counts the calls of its trace. -/
theorem Visits.stats {a : Ancestors} {p : Position} {n : Node} {st st' : PassState σ}
    {tr : List Entry} {o : Except Failure Node} :
    Visits fn a p n st tr o st' → st'.stats = st.stats.add (counted tr)
  | .call hall hm => by
      rw [hm.counted p a, hall.stats, Stats.add_counted_append]
  | .stop hall => hall.stats

theorem VisitsAll.stats {a : Ancestors} {p : Position} {i : Nat} {cs : List Node}
    {st st' : PassState σ} {tr : List Entry} {o : Except Failure (List Node)} :
    VisitsAll fn a p i cs st tr o st' → st'.stats = st.stats.add (counted tr)
  | .nil => by simp [Stats.add, counted]
  | .cons h hrest | .later h hrest => by rw [hrest.stats, h.stats, Stats.add_counted_append]
  | .stop h => h.stats
end

/-! ### The calls of a pass -/

/-- A trace tells the calls of a pass over a tree below ancestors: they are for positions of the tree
in post-order, at each of which stands what is said to stand there, with the nodes above it that the
call sees. Each call is given what its children became. -/
structure Tells (root : Node) (a : Ancestors) (trace : List Entry) : Prop where
  order : trace.map (·.position) <+: root.positions
  origin : ∀ e ∈ trace, root.at? e.position = some e.origin
  above : ∀ e ∈ trace, e.call.ancestors.toList = a.toList ++ root.above e.position
  collects : ∀ e ∈ trace, e.Collects trace
  passed : ∀ e ∈ trace, e.Passed

theorem Visits.tells {a : Ancestors} {root : Node} {st st' : PassState σ} {tr : List Entry}
    {o : Except Failure Node} (h : Visits fn a [] root st tr o st') : Tells root a tr where
  order := by simpa using h.order.1
  origin e he := by
    obtain ⟨q, hq, hat, -⟩ := h.places e he
    rwa [hq]
  above e he := by
    obtain ⟨q, hq, -, hchain⟩ := h.places e he
    rw [hq, Ancestors.toList_eq, Ancestors.toList_eq, hchain]
    simp
  collects e he := (h.seen e he).2
  passed e he := (h.seen e he).1

theorem below_visits {K : Kind → Prop} {root : Node} (hroot : root.Sound K) (fn : Transform σ)
    (a : Ancestors) (supply : Supply) (memory : σ) :
    ∃ tr, Visits fn a [] root ⟨supply, {}, memory⟩ tr (below root fn a supply memory).result
      ⟨(below root fn a supply memory).supply, (below root fn a supply memory).stats,
        (below root fn a supply memory).memory⟩ := by
  rw [below_eq]
  exact eager_visits hroot a [] ⟨supply, {}, memory⟩

theorem answer_eq_error {n : Node} {r : Except Failure (Option Node)} {err : Failure}
    (h : answer n r = .error err) :
    ∃ cause, (r = .error cause ∨ r = .ok none ∧ cause = .noResult) ∧ err = .onNode n.kind cause := by
  match r, h with
  | .error cause, h => cases h; exact ⟨cause, .inl rfl, rfl⟩
  | .ok none, h => cases h; exact ⟨.noResult, .inr ⟨rfl, rfl⟩, rfl⟩

/-- What a pass fails with is the failure of its last call with the kind of the node in front. -/
theorem Stopped.cause {tr : List Entry} {err : Failure} (h : Stopped tr err)
    (hpassed : ∀ e ∈ tr, e.Passed) : ∃ e cause, tr.getLast? = some e ∧
      (e.call.answer = .error cause ∨ e.call.answer = .ok none ∧ cause = .noResult) ∧
      err = .onNode e.origin.kind cause := by
  obtain ⟨front, e, rfl, -, he⟩ := h
  obtain ⟨cause, hcause, rfl⟩ := answer_eq_error he
  refine ⟨e, cause, List.getLast?_concat, hcause, ?_⟩
  rw [(hpassed e (by simp)).kind_eq]

theorem succeeds_of_mem_dropLast {tr : List Entry} {p : Position} {o : Except Failure Node}
    (h : Meets (Gives tr p) (Stopped tr) o) : ∀ e ∈ tr.dropLast, e.Succeeds := by
  cases o with
  | ok r =>
      obtain ⟨front, e, rfl, hfront, -⟩ := h
      rwa [List.dropLast_concat]
  | error err =>
      obtain ⟨front, e, rfl, hfront, -⟩ := h
      rwa [List.dropLast_concat]

/-- **The calls of a pass.** For every sound tree, all ancestors and every transform, which may
remember its earlier calls: a transform that also keeps a record of its calls has the same outcome,
and its record is told by a trace. The calls are for the positions of the tree in post-order, one for
each, as long as calls return nodes. With a result there was a call for every node, and the result is
what the call for the root returned. Otherwise the last call failed or returned no node, and the error
is that failure with the kind of the node in front, whatever the depth. Nodes can always be built
anew. -/
theorem calls_in_post_order {K : Kind → Prop} {root : Node} (hroot : root.Sound K)
    (fn : Transform σ) (a : Ancestors) (supply : Supply) (memory : σ) :
    let o := below root fn.logged a supply (memory, [])
    below root fn a supply memory = o.part Prod.fst ∧
    (root.positions.map root.at? = root.postOrder.map some ∧ root.positions.Nodup) ∧
    (∀ kind cause, o.result ≠ .error (.rebuilding kind cause)) ∧
    ∃ trace : List Entry, trace.map (·.call) = o.memory.2 ∧ Tells root a trace ∧
      o.stats.visited = Int64.ofNat trace.length ∧
      (∀ e ∈ trace.dropLast, ∃ r, e.call.answer = .ok (some r)) ∧
      (∀ m, o.result = .ok m →
        trace.map (·.position) = root.positions ∧ trace.length = root.size ∧
        ∃ e, trace.getLast? = some e ∧ e.call.answer = .ok (some m)) ∧
      ∀ err, o.result = .error err → ∃ e cause, trace.getLast? = some e ∧
        (e.call.answer = .error cause ∨ e.call.answer = .ok none ∧ cause = .noResult) ∧
        err = .onNode e.origin.kind cause ∧
        err.message = "rewrite " ++ e.origin.kind ++ ": " ++ cause.message := by
  intro o
  obtain ⟨trace, h⟩ := below_visits hroot fn.logged a supply (memory, [])
  have htells := h.tells
  have hanswers : Meets (Gives trace []) (Stopped trace) o.result := h.answers
  -- an error comes from the last call
  have hcause : ∀ err, o.result = .error err → ∃ e cause, trace.getLast? = some e ∧
      (e.call.answer = .error cause ∨ e.call.answer = .ok none ∧ cause = .noResult) ∧
      err = .onNode e.origin.kind cause := by
    intro err herr
    rw [herr] at hanswers
    exact Stopped.cause hanswers htells.passed
  refine ⟨below_part (Transform.logged_extends fn) root a supply (memory, []),
    ⟨root.map_at?_positions, root.nodup_positions⟩, ?_, trace, ?_, htells, ?_,
    succeeds_of_mem_dropLast hanswers, ?_, ?_⟩
  · intro kind cause herr
    obtain ⟨_, _, -, -, he⟩ := hcause _ herr
    cases he
  · exact (h.log).symm
  · have hstats := congrArg Stats.visited h.stats
    simpa [Stats.add, counted] using hstats
  · intro m hm
    have hpositions : trace.map (·.position) = root.positions := by simpa using h.order.2 m hm
    rw [hm] at hanswers
    obtain ⟨front, e, rfl, -, -, hr⟩ := hanswers
    refine ⟨hpositions, ?_, e, List.getLast?_concat, hr⟩
    rw [← root.length_positions, ← hpositions, List.length_map]
  · intro err herr
    obtain ⟨e, cause, hlast, hfails, rfl⟩ := hcause err herr
    exact ⟨e, cause, hlast, hfails, rfl, rfl⟩

/-- A list in a list, with a token and the missing node. -/
def nestedTree : Node := .list 3 [.list 2 [.token ⟨1, "name", [], [97], [], 1⟩] 1, .missing] 1

/-- The transform that gives up at its third call. -/
def giveUpAtThird : Transform Nat := fun n _ s =>
  if s.2 = 2 then (.error (.custom "enough"), s) else (.ok (some n), s.1, s.2 + 1)

theorem nestedTree_sound : nestedTree.Sound fun _ => True := by
  have htoken : (Node.token ⟨1, "name", [], [97], [], 1⟩).Sound fun _ => True := .token rfl
  have hlist : (Node.list 2 [.token ⟨1, "name", [], [97], [], 1⟩] 1).Sound fun _ => True :=
    .list (List.forall_mem_singleton.mpr htoken)
  exact .list (List.forall_mem_cons.mpr ⟨hlist, List.forall_mem_singleton.mpr .missing⟩)

theorem calls_in_post_order_nestedTree :
    (nestedTree.Sound fun _ => True) ∧
      (below nestedTree giveUpAtThird {} 4 0).result =
        .error (.onNode "missing" (.custom "enough")) ∧
      ∃ trace : List Entry, Tells nestedTree {} trace ∧
        trace.map (·.call) = (below nestedTree giveUpAtThird.logged {} 4 (0, [])).memory.2 := by
  obtain ⟨-, -, -, trace, hlog, htells, -⟩ :=
    calls_in_post_order nestedTree_sound giveUpAtThird {} 4 0
  exact ⟨nestedTree_sound, rfl, trace, htells, hlog⟩

end Pass

end Lossless
