import Lossless.Proofs.Pass.Calls
import Mathlib.Algebra.Group.Nat.Defs

/-!
# Pass — sharing and counts

A subtree that no call changed comes out as the object that went in, and the tree above it holds that
object (`Tells.untouched`, `Tells.child_of_parent`).  What a pass counts are the calls of its trace:
the nodes that were built anew are those with a child that became another object, and the nodes that
were replaced are those for which another node was returned.

**Sharing** (`pass_shares_and_counts`).  Both hold of every pass that has a result.  When no call
replaced anything, nothing was built and the result is the root.
-/

namespace Lossless

namespace Node

theorem sameAll_of_getElem? {as bs : List Node} (hlen : as.length = bs.length)
    (h : ∀ (j : Nat) (a b : Node), as[j]? = some a → bs[j]? = some b → a.same b = true) :
    sameAll as bs = true := by
  induction as generalizing bs with
  | nil =>
      obtain rfl := List.eq_nil_of_length_eq_zero hlen.symm
      rfl
  | cons a as ih =>
      cases bs with
      | nil => cases hlen
      | cons b bs =>
          have htail := ih (Nat.succ.inj hlen) fun j x y hx hy => h (j + 1) x y hx hy
          rw [sameAll, h 0 a b rfl rfl, htail]
          rfl

end Node

namespace Pass

variable {σ : Type}

/-- A call that returned the very node it was given. -/
def Entry.Keeps (e : Entry) : Prop :=
  ∃ r, e.call.answer = .ok (some r) ∧ r.same e.call.node = true

theorem Entry.Keeps.of_not_replaces {e : Entry} (h : e.Succeeds) (hr : e.call.replaces = false) :
    e.Keeps := by
  obtain ⟨r, hr'⟩ := h
  refine ⟨r, hr', ?_⟩
  simpa [Call.replaces, hr'] using hr

/-- All calls at a position and below it returned the nodes they were given. -/
def Untouched (trace : List Entry) (p : Position) : Prop :=
  ∀ e ∈ trace, p <+: e.position → e.Keeps

namespace Tells

variable {root : Node} {a : Ancestors} {trace : List Entry}

/-- There is at most one call for a position. -/
theorem eq_of_position (h : Tells root a trace) {e e' : Entry} (he : e ∈ trace) (he' : e' ∈ trace)
    (hp : e.position = e'.position) : e = e' :=
  List.inj_on_of_nodup_map (root.nodup_positions.sublist h.order.sublist) he he' hp

/-- The call for a child stands where the child does. -/
theorem origin_of_child (h : Tells root a trace) {e e' : Entry} (he : e ∈ trace) (he' : e' ∈ trace)
    {j : Nat} (hp : e'.position = e.position ++ [j]) {c : Node}
    (hc : e.origin.children[j]? = some c) : e'.origin = c := by
  have hat := h.origin e' he'
  rw [hp, Node.at?_child (h.origin e he) hc] at hat
  exact (Option.some.inj hat).symm

/-- When no call at a position or below it replaced anything, the children of its node stay. -/
theorem results_same (h : Tells root a trace) :
    ∀ {e : Entry}, e ∈ trace → Untouched trace e.position →
      Node.sameAll e.results e.origin.children = true := by
  intro e
  generalize hn : e.origin = n
  -- by induction on the node that stands at the position
  induction n using Node.induct generalizing e with
  | missing | token t =>
      intro he _
      have hlen := (h.collects e he).1
      rw [hn] at hlen
      rw [List.eq_nil_of_length_eq_zero hlen]
      rfl
  | list id items w ih | composite id k items w ih =>
      intro he huntouched
      have hlen := (h.collects e he).1
      rw [hn] at hlen
      refine Node.sameAll_of_getElem? hlen fun j r c hr hc => ?_
      obtain ⟨e', he', hp, hanswer⟩ := (h.collects e he).2 j r hr
      have horigin : e'.origin = c := h.origin_of_child he he' hp (by rw [hn]; exact hc)
      have hbelow : Untouched trace e'.position := fun e'' he'' hpre =>
        huntouched e'' he'' (((hp ▸ List.prefix_append _ _) : e.position <+: e'.position).trans hpre)
      -- the child is passed as it is, and returned as it is
      have hsame := ih c (List.mem_of_getElem? hc) horigin he' hbelow
      have hpassed := h.passed e' he'
      rw [Entry.Passed, horigin, if_pos hsame] at hpassed
      obtain ⟨r', hr', hkept⟩ := huntouched e' he' (hp ▸ List.prefix_append _ _)
      rw [hanswer] at hr'
      cases hr'
      rwa [hpassed] at hkept

/-- **An untouched subtree is shared**: its node is passed as it is, and comes out as it is. -/
theorem untouched (h : Tells root a trace) {e : Entry} (he : e ∈ trace)
    (huntouched : Untouched trace e.position) :
    e.call.node = e.origin ∧ ∃ r, e.call.answer = .ok (some r) ∧ r.same e.origin = true := by
  have hpassed := h.passed e he
  rw [Entry.Passed, if_pos (h.results_same he huntouched)] at hpassed
  obtain ⟨r, hr, hkept⟩ := huntouched e he List.prefix_rfl
  exact ⟨hpassed, r, hr, hpassed ▸ hkept⟩

/-- What came out at a position is a child of the node that is passed for the parent. -/
theorem child_of_parent (h : Tells root a trace) {e parent : Entry} (he : e ∈ trace)
    (hparent : parent ∈ trace) {j : Nat} (hp : e.position = parent.position ++ [j]) {r : Node}
    (hr : e.call.answer = .ok (some r)) :
    ∃ c, parent.call.node.children[j]? = some c ∧ c.same r = true := by
  -- there is a child at the position, so there is a result for it
  obtain ⟨hlen, hresults⟩ := h.collects parent hparent
  have hat := h.origin e he
  rw [hp, Node.at?_append (h.origin parent hparent)] at hat
  obtain ⟨child, hchild, -⟩ := Option.bind_eq_some_iff.mp hat
  have hj : j < parent.results.length := hlen ▸ (List.getElem?_eq_some_iff.mp hchild).1
  obtain ⟨e', he', hp', hr'⟩ := hresults j _ (List.getElem?_eq_getElem hj)
  obtain rfl := h.eq_of_position he' he (hp'.trans hp.symm)
  rw [hr] at hr'
  have hresult : parent.results[j]? = some r := by
    rw [List.getElem?_eq_getElem hj]
    exact congrArg some (Option.some.inj (Except.ok.inj hr')).symm
  have hpassed := h.passed parent hparent
  unfold Entry.Passed at hpassed
  split at hpassed
  · next hsame =>
      obtain ⟨c, hc, hs⟩ := Node.sameAll_getElem? hsame hchild
      rw [hresult] at hc
      cases hc
      exact ⟨child, by rw [hpassed]; exact hchild, by rw [Node.same_comm]; exact hs⟩
  · exact Node.sameAll_getElem? hpassed.2.2.1 hresult

/-- A node has a child that became another object when its results are not its children. -/
theorem childChanged_iff (h : Tells root a trace) {e : Entry} (he : e ∈ trace) :
    e.childChanged = true ↔ ∃ j c r, e.origin.children[j]? = some c ∧
      Became trace (e.position ++ [j]) r ∧ r.same c = false := by
  obtain ⟨hlen, hresults⟩ := h.collects e he
  have hresult : ∀ {j : Nat} {c : Node}, e.origin.children[j]? = some c →
      ∃ r, e.results[j]? = some r := by
    intro j c hc
    have hj : j < e.results.length := hlen ▸ (List.getElem?_eq_some_iff.mp hc).1
    exact ⟨_, List.getElem?_eq_getElem hj⟩
  constructor
  · intro hch
    by_contra hnone
    have hsame : Node.sameAll e.results e.origin.children = true := by
      refine Node.sameAll_of_getElem? hlen fun j r c hr hc => ?_
      by_contra hs
      exact hnone ⟨j, c, r, hc, hresults j r hr, by simpa using hs⟩
    simp [Entry.childChanged, hsame] at hch
  · rintro ⟨j, c, r, hc, ⟨e', he', hp', hr'⟩, hs⟩
    obtain ⟨r₁, hr₁⟩ := hresult hc
    obtain ⟨e'', he'', hp'', hr''⟩ := hresults j r₁ hr₁
    -- there is one call for each position, so both results are one
    obtain rfl := h.eq_of_position he'' he' (hp''.trans hp'.symm)
    rw [hr'] at hr''
    obtain rfl : r = r₁ := Option.some.inj (Except.ok.inj hr'')
    cases hall : Node.sameAll e.results e.origin.children with
    | false => simp [Entry.childChanged, hall]
    | true =>
        obtain ⟨r₂, hr₂, hs₂⟩ := Node.sameAll_getElem? hall hc
        rw [hr₁] at hr₂
        cases hr₂
        rw [hs] at hs₂
        cases hs₂

end Tells

/-! ### Passes with a result -/

/-- The trace of a pass with a result: a call for every position, all of them returned nodes, the one
for the root the result, and they are what was counted. -/
structure Finishes (root : Node) (trace : List Entry) (r : Node) (stats : Stats) : Prop where
  tells : Tells root {} trace
  positions : trace.map (·.position) = root.positions
  succeeds : ∀ e ∈ trace, e.Succeeds
  result : Became trace [] r
  stats : stats = counted trace

theorem whole_finishes {K : Kind → Prop} {root r : Node} (hroot : root.Sound K)
    (fn : Transform σ) (supply : Supply) (memory : σ)
    (h : (whole root fn supply memory).result = .ok r) :
    ∃ trace : List Entry,
      trace.map (·.call) = (whole root fn.logged supply (memory, [])).memory.2 ∧
      Finishes root trace r (whole root fn supply memory).stats := by
  -- the pass that keeps a record has the same result and the same counts
  have hpart : whole root fn supply memory =
      (whole root fn.logged supply (memory, [])).part Prod.fst :=
    below_part (Transform.logged_extends fn) root {} supply (memory, [])
  rw [hpart] at h ⊢
  obtain ⟨trace, hv⟩ := below_visits hroot fn.logged {} supply (memory, [])
  have h : (below root fn.logged {} supply (memory, [])).result = .ok r := h
  have hgives : Meets (Gives trace []) (Stopped trace) _ := hv.answers
  rw [h] at hgives
  have hstats : (below root fn.logged {} supply (memory, [])).stats = Stats.add {} (counted trace) :=
    hv.stats
  refine ⟨trace, (hv.log).symm, hv.tells, ?_, Gives.succeeds hgives, Gives.became hgives, ?_⟩
  · simpa using hv.order.2 r h
  · rw [Outcome.part, whole, hstats]
    simp [Stats.add]

/-- When no call replaced anything, nothing was built anew and the result is the root. -/
theorem Finishes.unchanged {root r : Node} {trace : List Entry} {stats : Stats}
    (h : Finishes root trace r stats) (hkeeps : ∀ e ∈ trace, e.Keeps) :
    stats.rebuilt = 0 ∧ r.same root = true := by
  constructor
  · have hnone : trace.countP Entry.childChanged = 0 := by
      refine List.countP_eq_zero.mpr fun e he => ?_
      have hsame := h.tells.results_same he fun e' he' _ => hkeeps e' he'
      simp [Entry.childChanged, hsame]
    rw [h.stats, counted, hnone]
    rfl
  · obtain ⟨e, he, hp, hr⟩ := h.result
    obtain ⟨-, r', hr', hsame⟩ := h.tells.untouched he fun e' he' _ => hkeeps e' he'
    rw [hr] at hr'
    cases hr'
    have horigin := h.tells.origin e he
    rw [hp, Node.at?_nil] at horigin
    rwa [← Option.some.inj horigin] at hsame

theorem Finishes.keeps {root r : Node} {trace : List Entry} {stats : Stats}
    (h : Finishes root trace r stats) (hnone : (trace.map (·.call)).countP Call.replaces = 0) :
    ∀ e ∈ trace, e.Keeps := by
  intro e he
  have hr := List.countP_eq_zero.mp hnone e.call (List.mem_map_of_mem he)
  exact .of_not_replaces (h.succeeds e he) (by simpa using hr)

theorem eq_zero_of_ofNat_eq_zero {n : Nat} (h : Int64.ofNat n = 0) (hn : n < 2 ^ 64) : n = 0 := by
  have hbits : n % 2 ^ 64 = 0 := congrArg (fun x : Int64 => x.toBitVec.toNat) h
  rwa [Nat.mod_eq_of_lt hn] at hbits

/-- **A pass shares what it does not touch, and counts what it does.** For every sound tree and every
transform on which a pass has a result, with the trace of its calls:

* where no call at a position or below it replaced anything, the node that stands there is the object
  that came out, and it is a child of the node that is passed for its parent;
* the nodes built anew are as many as the positions with a child that became another object, and the
  nodes replaced as many as the calls that returned another node than they were given;
* when no call did, nothing was built anew and the result is the root. The counts are words of 64
  bits, so a count of zero says so for trees of fewer than `2 ^ 64` nodes. -/
theorem pass_shares_and_counts {K : Kind → Prop} {root r : Node} (hroot : root.Sound K)
    (fn : Transform σ) (supply : Supply) (memory : σ)
    (h : (whole root fn supply memory).result = .ok r) :
    let stats := (whole root fn supply memory).stats
    let calls := (whole root fn.logged supply (memory, [])).memory.2
    ∃ trace : List Entry, trace.map (·.call) = calls ∧ Tells root {} trace ∧
      trace.map (·.position) = root.positions ∧
      (∀ e ∈ trace, Untouched trace e.position →
        e.call.node = e.origin ∧ (∃ r, e.call.answer = .ok (some r) ∧ r.same e.origin = true) ∧
        ∀ parent ∈ trace, ∀ j, e.position = parent.position ++ [j] →
          ∃ c, parent.call.node.children[j]? = some c ∧ c.same e.origin = true) ∧
      (∀ e ∈ trace, e.childChanged = true ↔ ∃ j c r, e.origin.children[j]? = some c ∧
        Became trace (e.position ++ [j]) r ∧ r.same c = false) ∧
      stats.rebuilt = Int64.ofNat (trace.countP Entry.childChanged) ∧
      stats.replaced = Int64.ofNat (calls.countP Call.replaces) ∧
      (calls.countP Call.replaces = 0 → stats.rebuilt = 0 ∧ r.same root = true) ∧
      (root.size < 2 ^ 64 → stats.replaced = 0 → stats.rebuilt = 0 ∧ r.same root = true) := by
  intro stats calls
  obtain ⟨trace, hcalls, hf⟩ := whole_finishes hroot fn supply memory h
  have hcalls : trace.map (·.call) = calls := hcalls
  have hreplaced : stats.replaced = Int64.ofNat (calls.countP Call.replaces) := by
    rw [← hcalls, List.countP_map]
    exact congrArg Stats.replaced hf.stats
  refine ⟨trace, hcalls, hf.tells, hf.positions, fun e he huntouched => ?_,
    fun e he => hf.tells.childChanged_iff he, congrArg Stats.rebuilt hf.stats, hreplaced,
    fun hnone => hf.unchanged (hf.keeps (hcalls ▸ hnone)), fun hsize hzero => ?_⟩
  · obtain ⟨hnode, r', hr', hsame⟩ := hf.tells.untouched he huntouched
    refine ⟨hnode, ⟨r', hr', hsame⟩, fun parent hparent j hp => ?_⟩
    obtain ⟨c, hc, hcr⟩ := hf.tells.child_of_parent he hparent hp hr'
    exact ⟨c, hc, by simp only [Node.same, beq_iff_eq] at hcr hsame ⊢; exact hcr.trans hsame⟩
  · -- there are no more replacements than nodes, so the word does not wrap around
    have hle : calls.countP Call.replaces ≤ root.size := by
      rw [← root.length_positions, ← hf.positions, List.length_map, ← hcalls, List.countP_map]
      exact List.countP_le_length
    have hnone : calls.countP Call.replaces = 0 :=
      eq_zero_of_ofNat_eq_zero (hreplaced.symm.trans hzero) (Nat.lt_of_le_of_lt hle hsize)
    exact hf.unchanged (hf.keeps (hcalls ▸ hnone))

/-- The transform that leaves out the node of its first call. -/
def dropFirst : Transform Nat := fun n _ s =>
  (.ok (some (if s.2 = 0 then .missing else n)), s.1, s.2 + 1)

theorem pass_shares_and_counts_nestedTree :
    (nestedTree.Sound fun _ => True) ∧
      (whole nestedTree dropFirst 4 0).result = .ok (.list 5 [.list 4 [.missing] 0, .missing] 0) ∧
      (whole nestedTree dropFirst 4 0).stats = ⟨4, 2, 1⟩ ∧
      ∃ trace : List Entry, Tells nestedTree {} trace ∧
        trace.map (·.position) = nestedTree.positions ∧
        2 = Int64.ofNat (trace.countP Entry.childChanged) := by
  have hresult : (whole nestedTree dropFirst 4 0).result =
      .ok (.list 5 [.list 4 [.missing] 0, .missing] 0) := rfl
  obtain ⟨trace, -, htells, hpositions, -, -, hrebuilt, -⟩ :=
    pass_shares_and_counts nestedTree_sound dropFirst 4 0 hresult
  exact ⟨nestedTree_sound, hresult, rfl, trace, htells, hpositions, hrebuilt⟩

end Pass

end Lossless
