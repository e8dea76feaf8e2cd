import Lossless.Proofs.Migration.Accounting
import Lossless.Proofs.Pass.Sharing

/-!
# Migration — what it means that a pass changed something

A pass counts the nodes that it built anew and the calls that returned another node, and is said to
have changed something when there were any.  A step of a run is said to have changed the tree when
the result is another object.

What happens below a node carries upward: when something else came out at a position, its parent is
built anew, and so something else comes out there as well, up to the root (`Finishes.changed_iff`).
One kind of call stops this: a call for a node that was built anew which answers with the node that
stood there at first.  It undoes the changes below it, but not their counts (`Entry.Undoes`).

**Changes** (`changed_of_other`).  So the counts tell a different tree, or an undone change.
-/

namespace Lossless

namespace Stats

theorem ofNat_pos_iff {n : Nat} (h : n < 2 ^ 63) : 0 < Int64.ofNat n ↔ 0 < n := by
  rw [Int64.lt_iff_toInt_lt, Int64.toInt_ofNat_of_lt h]
  simp

end Stats

namespace Pass

variable {σ : Type} {root r : Node} {trace : List Entry} {stats : Stats}

/-- Something else came out at the position of a call than what stood there. -/
def Entry.Differs (e : Entry) : Prop :=
  ∃ r, e.call.answer = .ok (some r) ∧ r.same e.origin = false

/-- A call that undoes the changes below it: a child became another object, but what came out is the
node that stood there. -/
def Entry.Undoes (e : Entry) : Prop :=
  e.childChanged = true ∧ ∃ r, e.call.answer = .ok (some r) ∧ r.same e.origin = true

/-- Unless it undoes them, a change of a child carries upward. -/
theorem Entry.differs_of_childChanged {e : Entry} (h : e.childChanged = true)
    (hundo : ¬e.Undoes) (hsucceeds : e.Succeeds) : e.Differs := by
  obtain ⟨r, hr⟩ := hsucceeds
  refine ⟨r, hr, ?_⟩
  by_contra hsame
  exact hundo ⟨h, r, hr, by simpa using hsame⟩

/-- A call that returned another node than it was given. -/
theorem Entry.differs_of_replaces {e : Entry} (h : e.call.replaces = true) (hpassed : e.Passed)
    (hundo : ¬e.Undoes) (hsucceeds : e.Succeeds) : e.Differs := by
  cases hch : e.childChanged with
  | true => exact differs_of_childChanged hch hundo hsucceeds
  | false =>
      -- the node that was given is the one that stands there
      obtain ⟨r, hr⟩ := hsucceeds
      have hsame : Node.sameAll e.results e.origin.children = true := by
        simpa [Entry.childChanged] using hch
      rw [Entry.Passed, if_pos hsame] at hpassed
      refine ⟨r, hr, ?_⟩
      simpa [Call.replaces, hr, hpassed] using h

namespace Finishes

/-- There is a call for every position. -/
theorem exists_entry (h : Finishes root trace r stats) {p : Position} {n : Node}
    (hp : root.at? p = some n) : ∃ e ∈ trace, e.position = p := by
  have hmem := Node.mem_positions_of_at? hp
  rw [← h.positions] at hmem
  exact List.mem_map.mp hmem

/-- What comes out differently makes the parent one with a changed child. -/
theorem childChanged_parent (h : Finishes root trace r stats) {e : Entry} (he : e ∈ trace)
    (hdiffers : e.Differs) {p : Position} {j : Nat} (hp : e.position = p ++ [j]) :
    ∃ parent ∈ trace, parent.position = p ∧ parent.childChanged = true := by
  have hat := h.tells.origin e he
  rw [hp] at hat
  obtain ⟨n, hn, hj⟩ := Node.exists_at?_of_append hat
  obtain ⟨parent, hparent, hpos⟩ := h.exists_entry hn
  have horigin := h.tells.origin parent hparent
  rw [hpos, hn] at horigin
  obtain rfl := Option.some.inj horigin
  obtain ⟨c, hc, hce⟩ := Option.bind_eq_some_iff.mp hj
  obtain rfl := Option.some.inj hce
  obtain ⟨r, hr, hother⟩ := hdiffers
  refine ⟨parent, hparent, hpos, (h.tells.childChanged_iff hparent).mpr ?_⟩
  exact ⟨j, e.origin, r, hc, ⟨e, he, by rw [hp, hpos], hr⟩, hother⟩

/-- When no call undoes anything, what comes out differently somewhere does so at the root. -/
theorem other_of_differs (h : Finishes root trace r stats) (hundo : ∀ e ∈ trace, ¬e.Undoes) :
    ∀ {e : Entry}, e ∈ trace → e.Differs → r.same root = false := by
  intro e
  generalize hp : e.position = p
  -- by induction on the way to the position, from its end
  induction p using List.reverseRecOn generalizing e with
  | nil =>
      rintro he ⟨r', hr', hother⟩
      obtain ⟨e', he', hp', hr⟩ := h.result
      obtain rfl := h.tells.eq_of_position he he' (hp.trans hp'.symm)
      rw [hr] at hr'
      cases hr'
      have horigin := h.tells.origin e he
      rw [hp, Node.at?_nil] at horigin
      rwa [← Option.some.inj horigin] at hother
  | append_singleton p j ih =>
      intro he hdiffers
      obtain ⟨parent, hparent, hpos, hch⟩ := h.childChanged_parent he hdiffers hp
      exact ih hpos hparent
        (Entry.differs_of_childChanged hch (hundo _ hparent) (h.succeeds _ hparent))

/-- The counts are positive when there is something to count, as there are not too many calls. -/
theorem changed_iff_counted (h : Finishes root trace r stats) (hsize : root.size < 2 ^ 63) :
    stats.changed = true ↔ ∃ e ∈ trace, e.childChanged = true ∨ e.call.replaces = true := by
  have hlen : trace.length = root.size := by
    rw [← List.length_map (f := (·.position)), h.positions, Node.length_positions]
  have hcount : ∀ p : Entry → Bool, trace.countP p < 2 ^ 63 := fun p =>
    Nat.lt_of_le_of_lt List.countP_le_length (hlen ▸ hsize)
  rw [h.stats]
  simp only [Stats.changed, counted, Bool.or_eq_true, decide_eq_true_eq,
    Stats.ofNat_pos_iff (hcount _), List.countP_pos_iff]
  constructor
  · rintro (⟨e, he, hch⟩ | ⟨e, he, hr⟩)
    · exact ⟨e, he, .inl hch⟩
    · exact ⟨e, he, .inr hr⟩
  · rintro ⟨e, he, hch | hr⟩
    · exact .inl ⟨e, he, hch⟩
    · exact .inr ⟨e, he, hr⟩

/-- **When a pass changed something**: the result is another tree, or a change was undone. -/
theorem changed_iff (h : Finishes root trace r stats) (hsize : root.size < 2 ^ 63) :
    stats.changed = true ↔ r.same root = false ∨ ∃ e ∈ trace, e.Undoes := by
  rw [h.changed_iff_counted hsize]
  constructor
  · rintro ⟨e, he, hcounted⟩
    -- without a call that undoes, what became different stays different up to the root
    by_cases hundo : ∃ e ∈ trace, e.Undoes
    · exact .inr hundo
    · have hnone : ∀ e ∈ trace, ¬e.Undoes := fun e he h => hundo ⟨e, he, h⟩
      refine .inl (h.other_of_differs hnone he ?_)
      rcases hcounted with hch | hr
      · exact Entry.differs_of_childChanged hch (hnone e he) (h.succeeds e he)
      · exact Entry.differs_of_replaces hr (h.tells.passed e he) (hnone e he) (h.succeeds e he)
  · rintro (hother | ⟨e, he, hch, -⟩)
    · by_contra hnone
      have hkeeps : ∀ e ∈ trace, e.Keeps := fun e he =>
        .of_not_replaces (h.succeeds e he) (by
          by_contra hr
          exact hnone ⟨e, he, .inr (by simpa using hr)⟩)
      rw [(h.unchanged hkeeps).2] at hother
      cases hother
    · exact ⟨e, he, .inl hch⟩

end Finishes

/-- The calls of a pass over a tree with the result `r`, in order, and where they stand. -/
structure Traces (root : Node) (fn : Transform σ) (supply : Supply) (memory : σ)
    (trace : List Entry) (r : Node) : Prop where
  calls : trace.map (·.call) = (whole root fn.logged supply (memory, [])).memory.2
  finishes : Finishes root trace r (whole root fn supply memory).stats

end Pass

namespace Migration

open Pass (Entry Traces nestedTree nestedTree_sound whole)

/-- **Changes.** For every sound tree of fewer than `2 ^ 63` nodes and every transform on which a pass
has a result, with the trace of its calls: the pass says that it changed something if and only if the
result is another object, or a call answered for a node that was built anew with the node that stood
there. So another tree is never missed. A step of a run tells whether the result is another object
next to what the pass says, and both are the same unless all changes were undone. The counts are words
of 64 bits, so there must not be too many nodes. -/
theorem changed_of_other {K : Kind → Prop} {root : Node} (hroot : root.Sound K)
    (hsize : root.size < 2 ^ 63) :
    (∀ (σ : Type) (fn : Transform σ) (supply : Supply) (memory : σ) (r : Node),
      (whole root fn supply memory).result = .ok r →
        ∃ trace, Traces root fn supply memory trace r ∧
          ((whole root fn supply memory).stats.changed = true ↔
            r.same root = false ∨ ∃ e ∈ trace, e.Undoes)) ∧
    ∀ (file migration : String) (s : Step) (supply : Supply) (result : StepResult) (next : Node),
      (runStep file migration s root supply).value = .ok (result, next) →
        (result.changed = true ↔ next.same root = false) ∧
        ∃ trace, Traces root s.transform.lift supply () trace next ∧
          (result.stats.changed = true ↔ result.changed = true ∨ ∃ e ∈ trace, e.Undoes) := by
  have hpass : ∀ (σ : Type) (fn : Transform σ) (supply : Supply) (memory : σ) (r : Node),
      (whole root fn supply memory).result = .ok r →
        ∃ trace, Traces root fn supply memory trace r ∧
          ((whole root fn supply memory).stats.changed = true ↔
            r.same root = false ∨ ∃ e ∈ trace, e.Undoes) := by
    intro σ fn supply memory r h
    obtain ⟨trace, hcalls, hfinishes⟩ := Pass.whole_finishes hroot fn supply memory h
    exact ⟨trace, ⟨hcalls, hfinishes⟩, hfinishes.changed_iff hsize⟩
  refine ⟨hpass, fun file migration s supply result next h => ?_⟩
  cases hresult : (whole root s.transform.lift supply ()).result with
  | error e =>
      have happly : (s.applyWithStats root supply).result = .error ⟨s.name, e⟩ := by
        simp [Step.applyWithStats, Pass.withStats, hresult, Except.mapError]
      rw [(runStep_error file migration happly).1] at h
      cases h
  | ok r =>
      have happly : (s.applyWithStats root supply).result = .ok r := by
        simp [Step.applyWithStats, Pass.withStats, hresult, Except.mapError]
      rw [(runStep_ok file migration happly).1] at h
      cases h
      obtain ⟨trace, htraces, hiff⟩ := hpass _ _ _ _ _ hresult
      refine ⟨by simp, trace, htraces, ?_⟩
      rw [Bool.not_eq_true']
      exact hiff

/-- The transform that makes a new token of every token and, at the root, puts `root` back. -/
def putBack (root : Node) : PureTransform := fun n a =>
  match a.parent, n with
  | none, _ => pure (some root)
  | some _, .token t => do return some (.token (← Token.make t.kind t.leading t.text t.trailing))
  | some _, n => pure (some n)

theorem whole_putBack :
    (whole nestedTree (putBack nestedTree).lift 4 ()).result = .ok nestedTree ∧
      (whole nestedTree (putBack nestedTree).lift 4 ()).stats = ⟨4, 2, 2⟩ :=
  ⟨rfl, rfl⟩

theorem changed_of_other_nestedTree :
    ((nestedTree.Sound fun _ => True) ∧ nestedTree.size < 2 ^ 63) ∧
    (whole nestedTree (putBack nestedTree).lift 4 ()).result = .ok nestedTree ∧
    ∃ trace, Traces nestedTree (putBack nestedTree).lift 4 () trace nestedTree ∧
      ∃ e ∈ trace, e.Undoes := by
  have hsize : nestedTree.size < 2 ^ 63 := by decide
  obtain ⟨hresult, hstats⟩ := whole_putBack
  obtain ⟨trace, htraces, hiff⟩ := (changed_of_other nestedTree_sound hsize).1 _ _ _ _ _ hresult
  rw [hstats] at hiff
  refine ⟨⟨nestedTree_sound, hsize⟩, hresult, trace, htraces, (hiff.mp (by decide)).resolve_left ?_⟩
  simp

/-- A pass that changes a token and puts the tree back says that it changed something, and returns the
tree; the step that makes it reports both. -/
theorem changed_without_other :
    (Pass.withStats nestedTree (putBack nestedTree) 4).result = .ok nestedTree ∧
    (Pass.withStats nestedTree (putBack nestedTree) 4).stats.changed = true ∧
    ∃ result, (runStep "a.hack" "restore" ⟨"put-back", putBack nestedTree⟩ nestedTree 4).value =
        .ok (result, nestedTree) ∧
      result.changed ≠ result.stats.changed := by
  have hresult : (Pass.withStats nestedTree (putBack nestedTree) 4).result = .ok nestedTree :=
    whole_putBack.1
  have hstats : (Pass.withStats nestedTree (putBack nestedTree) 4).stats = ⟨4, 2, 2⟩ :=
    whole_putBack.2
  have hstep : ((⟨"put-back", putBack nestedTree⟩ : Step).applyWithStats nestedTree 4).result =
      .ok nestedTree := by
    simp only [Step.applyWithStats, hresult]
    rfl
  refine ⟨hresult, by rw [hstats]; decide, _, (runStep_ok "a.hack" "restore" hstep).1, ?_⟩
  simp only [Step.applyWithStats, hstats]
  simp [Stats.changed]

end Migration

end Lossless
