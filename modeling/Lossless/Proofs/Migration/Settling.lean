import Lossless.Proofs.Migration.Builtin

/-!
# Migration — what the built-in steps do with a tree

A pass with a built-in step over a tree of Hack kinds settles every view of the tree, or it fails,
and then the step refuses one of the views (`Builtin.pass_settles`): the views decide, whatever the
supply is.  A step that finds nothing to do in a tree is *quiet* on it; its pass returns the tree
itself (`Builtin.applyWithStats_quiet`).

One pass makes a step quiet, keeps those quiet that are, and does not change which steps are admitted
(`Settled.quiet_self`, `Settled.quiet`, `Settled.admits_iff`).  So a sequence of steps succeeds exactly
when the tree admits all of them, and makes all of them quiet (`applySteps_settles`).
-/

namespace Lossless.Migration

variable {S : Set Node} {s : Supply} {n r : Node} {b b' : Builtin}

/-- The composites of a tree are of Hack kinds, with a child for every slot. -/
def OfHack (n : Node) : Prop :=
  ∀ v ∈ n.views, v.kind ∈ Catalog.hack.kinds ∧ v.faces.length = v.kind.arity

theorem OfHack.part {m : Node} (h : OfHack n) (hm : m ∈ n.postOrder) : OfHack m :=
  fun v hv => h v (((Node.postOrder_sublist hm).filterMap Node.view?).subset hv)

/-- A tree of Hack kinds among objects. -/
structure Ready (S : Set Node) (s : Supply) (n : Node) : Prop where
  objects : Objects S s
  mem : n ∈ S
  views : OfHack n

theorem Ready.of_sound (hS : Objects S s) (hn : n ∈ S) (h : n.Sound (· ∈ Catalog.hack.kinds)) :
    Ready S s n := ⟨hS, hn, h.of_mem_views⟩

theorem Ready.later {S' : Set Node} {s' : Supply} (h : Ready S s n) (hsub : S ⊆ S')
    (hS' : Objects S' s') : Ready S' s' n := ⟨hS', hsub h.mem, h.views⟩

namespace Builtin

/-- The step finds nothing in a tree that it refuses. -/
def Admits (b : Builtin) (n : Node) : Prop := ∀ v ∈ n.views, b.judge v ≠ .refuse

/-- The step finds nothing to do in a tree. -/
def Quiet (b : Builtin) (n : Node) : Prop := ∀ v ∈ n.views, b.judge v = .keep

theorem Quiet.admits (h : b.Quiet n) : b.Admits n := by
  intro v hv hrefuse
  cases (h v hv).symm.trans hrefuse

end Builtin

/-- What a step makes of a tree that it admits: every view is settled. -/
structure Settled (b : Builtin) (n r : Node) : Prop where
  face : r.face = n.face
  views : r.views = n.views.map b.settle
  admits : b.Admits n

/-! ### One pass -/

/-- Several trees of which a step made others. -/
structure SettledAll (b : Builtin) (cs rs : List Node) : Prop where
  faces : rs.map Node.face = cs.map Node.face
  views : Node.viewsAll rs = (Node.viewsAll cs).map b.settle
  admits : ∀ v ∈ Node.viewsAll cs, b.judge v ≠ .refuse

theorem settledAll_of_chain {S' : Set Node} {cs rs : List Node}
    (h : Chain (fun _ _ => Settled b) S cs rs S') : SettledAll b cs rs := by
  induction h with
  | nil => exact ⟨rfl, rfl, nofun⟩
  | cons _ _ h _ ih =>
      refine ⟨by simp [h.face, ih.faces], by simp [h.views, ih.views], fun v hv => ?_⟩
      rw [Node.viewsAll_cons] at hv
      rcases List.mem_append.mp hv with hv | hv
      · exact h.admits v hv
      · exact ih.admits v hv

theorem exists_composite {v : View} (h : n.view? = some v) :
    ∃ c : Composite, n = c.toNode ∧ c.view = v := by
  cases n with
  | composite id k cs w =>
      cases h
      exact ⟨⟨id, k, cs, w⟩, rfl, rfl⟩
  | _ => cases h

/-- What a step makes of a node whose children are done, when it returns what it was called for. -/
theorem settled_of_keep {S' : Set Node} {m : Node} {rs : List Node} (hm : RegrownIn S n rs m S')
    (hall : SettledAll b n.children rs) (hkeep : ∀ v, n.view? = some v → b.judge v = .keep) :
    Settled b n m where
  face := hm.face
  views := by
    rw [Node.views_eq, Node.views_eq, hm.children, hall.views, hm.view? hall.faces, List.map_append]
    congr 1
    cases hv : n.view? with
    | none => rfl
    | some v => simp [Builtin.settle_of_keep (hkeep v hv)]
  admits v hv := by
    rw [Node.views_eq] at hv
    rcases List.mem_append.mp hv with hv | hv
    · exact hall.admits v hv
    · rw [hkeep v (Option.mem_toList.mp hv)]
      decide

/-- One call of a built-in step within a pass over a tree. -/
theorem Builtin.makes (b : Builtin) (hviews : OfHack n) :
    b.step.transform.Makes {m | m ∈ n.postOrder} (fun _ _ => Settled b)
      fun m => ∃ v ∈ m.views, b.judge v = .refuse where
  up {m c} _ hc hrefuse := by
    obtain ⟨v, hv, hrefuse⟩ := hrefuse
    obtain ⟨x, hx, hxv⟩ := List.mem_filterMap.mp hv
    exact ⟨v, List.mem_filterMap.mpr ⟨x, Node.mem_postOrder_iff.mpr (.inr ⟨c, hc, hx⟩), hxv⟩, hrefuse⟩
  call {S₀ S₁ S₂ x m rs a s} _ hx hchain hm hmem hobjects := by
    have hall := settledAll_of_chain hchain
    have hview : m.view? = x.view? := hm.view? hall.faces
    -- the verdict is on the faces of the children, and these did not change
    by_cases hkeep : ∀ v, x.view? = some v → b.judge v = .keep
    · rw [b.call_keep (hview ▸ hkeep)]
      exact ⟨S₂, subset_rfl, hobjects, hmem, settled_of_keep hm hall hkeep⟩
    push Not at hkeep
    obtain ⟨v, hv, hjudge⟩ := hkeep
    obtain ⟨c, rfl, rfl⟩ := exists_composite (hview.trans hv)
    have hmemv : c.view ∈ x.views := by
      rw [Node.views_eq, hv]
      exact List.mem_append_right _ (.head _)
    have hk := (hviews _ (List.mem_filterMap.mpr ⟨x, hx, hv⟩)).1
    cases hverdict : b.judge c.view with
    | keep => exact absurd hverdict hjudge
    | refuse =>
        obtain ⟨e, he⟩ := Builtin.call_refuse hverdict a s
        rw [he]
        exact ⟨c.view, hmemv, hverdict⟩
    | change =>
        obtain ⟨c', s', S', hcall, hsub, hS', hmem', hkind, hview', hbelow⟩ :=
          Builtin.call_change hobjects hmem hk hverdict a
        rw [hcall]
        have hrs : c.children = rs := hm.children
        refine ⟨S', hsub, hS', hmem', ?_, ?_, fun v' hv' => ?_⟩
        · rw [← hm.face]
          simp [Composite.toNode, Node.face, Node.nodeClass, Node.kind, Node.token?, hkind]
        · have htop : c'.toNode.views = Node.viewsAll c'.children ++ [c'.view] := Node.views_eq _
          rw [htop, hbelow, hrs, hall.views, hview', Node.views_eq x, hv, List.map_append]
          rfl
        · rw [Node.views_eq, hv] at hv'
          rcases List.mem_append.mp hv' with hv' | hv'
          · exact hall.admits v' hv'
          · rw [List.mem_singleton.mp hv', hverdict]
            decide

/-- What a step makes of a tree: what its calls make of the nodes. -/
theorem applyWithStats_makes {st : Step} {Q : Set Node → Set Node → Node → Node → Prop}
    {E : Node → Prop} (h : st.transform.Makes {m | m ∈ n.postOrder} Q E) (hS : Objects S s)
    (hn : n ∈ S) :
    ∃ S', S ⊆ S' ∧ Objects S' (st.applyWithStats n s).supply ∧
      ((∃ e, (st.applyWithStats n s).result = .error e ∧ E n) ∨
        ∃ r, (st.applyWithStats n s).result = .ok r ∧ r ∈ S' ∧ Q S S' n r) := by
  have hsub : {m | m ∈ n.postOrder} ⊆ S := fun m hm => Node.mem_of_mem_postOrder hS.child hn hm
  obtain ⟨S', hsub', hS', hmade⟩ := Pass.withStats_makes h
    (fun m hm c hc => Node.children_mem_postOrder hm hc) hS hsub (Node.mem_postOrder_self n)
  refine ⟨S', hsub', hS', ?_⟩
  unfold Step.applyWithStats
  dsimp only
  cases hresult : (Pass.withStats n st.transform s).result with
  | error e =>
      rw [hresult] at hmade
      exact .inl ⟨_, rfl, hmade⟩
  | ok r =>
      rw [hresult] at hmade
      exact .inr ⟨r, rfl, hmade.1, hmade.2⟩

/-- **A pass with a built-in step** settles a tree that the step admits, and fails on every other. -/
theorem Builtin.pass_settles (b : Builtin) (h : Ready S s n) :
    ∃ S', S ⊆ S' ∧ Objects S' (b.step.applyWithStats n s).supply ∧
      ((∃ e, (b.step.applyWithStats n s).result = .error e ∧ ¬b.Admits n) ∨
        ∃ r, (b.step.applyWithStats n s).result = .ok r ∧ r ∈ S' ∧ Settled b n r) := by
  obtain ⟨S', hsub, hS', ⟨e, he, v, hv, hrefuse⟩ | hmade⟩ :=
    applyWithStats_makes (b.makes h.views) h.objects h.mem
  · exact ⟨S', hsub, hS', .inl ⟨e, he, fun hadmits => hadmits v hv hrefuse⟩⟩
  · exact ⟨S', hsub, hS', .inr hmade⟩

/-- **A quiet step returns the tree itself**, and neither builds nor replaces. -/
theorem Builtin.applyWithStats_quiet (h : b.Quiet n) (s : Supply) :
    ∃ visited, b.step.applyWithStats n s = ⟨.ok n, ⟨visited, 0, 0⟩, s⟩ := by
  have hkeep : ∀ m ∈ n.postOrder, ∀ a s, b.step.transform m a s = .ok (some m, s) := by
    intro m hm a s
    exact b.call_keep (fun v hv => h v (List.mem_filterMap.mpr ⟨m, hm, hv⟩)) a s
  obtain ⟨visited, hpass⟩ := Pass.withStats_fixed hkeep s
  refine ⟨visited, ?_⟩
  simp only [Step.applyWithStats, hpass]
  rfl

/-! ### One step after the other -/

namespace Settled

theorem ready {S' : Set Node} {s' : Supply} (h : Settled b n r) (hn : Ready S s n)
    (hS' : Objects S' s') (hr : r ∈ S') : Ready S' s' r := by
  refine ⟨hS', hr, fun v hv => ?_⟩
  rw [h.views] at hv
  obtain ⟨u, hu, rfl⟩ := List.mem_map.mp hv
  simpa using hn.views u hu

/-- A step is quiet on what it made. -/
theorem quiet_self (h : Settled b n r) (hn : Ready S s n) : b.Quiet r := by
  intro v hv
  rw [h.views] at hv
  obtain ⟨u, hu, rfl⟩ := List.mem_map.mp hv
  obtain ⟨hk, hlen⟩ := hn.views u hu
  exact Builtin.judge_settle_self hk hlen (h.admits u hu)

/-- A step that is quiet on a tree is so on what another one made of it. -/
theorem quiet (h : Settled b n r) (hn : Ready S s n) (hquiet : b'.Quiet n) : b'.Quiet r := by
  by_cases hb : b' = b
  · exact hb ▸ h.quiet_self hn
  · intro v hv
    rw [h.views] at hv
    obtain ⟨u, hu, rfl⟩ := List.mem_map.mp hv
    rw [Builtin.judge_settle_of_ne (hn.views u hu).1 hb]
    exact hquiet u hu

/-- A step is admitted before another one exactly when it is so afterwards. -/
theorem admits_iff (h : Settled b n r) (hn : Ready S s n) : b'.Admits r ↔ b'.Admits n := by
  by_cases hb : b' = b
  · subst hb
    exact ⟨fun _ => h.admits, fun _ => (h.quiet_self hn).admits⟩
  · unfold Builtin.Admits
    rw [h.views, List.forall_mem_map]
    refine forall₂_congr fun u hu => ?_
    rw [Builtin.judge_settle_of_ne (hn.views u hu).1 hb]

end Settled

theorem step_apply_ok {st : Step} (h : (st.applyWithStats n s).result = .ok r) :
    st.apply n s = .ok (r, (st.applyWithStats n s).supply) := by
  simp only [Step.apply, h]
  rfl

theorem step_apply_error {st : Step} {e : StepFailure}
    (h : (st.applyWithStats n s).result = .error e) : st.apply n s = .error e := by
  simp only [Step.apply, h]
  rfl

/-- **A sequence of built-in steps** succeeds exactly when all of them are admitted. Then all of them
are quiet on the result, and so are those that were quiet before. -/
theorem applySteps_settles (bs : List Builtin) (h : Ready S s n) :
    (∃ e, applySteps (bs.map Builtin.step) n s = .error e ∧ ¬∀ b ∈ bs, b.Admits n) ∨
      ∃ r s' S', applySteps (bs.map Builtin.step) n s = .ok (r, s') ∧ S ⊆ S' ∧ Ready S' s' r ∧
        (∀ b ∈ bs, b.Admits n) ∧ (∀ b ∈ bs, b.Quiet r) ∧ ∀ b : Builtin, b.Quiet n → b.Quiet r := by
  induction bs generalizing n s S with
  | nil => exact .inr ⟨n, s, S, rfl, subset_rfl, h, nofun, nofun, fun _ hb => hb⟩
  | cons b bs ih =>
      have happly : applySteps ((b :: bs).map Builtin.step) n s =
          (b.step.apply n >>= applySteps (bs.map Builtin.step)) s := rfl
      rw [happly, Make.bind_apply]
      -- the first step settles the tree, and what the others admit is not changed by that
      obtain ⟨S₁, hsub₁, hS₁, ⟨e, he, hrefuse⟩ | ⟨m, hm, hmem, hsettled⟩⟩ := b.pass_settles h
      · rw [step_apply_error he]
        exact .inl ⟨e, rfl, fun hall => hrefuse (hall b (.head _))⟩
      rw [step_apply_ok hm]
      have hready := hsettled.ready h hS₁ hmem
      dsimp only
      rcases ih hready with ⟨e, he, hnot⟩ | ⟨r, s', S', hr, hsub, hready', hadmits, hquiet, hkeep⟩
      · refine .inl ⟨e, he, fun hall => hnot fun b' hb' => ?_⟩
        exact (hsettled.admits_iff h).mpr (hall b' (.tail _ hb'))
      · refine .inr ⟨r, s', S', hr, hsub₁.trans hsub, hready', ?_, ?_, ?_⟩
        · refine List.forall_mem_cons.mpr ⟨hsettled.admits, fun b' hb' => ?_⟩
          exact (hsettled.admits_iff h).mp (hadmits b' hb')
        · exact List.forall_mem_cons.mpr ⟨hkeep b (hsettled.quiet_self h), hquiet⟩
        · exact fun b' hb' => hkeep b' (hsettled.quiet h hb')

end Lossless.Migration
