import Lossless.Proofs.Node.Objects
import Lossless.Proofs.Node.View
import Lossless.Proofs.Parse.Coverage

/-!
# Parse — trees are built of new objects

Every token, list and composite that the constructor builds gets a number of its own.  So among
objects a tree that is built is one more set of objects, and its tokens are new and stand at one
place of it only (`fromJson_objects`).
-/

namespace Lossless

/-- Tokens that are all different, and not among the objects of `S`. -/
structure NewTokens (S : Set Node) (ts : List Token) : Prop where
  nodup : ts.Nodup
  new : ∀ t ∈ ts, .token t ∉ S

theorem NewTokens.nil {S : Set Node} : NewTokens S [] := ⟨List.nodup_nil, nofun⟩

/-- Tokens that are there, and tokens that are new then. -/
theorem NewTokens.append {S S₁ : Set Node} {ts us : List Token} (hts : NewTokens S ts)
    (hsub : S ⊆ S₁) (hmem : ∀ t ∈ ts, .token t ∈ S₁) (hus : NewTokens S₁ us) :
    NewTokens S (ts ++ us) where
  nodup := by
    refine List.nodup_append.mpr ⟨hts.nodup, hus.nodup, ?_⟩
    rintro t ht u hu rfl
    exact hus.new t hu (hmem t ht)
  new t ht := by
    rcases List.mem_append.mp ht with ht | ht
    · exact hts.new t ht
    · exact fun h => hus.new t ht (hsub h)

namespace Parse

variable {ctx : Context} {path : ValuePath} {o : Nat} {s s' : Supply}

/-- A token that is built has the next number. -/
theorem tokenOf_id {members : List (String × Json)} {t : Token}
    (h : tokenOf ctx path members o s = .ok (t, s')) : t.id = s ∧ s' = s + 1 := by
  match hbody : Json.member? members "token" with
  | some (.obj body) =>
      match hkind : Json.member? body "kind" with
      | some (.str k) =>
          simp only [tokenOf, hbody, hkind, Option.getD_some] at h
          split at h
          · obtain ⟨_, _, hfirst, h₁⟩ := Make.bind_eq_ok.mp h
            obtain ⟨_, _, -, -, he⟩ := triviaList_eq_ok_iff.mp hfirst
            cases he
            obtain ⟨_, _, hmiddle, h₂⟩ := Make.bind_eq_ok.mp h₁
            obtain ⟨_, _, -, -, -, he⟩ := textOf_eq_ok_iff.mp hmiddle
            cases he
            obtain ⟨_, _, hlast, h₃⟩ := Make.bind_eq_ok.mp h₂
            obtain ⟨_, _, -, -, he⟩ := triviaList_eq_ok_iff.mp hlast
            cases he
            cases h₃
            exact ⟨rfl, rfl⟩
          · cases h
      | none | some .null | some (.bool _) | some (.number _) | some (.arr _) | some (.obj _) =>
          simp only [tokenOf, hbody, hkind] at h
          cases h
  | none | some .null | some (.bool _) | some (.number _) | some (.str _) | some (.arr _) =>
      simp only [tokenOf, hbody] at h
      cases h

/-- What is built among objects: one more object, with tokens that are new. -/
structure Erected (S : Set Node) (s : Supply) (n : Node) (S' : Set Node) : Prop where
  subset : S ⊆ S'
  objects : Objects S' s
  mem : n ∈ S'
  tokens : NewTokens S n.frontier

/-- Several nodes that are built, one after the other. -/
structure ErectedAll (S : Set Node) (s : Supply) (ns : List Node) (S' : Set Node) : Prop where
  subset : S ⊆ S'
  objects : Objects S' s
  mem : ∀ n ∈ ns, n ∈ S'
  tokens : NewTokens S (Node.frontierAll ns)

namespace ErectedAll

variable {S S₁ S₂ : Set Node} {n : Node} {ns : List Node}

theorem nil (h : Objects S s) : ErectedAll S s [] S := ⟨subset_rfl, h, nofun, .nil⟩

theorem cons (h : Erected S s n S₁) (hs : ErectedAll S₁ s' ns S₂) : ErectedAll S s' (n :: ns) S₂ where
  subset := h.subset.trans hs.subset
  objects := hs.objects
  mem := List.forall_mem_cons.mpr ⟨hs.subset h.mem, hs.mem⟩
  tokens := by
    rw [Node.frontierAll_cons]
    exact h.tokens.append h.subset
      (fun t ht => Node.token_mem_of_mem_frontier h.objects.child h.mem ht) hs.tokens

/-- A list or a composite of nodes that were built. -/
theorem inner (hs : ErectedAll S s ns S₁) (hid : n.id = s) (hinner : n.IsInner)
    (hn : n.children = ns) (hsound : n.Sound fun _ => True) :
    Erected S (s + 1) n (insert n S₁) where
  subset := hs.subset.trans (Set.subset_insert _ _)
  objects := hs.objects.insert hid (hn ▸ hs.mem) hsound
  mem := Set.mem_insert _ _
  tokens := by
    rw [Node.frontier_inner hinner, hn]
    exact hs.tokens

end ErectedAll

mutual
/-- A node that is built is a new object. -/
theorem nodeOf_objects (ctx : Context) (path : ValuePath) (v : Json) (o : Nat) {s s' : Supply}
    {n : Node} {S : Set Node} (hS : Objects S s) (h : nodeOf ctx path v o s = .ok (n, s')) :
    ∃ S', Erected S s' n S' := by
  rcases misshapen_or_formed ctx.catalog v with
    ⟨kind, reason, hf⟩ | ⟨members, name, hv, hkind, hform⟩
  · rw [nodeOf_of_misshapen hf] at h
    cases h
  have hsize : sizeOf members < sizeOf v := by rw [hv]; simp
  rw [hv] at h
  rcases hform with rfl | rfl | ⟨rfl, items, hitems⟩ | ⟨hname, k, hk⟩
  · rw [nodeOf_missing hkind] at h
    cases h
    exact ⟨S, subset_rfl, hS, hS.missing, .nil⟩
  · rw [nodeOf_token hkind] at h
    obtain ⟨t, s₁, ht, hr⟩ := Make.bind_eq_ok.mp h
    obtain ⟨d, -, hreal⟩ := tokenOf_realizes ht
    obtain ⟨hid, rfl⟩ := tokenOf_id ht
    cases hr
    -- a token is the one new object, with the next number
    have hsound : (Node.token t).Sound fun _ => True := by
      cases hreal.sound with
      | token hw => exact .token hw
    refine ⟨_, Set.subset_insert _ _, hS.insert (n := .token t) hid nofun hsound,
      Set.mem_insert _ _, List.nodup_singleton _, fun u hu hmem => ?_⟩
    obtain rfl := List.mem_singleton.mp hu
    exact absurd (hS.below _ hmem) (Nat.not_lt_of_le (Nat.le_of_eq hid.symm))
  · rw [nodeOf_list hkind hitems] at h
    have := Json.sizeOf_items hitems
    obtain ⟨ns, s₁, hns, hr⟩ := Make.bind_eq_ok.mp h
    obtain ⟨S₁, hall⟩ := elementsOf_objects ctx _ 0 items o hS hns
    rw [listOf_apply] at hr
    cases hr
    exact ⟨_, hall.inner rfl trivial rfl (.list fun c hc => hall.objects.sound c (hall.mem c hc))⟩
  · rw [nodeOf_composite hkind hname hk] at h
    obtain ⟨ns, s₁, hns, hr⟩ := Make.bind_eq_ok.mp h
    have hlen := (slotsOf_realizes ctx path _ members _ o hns).1
    obtain ⟨S₁, hall⟩ := slotsOf_objects ctx path _ members _ o hS hns
    rw [compositeOf_apply hlen] at hr
    cases hr
    exact ⟨_, hall.inner rfl trivial rfl
      (.composite trivial hlen fun c hc => hall.objects.sound c (hall.mem c hc))⟩
termination_by (sizeOf v, 0)

theorem slotsOf_objects (ctx : Context) (path : ValuePath) (kind : String)
    (members : List (String × Json)) (slots : List Slot) (o : Nat) {s s' : Supply}
    {ns : List Node} {S : Set Node} (hS : Objects S s)
    (h : slotsOf ctx path kind members slots o s = .ok (ns, s')) : ∃ S', ErectedAll S s' ns S' := by
  match slots with
  | [] =>
      rw [slotsOf] at h
      cases h
      exact ⟨S, .nil hS⟩
  | slot :: slots =>
      match hv : Json.member? members slot.key with
      | none =>
          rw [slotsOf_none hv] at h
          cases h
      | some v =>
          have := Json.sizeOf_member? hv
          rw [slotsOf_cons hv] at h
          obtain ⟨n, s₁, hn, h₁⟩ := Make.bind_eq_ok.mp h
          obtain ⟨S₁, hfirst⟩ := nodeOf_objects ctx _ v o hS hn
          obtain ⟨ns', s₂, hns, h₂⟩ := Make.bind_eq_ok.mp h₁
          obtain ⟨S₂, hrest⟩ := slotsOf_objects ctx path kind members slots _ hfirst.objects hns
          cases h₂
          exact ⟨S₂, .cons hfirst hrest⟩
termination_by (sizeOf members, slots.length)

theorem elementsOf_objects (ctx : Context) (path : ValuePath) (i : Nat) (items : List Json)
    (o : Nat) {s s' : Supply} {ns : List Node} {S : Set Node} (hS : Objects S s)
    (h : elementsOf ctx path i items o s = .ok (ns, s')) : ∃ S', ErectedAll S s' ns S' := by
  match items with
  | [] =>
      rw [elementsOf] at h
      cases h
      exact ⟨S, .nil hS⟩
  | v :: items =>
      rw [elementsOf] at h
      obtain ⟨n, s₁, hn, h₁⟩ := Make.bind_eq_ok.mp h
      obtain ⟨S₁, hfirst⟩ := nodeOf_objects ctx _ v o hS hn
      obtain ⟨ns', s₂, hns, h₂⟩ := Make.bind_eq_ok.mp h₁
      obtain ⟨S₂, hrest⟩ := elementsOf_objects ctx path (i + 1) items _ hfirst.objects hns
      cases h₂
      exact ⟨S₂, .cons hfirst hrest⟩
termination_by (sizeOf items, 0)
end

/-- **A tree that is built is made of new objects**, and no token stands at two places of it. -/
theorem fromJson_objects {c : Catalog} {v : Json} {file : String} {offset : Int} {source : Text}
    {n : Node} {S : Set Node} (hS : Objects S s)
    (h : fromJson c v file offset source s = .ok (n, s')) : ∃ S', Erected S s' n S' :=
  nodeOf_objects _ _ v _ hS (fromJson_eq_ok_iff.mp h).2

end Parse

end Lossless
