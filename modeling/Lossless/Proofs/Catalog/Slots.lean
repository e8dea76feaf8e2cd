import Lossless.Catalog.Document
import Lossless.Proofs.Lists

/-!
# Catalog — slots and their names

A slot is found by its name: the first one of that name, with its position (`slot?_eq_some`), and
there is one for every name of the kind (`exists_slot?`).  When no two slots of a kind share a name
(`Kind.Distinct`), a position is the one of its name (`Distinct.slot?_eq`).

A catalog is well-formed when its kinds are distinct and have names of their own, which are not
reserved, and when no two slots of a kind share a key.  Its kinds are found under their names, and they
can be put in the order of these (`sortedKinds_strict`).
-/

namespace Lossless

namespace Kind

variable {k : Kind} {name : String} {i : Nat} {s : Slot}

theorem findSlot_eq_some {slots : List Slot} {start : Nat}
    (h : findSlot name start slots = some (i, s)) :
    ∃ j, i = start + j ∧ slots[j]? = some s ∧ s.name = name := by
  induction slots generalizing start with
  | nil => cases h
  | cons t slots ih =>
      rw [findSlot] at h
      split at h
      · next hname => cases h; exact ⟨0, rfl, rfl, hname⟩
      · obtain ⟨j, rfl, hj, hname⟩ := ih h
        exact ⟨j + 1, by omega, hj, hname⟩

/-- What is found under a name is a slot of that name, at its position. -/
theorem slot?_eq_some (h : k.slot? name = some (i, s)) : k.slots[i]? = some s ∧ s.name = name := by
  obtain ⟨j, rfl, hj, hname⟩ := findSlot_eq_some h
  exact ⟨by rw [Nat.zero_add]; exact hj, hname⟩

theorem slot?_lt (h : k.slot? name = some (i, s)) : i < k.arity :=
  (List.getElem?_eq_some_iff.mp (slot?_eq_some h).1).1

/-- Every name of a kind is found. -/
theorem exists_slot? (h : name ∈ k.slotNames) : ∃ i s, k.slot? name = some (i, s) := by
  have hfind : ∀ (slots : List Slot) (start : Nat), name ∈ slots.map (·.name) →
      ∃ i s, findSlot name start slots = some (i, s) := by
    intro slots
    induction slots with
    | nil => exact fun _ hm => nomatch hm
    | cons t slots ih =>
        intro start hm
        rw [findSlot]
        split
        · exact ⟨start, t, rfl⟩
        · next hname =>
            rcases List.mem_cons.mp hm with rfl | hm
            · exact absurd rfl hname
            · exact ih (start + 1) hm
  exact hfind k.slots 0 h

/-- No two slots share a name. -/
def Distinct (k : Kind) : Prop := k.slotNames.Nodup

instance (k : Kind) : Decidable k.Distinct := inferInstanceAs (Decidable k.slotNames.Nodup)

/-- In a distinct kind the slot at a position is the one that is found under its name. -/
theorem Distinct.slot?_eq (hk : k.Distinct) (h : k.slots[i]? = some s) :
    k.slot? s.name = some (i, s) := by
  have hname : ∀ {j : Nat} {t : Slot}, k.slots[j]? = some t → k.slotNames[j]? = some t.name := by
    intro j t hj
    rw [slotNames, List.getElem?_map, hj]
    rfl
  obtain ⟨j, t, hfound⟩ := exists_slot? (List.mem_of_getElem? (hname h))
  obtain ⟨hj, hs⟩ := slot?_eq_some hfound
  have hlt := (List.getElem?_eq_some_iff.mp (hname h)).1
  -- what is found under the name has the name too, so its position is the same
  have heq : i = j := (List.getElem?_inj hlt hk).mp (by rw [hname h, hname hj, hs])
  subst heq
  cases hj.symm.trans h
  exact hfound

end Kind

/-! ### Well-formed catalogs -/

/-- A kind that parser documents can tell from other kinds, with slots that have names and keys of
their own. -/
structure Kind.WellFormed (k : Kind) : Prop where
  distinct : k.Distinct
  keys : (k.slots.map (·.key)).Nodup
  name : k.name ∉ reservedKinds

/-- Well-formed kinds with names of their own. -/
structure Catalog.WellFormed (c : Catalog) : Prop where
  kinds : ∀ k ∈ c.kinds, k.WellFormed
  names : (c.kinds.map (·.name)).Nodup

/-- A kind of a well-formed catalog is known by its name. -/
theorem Catalog.WellFormed.eq_of_name {c : Catalog} (hc : c.WellFormed) {k k' : Kind}
    (hk : k ∈ c.kinds) (hk' : k' ∈ c.kinds) (hname : k.name = k'.name) : k = k' :=
  List.inj_on_of_nodup_map hc.names hk hk' hname

/-- A kind of a well-formed catalog is found under its name. -/
theorem Catalog.WellFormed.kind?_eq {c : Catalog} (hc : c.WellFormed) {k : Kind}
    (hk : k ∈ c.kinds) : c.kind? k.name = some k :=
  find?_of_nodup hc.names hk

theorem Catalog.mem_sortedKinds {c : Catalog} {k : Kind} : k ∈ c.sortedKinds ↔ k ∈ c.kinds :=
  List.mem_mergeSort

theorem Catalog.WellFormed.sortedKinds_nodup {c : Catalog} (hc : c.WellFormed) :
    (c.sortedKinds.map (·.name)).Nodup :=
  ((List.mergeSort_perm _ _).map _).nodup_iff.mpr hc.names

/-- The kinds of a well-formed catalog, in strictly ascending order of their names. -/
theorem Catalog.WellFormed.sortedKinds_strict {c : Catalog} (hc : c.WellFormed) :
    c.sortedKinds.Pairwise fun k k' => k.name < k'.name := by
  have hle : c.sortedKinds.Pairwise fun k k' => decide (k.name ≤ k'.name) = true := by
    refine List.pairwise_mergeSort (fun a b d hab hbd => ?_) (fun a b => ?_) c.kinds
    · exact decide_eq_true (String.le_trans (of_decide_eq_true hab) (of_decide_eq_true hbd))
    · simpa using String.le_total a.name b.name
  have hne := List.pairwise_map.mp hc.sortedKinds_nodup
  refine (hle.and hne).imp fun {k k'} h => ?_
  exact Std.lt_of_le_of_ne (of_decide_eq_true h.1) h.2

end Lossless
