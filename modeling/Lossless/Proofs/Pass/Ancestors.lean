import Lossless.Pass.Ancestors
import Mathlib.Algebra.Group.Nat.Defs
import Mathlib.Data.List.Basic
import Mathlib.Data.List.Induction
import Mathlib.Tactic.Lift

/-!
# Pass — paths as lists

A path of ancestors is a parent with a lineage above it.  All that is read from a path is read from
the chain of its nodes, nearest first: its length, which the nearest link keeps (`length_eq`), what
is met on the way up from the parent (`up_eq`), and the path from the root on (`toList_eq`).  So a
path represents the list whose reverse is its chain (`Represents.of_chain`).

**Paths** (`ofList_represents`).  The path made of a list represents that list, and its lineage with
one more node represents the list with that node behind it.
-/

namespace Lossless

theorem Lineage.nodes_foldl_push (l : Lineage) (ns : List Node) :
    (ns.foldl push l).nodes = ns.reverse ++ l.nodes := by
  induction ns generalizing l with
  | nil => rfl
  | cons n ns ih => simp [ih]

namespace Ancestors

/-! ### The chain of a path -/

theorem parent_eq (a : Ancestors) : a.parent = a.chain.head? := by
  rw [chain, lineage]
  cases a.parent <;> rfl

theorem length_eq (a : Ancestors) : a.length = a.chain.length := by
  rw [chain, ← Lineage.depth_eq_length, length, lineage]
  cases a.parent <;> rfl

theorem up_eq (a : Ancestors) (i : Nat) : a.up i = a.chain[i]? := by
  rw [chain, Lineage.nodes, ← Links.climb_eq, up, if_neg (by omega), lineage]
  cases a.parent with
  | none => rfl
  | some p =>
      cases i with
      | zero => rfl
      | succ i => exact if_neg (by omega)

theorem up_of_neg (a : Ancestors) {i : Int} (h : i < 0) : a.up i = none := if_pos h

theorem up_of_length_le (a : Ancestors) {i : Int} (h : a.length ≤ i) : a.up i = none := by
  lift i to Nat using by omega
  rw [length_eq] at h
  rw [up_eq, List.getElem?_eq_none (by omega)]

/-- The ancestors, root first, are the chain from its far end. -/
theorem toList_eq (a : Ancestors) : a.toList = a.chain.reverse := by
  have hup : ∀ i ∈ List.range a.chain.length,
      a.up ((a.chain.length : Int) - 1 - (i : Nat)) = some (a.chain.reverse.getD i .missing) := by
    intro i hi
    have hlt : i < a.chain.length := List.mem_range.mp hi
    have hcast : (a.chain.length : Int) - 1 - (i : Nat) = ((a.chain.length - 1 - i : Nat) : Int) := by
      omega
    rw [hcast, up_eq, List.getD_eq_getElem?_getD, List.getElem?_reverse hlt,
      List.getElem?_eq_getElem (by omega), Option.getD_some]
  rw [toList, length_eq]
  refine List.ext_getElem? fun i => ?_
  rw [List.filterMap_congr hup, List.filterMap_eq_map', List.getElem?_map]
  by_cases hi : i < a.chain.length
  · rw [List.getElem?_range hi, Option.map_some, List.getD_eq_getElem?_getD,
      List.getElem?_eq_getElem (by rwa [List.length_reverse]), Option.getD_some]
  · rw [List.getElem?_eq_none (by simp; omega), List.getElem?_eq_none (by simp; omega)]
    rfl

/-- Where the level of a position wraps around as a word, there is no ancestor at the position, and
none at the level that comes out. -/
theorem up_word (a : Ancestors) (ha : a.length < 2 ^ 63) (i : Int64) :
    a.up (Int64.ofNat a.length - 1 - i).toInt = a.up (a.length - 1 - i.toInt) := by
  have hlow := i.le_toInt
  have hhigh := i.toInt_lt
  have hword : (Int64.ofNat a.length - 1 - i).toInt = (a.length - 1 - i.toInt).bmod (2 ^ 64) := by
    rw [Int64.toInt_sub, Int64.toInt_sub, Int64.toInt_ofNat_of_lt ha]
    simp
  rw [hword]
  by_cases hfits : (a.length : Int) - 1 - i.toInt < 2 ^ 63
  · rw [Int.bmod_eq_of_le (by omega) (by omega)]
  · have hwrap : ((a.length : Int) - 1 - i.toInt).bmod (2 ^ 64) < 0 := by
      rw [Int.bmod_def]
      omega
    rw [up_of_neg a hwrap, up_of_length_le a (by omega)]

/-! ### The list of a path -/

/-- A path is read as a list, root first: from the root on, from the parent up, and nothing at
positions and levels that the list does not have. Levels may be computed in words. -/
structure Represents (a : Ancestors) (ns : List Node) : Prop where
  length : a.length = ns.length
  toList : a.toList = ns
  numbered : a.numbered.length = ns.length ∧ ∀ i : Nat, a.numbered[i]? = ns[i]?.map (i, ·)
  parent : a.parent = ns.getLast?
  at_inside (i : Nat) (h : i < ns.length) : a.at_ i = .ok ns[i]
  at_outside (i : Int) : i < 0 ∨ ns.length ≤ i → a.at_ i = .error (.ancestor i ns.length)
  up_inside (j : Nat) (h : j < ns.length) : a.up j = some ns[ns.length - 1 - j]
  up_outside (j : Int) : j < 0 ∨ ns.length ≤ j → a.up j = none
  at_word (i : Int64) : ns.length < 2 ^ 63 →
    a.up (Int64.ofNat a.length - 1 - i).toInt = a.up (a.length - 1 - i.toInt)

variable {a : Ancestors} {ns : List Node}

theorem up_of_chain (h : a.chain = ns.reverse) {j : Nat} (hj : j < ns.length) :
    a.up j = some ns[ns.length - 1 - j] := by
  rw [up_eq, h, List.getElem?_reverse hj, List.getElem?_eq_getElem]

theorem up_outside_of_length (h : a.length = ns.length) {j : Int}
    (hj : j < 0 ∨ (ns.length : Int) ≤ j) : a.up j = none := by
  rcases hj with hj | hj
  · exact up_of_neg a hj
  · exact up_of_length_le a (by omega)

/-- A position counted from the root is a level counted from the other end. -/
theorem at_of_chain (h : a.chain = ns.reverse) {i : Nat} (hi : i < ns.length) :
    a.at_ i = .ok ns[i] := by
  have hlength : a.length = ns.length := by rw [length_eq, h, List.length_reverse]
  have hlevel : (ns.length : Int) - 1 - i = ((ns.length - 1 - i : Nat) : Int) := by omega
  have hback : ns.length - 1 - (ns.length - 1 - i) = i := by omega
  rw [at_, hlength, hlevel, up_of_chain h (by omega)]
  simp only [hback]

theorem Represents.of_chain (h : a.chain = ns.reverse) : a.Represents ns := by
  have hlength : a.length = ns.length := by rw [length_eq, h, List.length_reverse]
  have hlist : a.toList = ns := by rw [toList_eq, h, List.reverse_reverse]
  exact {
    length := hlength
    toList := hlist
    numbered := by simp [Ancestors.numbered, hlist]
    parent := by rw [parent_eq, h, List.head?_reverse]
    at_inside := fun i hi => at_of_chain h hi
    at_outside := fun i hi => by
      rw [at_, hlength, up_outside_of_length hlength (by omega)]
    up_inside := fun j hj => up_of_chain h hj
    up_outside := fun j hj => up_outside_of_length hlength hj
    at_word := fun i hns => up_word a (by rwa [hlength]) i }

/-! ### The path of a list -/

theorem ofList_concat (ns : List Node) (n : Node) :
    ofList (ns ++ [n]) = ⟨some n, ns.foldl Lineage.push {}⟩ := by
  rw [ofList, List.getLast?_concat, List.dropLast_concat]

theorem ofList_lineage (ns : List Node) : (ofList ns).lineage = ns.foldl Lineage.push {} := by
  induction ns using List.reverseRecOn with
  | nil => rfl
  | append_singleton ns n ih =>
      rw [ofList_concat, List.foldl_append]
      rfl

theorem ofList_chain (ns : List Node) : (ofList ns).chain = ns.reverse := by
  rw [chain, ofList_lineage, Lineage.nodes_foldl_push]
  exact List.append_nil _

theorem ofList_push (ns : List Node) (n : Node) : (ofList ns).push n = ofList (ns ++ [n]) := by
  rw [push, ofList_lineage, ofList_concat]

/-- **A path represents the list it is made of**, from either end and at every position. Its lineage
holds the list from the last node on and knows how long it is; with one more node it is the lineage
of the children of that node, whose path represents the list with the node behind it. -/
theorem ofList_represents (ns : List Node) :
    (ofList ns).Represents ns ∧
    ((ofList ns).lineage.nodes = ns.reverse ∧ (ofList ns).lineage.depth = ns.length) ∧
    ∀ n, (((ofList ns).lineage.push n).nodes.reverse = ns ++ [n] ∧
        ((ofList ns).lineage.push n).depth = ns.length + 1) ∧
      ((ofList ns).push n).lineage = (ofList ns).lineage.push n ∧
      ((ofList ns).push n).Represents (ns ++ [n]) := by
  have hnodes : (ofList ns).lineage.nodes = ns.reverse := ofList_chain ns
  have hdepth : (ofList ns).lineage.depth = ns.length := by
    rw [Lineage.depth_eq_length, hnodes, List.length_reverse]
  refine ⟨.of_chain (ofList_chain ns), ⟨hnodes, hdepth⟩, fun n => ⟨⟨?_, ?_⟩, rfl, ?_⟩⟩
  · rw [Lineage.nodes_push, hnodes, List.reverse_cons, List.reverse_reverse]
  · rw [Lineage.depth_eq_length, Lineage.nodes_push, List.length_cons, hnodes, List.length_reverse]
  · rw [ofList_push]
    exact .of_chain (ofList_chain (ns ++ [n]))

end Ancestors

end Lossless
