import Mathlib.Data.List.Forall2
import Mathlib.Data.List.Induction
import Mathlib.Data.List.Nodup

/-!
# Lists

The element at a position, lists whose elements correspond one by one, lists whose elements have names
of their own, the parts of a list that was split, the ends of a list, and the last element of a list that
has a property.
-/

namespace Lossless

variable {α β γ : Type} {R : α → β → Prop} {as : List α} {bs : List β}

/-! ### One element -/

theorem getD_eq_of_getElem? {i : Nat} {a : α} (h : as[i]? = some a) (d : α) : as.getD i d = a := by
  rw [List.getD_eq_getElem?_getD, h, Option.getD_some]

/-! ### Lists side by side -/

theorem exists_of_forall₂ (h : List.Forall₂ R as bs) : ∀ a ∈ as, ∃ b ∈ bs, R a b := by
  induction h with
  | nil => exact nofun
  | cons hab _ ih =>
      refine List.forall_mem_cons.mpr ⟨⟨_, .head _, hab⟩, fun a ha => ?_⟩
      obtain ⟨b, hb, hab⟩ := ih a ha
      exact ⟨b, .tail _ hb, hab⟩

theorem exists_of_forall₂_right (h : List.Forall₂ R as bs) : ∀ b ∈ bs, ∃ a ∈ as, R a b :=
  exists_of_forall₂ (R := flip R) h.flip

/-- Elements that correspond to those of a list, chosen one by one. -/
theorem exists_forall₂ (h : ∀ a ∈ as, ∃ b, R a b) : ∃ bs, List.Forall₂ R as bs := by
  induction as with
  | nil => exact ⟨[], .nil⟩
  | cons a as ih =>
      obtain ⟨b, hab⟩ := h a (.head _)
      obtain ⟨bs, hbs⟩ := ih fun a' ha' => h a' (.tail _ ha')
      exact ⟨b :: bs, .cons hab hbs⟩

/-- What corresponding elements have in common. -/
theorem map_eq_of_forall₂ {f : α → γ} {g : β → γ} (h : List.Forall₂ R as bs)
    (hR : ∀ {a b}, R a b → f a = g b) : as.map f = bs.map g := by
  induction h with
  | nil => rfl
  | cons hab _ ih => rw [List.map_cons, List.map_cons, hR hab, ih]

/-- Nothing but the elements themselves corresponds to those of a list. -/
theorem eq_of_forall₂ {R : α → α → Prop} {bs : List α} (h : List.Forall₂ R as bs)
    (hR : ∀ a ∈ as, ∀ b, R a b → b = a) : bs = as := by
  induction h with
  | nil => rfl
  | cons hab _ ih => rw [hR _ (.head _) _ hab, ih fun a ha => hR a (.tail _ ha)]

/-- The elements at one position. -/
theorem getElem?_of_forall₂ (h : List.Forall₂ R as bs) (i : Nat) : Option.Rel R as[i]? bs[i]? := by
  induction h generalizing i with
  | nil => exact .none
  | cons hab _ ih =>
      cases i with
      | zero => exact .some hab
      | succ i => exact ih i

/-- Elements that correspond to those of `as`, added to the ones that are done. -/
def Extends (R : α → β → Prop) (done : List β) (as : List α) (bs : List β) : Prop :=
  ∃ cs, bs = done ++ cs ∧ List.Forall₂ R as cs

theorem extends_nil {done : List β} : Extends R done [] bs ↔ bs = done := by
  constructor
  · rintro ⟨cs, rfl, h⟩
    cases h
    exact List.append_nil _
  · rintro rfl
    exact ⟨[], (List.append_nil _).symm, .nil⟩

theorem extends_cons {done : List β} {a : α} :
    Extends R done (a :: as) bs ↔ ∃ b, R a b ∧ Extends R (done ++ [b]) as bs := by
  constructor
  · rintro ⟨cs, rfl, h⟩
    cases h with
    | cons hab h => exact ⟨_, hab, _, List.append_cons _ _ _, h⟩
  · rintro ⟨b, hab, cs, rfl, h⟩
    exact ⟨b :: cs, (List.append_cons _ _ _).symm, .cons hab h⟩

/-! ### Names -/

/-- What is added to a list has a value of its own when nothing in the list has that value. -/
theorem nodup_map_concat {f : α → String} {done : List α} {a : α} :
    ((done ++ [a]).map f).Nodup ↔ (done.map f).Nodup ∧ ¬done.any (f · = f a) := by
  rw [List.map_append, List.nodup_append]
  constructor
  · rintro ⟨h, -, hnew⟩
    refine ⟨h, fun hany => ?_⟩
    obtain ⟨b, hb, hsame⟩ := List.any_eq_true.mp hany
    exact hnew _ (List.mem_map_of_mem hb) _ (List.mem_singleton_self _) (of_decide_eq_true hsame)
  · rintro ⟨h, hnew⟩
    refine ⟨h, List.nodup_singleton _, ?_⟩
    rintro x hx y hy rfl
    obtain ⟨b, hb, rfl⟩ := List.mem_map.mp hx
    have hsame : f b = f a := List.mem_singleton.mp hy
    exact hnew (List.any_eq_true.mpr ⟨b, hb, decide_eq_true hsame⟩)

/-- What is done has values of its own if the whole list has. -/
theorem Extends.nodup {f : β → String} {done : List β} (h : Extends R done as bs)
    (hbs : (bs.map f).Nodup) : (done.map f).Nodup := by
  obtain ⟨cs, rfl, -⟩ := h
  rw [List.map_append] at hbs
  exact (List.nodup_append.mp hbs).1

/-- An element is found under its name when the names differ. -/
theorem find?_of_nodup {f : α → String} {xs : List α} (h : (xs.map f).Nodup) {a : α} (ha : a ∈ xs) :
    xs.find? (f · = f a) = some a := by
  obtain ⟨b, hfind⟩ : ∃ b, xs.find? (f · = f a) = some b :=
    Option.isSome_iff_exists.mp (List.find?_isSome.mpr ⟨a, ha, decide_eq_true rfl⟩)
  have hname : f b = f a := by simpa using List.find?_some hfind
  rw [hfind, List.inj_on_of_nodup_map h (List.mem_of_find?_eq_some hfind) ha hname]

/-! ### Splitting -/

/-- No part of a list that was split holds what it was split at. -/
theorem notMem_of_mem_splitOn [BEq α] [LawfulBEq α] {a : α} {xs part : List α}
    (h : part ∈ xs.splitOn a) : a ∉ part := by
  induction xs generalizing part with
  | nil =>
      rw [List.splitOn_nil] at h
      cases List.mem_singleton.mp h
      exact List.not_mem_nil
  | cons x rest ih =>
      rw [List.splitOn_cons_eq_if_modifyHead] at h
      split at h
      · rcases List.mem_cons.mp h with rfl | h
        · exact List.not_mem_nil
        · exact ih h
      · next hx =>
          -- the element goes in front of the first part of the rest
          obtain ⟨first, others, hsplit⟩ := List.exists_cons_of_ne_nil (List.splitOn_ne_nil a rest)
          rw [hsplit] at h ih
          rcases List.mem_cons.mp h with rfl | h
          · refine List.not_mem_cons_of_ne_of_not_mem ?_ (ih (.head _))
            exact fun heq => hx (beq_iff_eq.mpr heq.symm)
          · exact ih (.tail _ h)

/-- Lists are told apart at the first place of an element. -/
theorem append_cons_inj_of_first {a : α} {xs ys us vs : List α} (hxs : a ∉ xs) (hys : a ∉ ys)
    (h : xs ++ a :: us = ys ++ a :: vs) : xs = ys ∧ us = vs := by
  induction xs generalizing ys with
  | nil =>
      cases ys with
      | nil => exact ⟨rfl, (List.cons.inj h).2⟩
      | cons y ys => exact absurd (List.cons.inj h).1 (List.ne_of_not_mem_cons hys)
  | cons x xs ih =>
      cases ys with
      | nil => exact absurd (List.cons.inj h).1.symm (List.ne_of_not_mem_cons hxs)
      | cons y ys =>
          obtain ⟨rfl, hbehind⟩ := List.cons.inj h
          obtain ⟨rfl, hrest⟩ := ih (List.not_mem_of_not_mem_cons hxs)
            (List.not_mem_of_not_mem_cons hys) hbehind
          exact ⟨rfl, hrest⟩

/-! ### Ends -/

/-- The elements at the ends of a list, with a gap for each of the others. -/
theorem mapIdx_ends (f : α → β) (head tail : Nat) (as : List α) :
    (as.mapIdx fun i a => if i < head ∨ as.length ≤ i + tail then some (f a) else none) =
      if as.length ≤ head + tail then (as.map f).map some
      else ((as.take head).map f).map some ++ (List.replicate (as.length - (head + tail)) none ++
        ((as.drop (as.length - tail)).map f).map some) := by
  split
  · refine List.ext_getElem (by simp) fun i hi _ => ?_
    rw [List.length_mapIdx] at hi
    have hend : i < head ∨ as.length ≤ i + tail := by omega
    simp [hend]
  · refine List.ext_getElem (by simp; omega) fun i hi _ => ?_
    rw [List.length_mapIdx] at hi
    have hmin : min head as.length = head := by omega
    -- a position is in the head, in the tail, or in the gap between them
    by_cases hhead : i < head
    · simp [hhead, hmin]
    · by_cases htail : as.length ≤ i + tail
      · have hgap : ¬i - head < as.length - (head + tail) := by omega
        have hindex : as.length - tail + (i - head - (as.length - (head + tail))) = i := by omega
        simp [List.getElem_append, hhead, htail, hmin, hgap, hindex]
      · have hgap : i - head < as.length - (head + tail) := by omega
        simp [List.getElem_append, hhead, htail, hmin, hgap]

/-! ### The last one -/

/-- `a` is the last element of a list that has a property. -/
def LastOf (p : α → Prop) (xs : List α) (a : α) : Prop :=
  ∃ before after, xs = before ++ a :: after ∧ p a ∧ ∀ b ∈ after, ¬p b

section LastOf

variable {p : α → Prop} {xs : List α} {a b : α}

theorem LastOf.holds (h : LastOf p xs a) : p a := by
  obtain ⟨_, _, -, ha, -⟩ := h
  exact ha

theorem LastOf.mem (h : LastOf p xs a) : a ∈ xs := by
  obtain ⟨_, _, rfl, -, -⟩ := h
  simp

theorem not_lastOf_nil : ¬LastOf p [] a := fun h => nomatch h.mem

/-- One more element is the last one, or does not count. -/
theorem lastOf_concat : LastOf p (xs ++ [b]) a ↔ (p b ∧ a = b) ∨ (¬p b ∧ LastOf p xs a) := by
  constructor
  · rintro ⟨before, after, heq, ha, hafter⟩
    rcases List.eq_nil_or_concat after with rfl | ⟨after, c, rfl⟩
    · obtain ⟨-, hab⟩ := List.append_inj' heq rfl
      cases hab
      exact .inl ⟨ha, rfl⟩
    · rw [List.concat_eq_append, ← List.cons_append, ← List.append_assoc] at heq
      obtain ⟨rfl, hbc⟩ := List.append_inj' heq rfl
      cases hbc
      rw [List.concat_eq_append] at hafter
      exact .inr ⟨hafter _ (by simp), before, after, rfl, ha, fun d hd => hafter d (by simp [hd])⟩
  · rintro (⟨hb, rfl⟩ | ⟨hb, before, after, rfl, ha, hafter⟩)
    · exact ⟨xs, [], rfl, hb, nofun⟩
    · refine ⟨before, after ++ [b], by simp, ha, fun d hd => ?_⟩
      rcases List.mem_append.mp hd with hd | hd
      · exact hafter d hd
      · rwa [List.mem_singleton.mp hd]

theorem exists_lastOf (hb : b ∈ xs) (hp : p b) : ∃ a, LastOf p xs a := by
  induction xs using List.reverseRecOn with
  | nil => cases hb
  | append_singleton xs c ih =>
      by_cases hc : p c
      · exact ⟨c, lastOf_concat.mpr (.inl ⟨hc, rfl⟩)⟩
      · rcases List.mem_append.mp hb with hb | hb
        · obtain ⟨a, ha⟩ := ih hb
          exact ⟨a, lastOf_concat.mpr (.inr ⟨hc, ha⟩)⟩
        · rw [List.mem_singleton.mp hb] at hp
          exact absurd hp hc

/-- The last one is among the elements at the end if one of them counts. -/
theorem LastOf.mem_right {ys : List α} (h : LastOf p (xs ++ ys) a) (hb : b ∈ ys) (hp : p b) :
    a ∈ ys := by
  induction ys using List.reverseRecOn with
  | nil => cases hb
  | append_singleton ys c ih =>
      rw [← List.append_assoc] at h
      rcases lastOf_concat.mp h with ⟨-, rfl⟩ | ⟨hc, h⟩
      · simp
      · rcases List.mem_append.mp hb with hb | hb
        · exact List.mem_append_left _ (ih h hb)
        · exact absurd (List.mem_singleton.mp hb ▸ hp) hc

end LastOf

end Lossless
