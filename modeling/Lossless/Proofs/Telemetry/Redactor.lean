import Lossless.Proofs.Lists
import Lossless.Proofs.Telemetry.Redaction
import Mathlib.Tactic.Tauto

/-!
# Telemetry — what a redactor does over a run

A redactor keeps the attributes under exported keys, cuts their texts and reports the other keys in one
loop, and whether it reports a key depends on all spans that ended before.  What it remembers and
what it has written say which attributes it was given (`Redactor.Accounts`): one attribute keeps this
(`Accounts.handle`), and so do the attributes of a span and the spans of a run (`Accounts.run`).

The log is told attribute by attribute: behind a history it grows by the report of a key exactly when
the key is not exported and occurs for the first time (`newlyDropped_concat`).

**Redaction over runs** (`redaction_over_runs`).  What is handed on of each span, and what is reported.
-/

namespace Lossless.Telemetry

variable {seen : List String} {as bs : List Attribute} {a : Attribute} {key : String}

/-! ### Keys that are dropped for the first time -/

theorem newlyDropped_cons (seen : List String) (a : Attribute) (as : List Attribute) :
    newlyDropped seen (a :: as) =
      if a.exported = true ∨ a.key ∈ seen then newlyDropped seen as
      else a.key :: newlyDropped (a.key :: seen) as := by
  rw [newlyDropped]
  simp only [Bool.or_eq_true, List.contains_iff_mem]

/-- The keys of attributes that are not exported and were not seen. -/
theorem mem_newlyDropped :
    key ∈ newlyDropped seen as ↔
      key ∉ seen ∧ ∃ a ∈ as, a.key = key ∧ a.exported = false := by
  induction as generalizing seen with
  | nil => simp [newlyDropped]
  | cons a as ih =>
      rw [newlyDropped_cons]
      split
      · next hold =>
          rw [ih]
          refine and_congr_right fun hkey => ⟨fun ⟨b, hb, h⟩ => ⟨b, .tail _ hb, h⟩, ?_⟩
          rintro ⟨b, hb, hname, hexported⟩
          rcases List.mem_cons.mp hb with rfl | hb
          · exact absurd hold (by simp [hexported, hname, hkey])
          · exact ⟨b, hb, hname, hexported⟩
      · next hnew =>
          obtain ⟨hexported, hseen⟩ := not_or.mp hnew
          rw [List.mem_cons, ih, List.mem_cons, not_or]
          by_cases hkey : key = a.key
          · subst hkey
            exact iff_of_true (.inl rfl) ⟨hseen, a, .head _, rfl, Bool.eq_false_iff.mpr hexported⟩
          · rw [or_iff_right hkey, and_iff_right hkey, List.exists_mem_cons_iff]
            simp [Ne.symm hkey]

theorem nodup_newlyDropped : (newlyDropped seen as).Nodup := by
  induction as generalizing seen with
  | nil => exact List.nodup_nil
  | cons a as ih =>
      rw [newlyDropped_cons]
      split
      · exact ih
      · exact List.nodup_cons.mpr ⟨fun h => (mem_newlyDropped.mp h).1 (.head _), ih⟩

/-- **One more attribute**: its key is dropped for the first time when it is not exported, was not
seen, and no attribute before has it. -/
theorem newlyDropped_concat (seen : List String) (as : List Attribute) (a : Attribute) :
    newlyDropped seen (as ++ [a]) = newlyDropped seen as ++
      if a.exported = true ∨ a.key ∈ seen ∨ ∃ b ∈ as, b.key = a.key then [] else [a.key] := by
  induction as generalizing seen with
  | nil =>
      rw [List.nil_append, newlyDropped_cons]
      simp [newlyDropped]
  | cons b as ih =>
      rw [List.cons_append, newlyDropped_cons, newlyDropped_cons]
      split
      · next hold =>
          have hb : b.key = a.key → a.exported = true ∨ a.key ∈ seen :=
            fun hkey => by rwa [Attribute.exported, hkey] at hold
          rw [ih]
          refine congrArg _ (if_congr ?_ rfl rfl)
          rw [List.exists_mem_cons_iff]
          tauto
      · rw [ih, List.cons_append]
        refine congrArg _ (congrArg _ (if_congr ?_ rfl rfl))
        rw [List.exists_mem_cons_iff, List.mem_cons, eq_comm]
        tauto

/-- One more attribute behind all that there were. -/
theorem newlyDropped_history (as : List Attribute) (a : Attribute) :
    newlyDropped [] (as ++ [a]) = newlyDropped [] as ++
      if a.exported = true ∨ ∃ b ∈ as, b.key = a.key then [] else [a.key] := by
  simpa using newlyDropped_concat [] as a

theorem newlyDropped_prefix (seen : List String) (as bs : List Attribute) :
    newlyDropped seen as <+: newlyDropped seen (as ++ bs) := by
  induction bs using List.reverseRecOn with
  | nil => simp only [List.append_nil, List.prefix_rfl]
  | append_singleton bs b ih =>
      rw [← List.append_assoc, newlyDropped_concat]
      exact ih.trans (List.prefix_append _ _)

namespace Redactor

variable {r : Redactor} {before : List Attribute}

/-! ### One attribute -/

/-- What a redactor remembers and has reported when it was given some attributes. -/
structure Accounts (r : Redactor) (before : List Attribute) : Prop where
  log : r.log = if r.reports then (newlyDropped [] before).map droppedRecord else []
  dropped : r.reports = true → ∀ key, key ∈ r.dropped ↔ key ∈ newlyDropped [] before

theorem reports_handle (p : Redactor × List Attribute) (a : Attribute) :
    (handle p a).1.reports = p.1.reports := by
  unfold handle reportDropped
  split
  · rfl
  · dsimp only
    split <;> rfl

theorem kept_handle (p : Redactor × List Attribute) (a : Attribute) :
    (handle p a).2 = p.2 ++ Attribute.view [a] := by
  rw [handle, Attribute.view_cons]
  split
  · rfl
  · exact (List.append_nil _).symm

/-- **A step**: a redactor accounts for one more attribute. -/
theorem Accounts.handle {p : Redactor × List Attribute} (h : Accounts p.1 before) (a : Attribute) :
    Accounts (handle p a).1 (before ++ [a]) := by
  -- what is no first occurrence changes nothing
  have hsame (hold : a.exported = true ∨ ∃ b ∈ before, b.key = a.key) :
      Accounts p.1 (before ++ [a]) := by
    have hnone := newlyDropped_history before a
    rw [if_pos hold, List.append_nil] at hnone
    exact ⟨hnone ▸ h.log, hnone ▸ h.dropped⟩
  unfold Redactor.handle
  split
  · next hexported => exact hsame (.inl hexported)
  next hexported =>
  unfold reportDropped
  dsimp only
  split
  · next hsilent =>
      cases hreports : p.1.reports with
      | false => exact ⟨h.log.trans (by simp [hreports]), fun hr => by simp [hreports] at hr⟩
      | true =>
          have hkey : a.key ∈ p.1.dropped := by simpa [hreports] using hsilent
          obtain ⟨-, b, hb, hname, -⟩ := mem_newlyDropped.mp ((h.dropped hreports a.key).mp hkey)
          exact hsame (.inr ⟨b, hb, hname⟩)
  · next hnew =>
      have hnew : p.1.reports = true ∧ a.key ∉ p.1.dropped := by simpa using hnew
      obtain ⟨hreports, hkey⟩ := hnew
      have hfirst : ¬(a.exported = true ∨ ∃ b ∈ before, b.key = a.key) := by
        rintro (he | ⟨b, hb, hname⟩)
        · exact hexported he
        · have hexported : b.exported = false := by
            rwa [Attribute.exported, hname, ← Bool.not_eq_true]
          have hmem := mem_newlyDropped.mpr ⟨List.not_mem_nil, b, hb, hname, hexported⟩
          exact hkey ((h.dropped hreports a.key).mpr hmem)
      have hmore := newlyDropped_history before a
      rw [if_neg hfirst] at hmore
      refine ⟨?_, fun _ key => ?_⟩
      · rw [if_pos hreports, hmore, List.map_append, h.log, if_pos hreports]
        rfl
      · rw [List.mem_cons, hmore, List.mem_append, List.mem_singleton, h.dropped hreports, or_comm]

/-- The loop over the attributes of a span. -/
theorem foldl_handle {p : Redactor × List Attribute} (h : Accounts p.1 before)
    (as : List Attribute) :
    (as.foldl Redactor.handle p).1.reports = p.1.reports ∧
      Accounts (as.foldl Redactor.handle p).1 (before ++ as) := by
  induction as generalizing p before with
  | nil => exact ⟨rfl, (List.append_nil before).symm ▸ h⟩
  | cons a as ih =>
      obtain ⟨hreports, haccounts⟩ := ih (h.handle a)
      rw [List.append_assoc] at haccounts
      exact ⟨hreports.trans (reports_handle p a), haccounts⟩

/-- What is kept does not depend on what the redactor was given before. -/
theorem kept_foldl (p : Redactor × List Attribute) (as : List Attribute) :
    (as.foldl Redactor.handle p).2 = p.2 ++ Attribute.view as := by
  induction as generalizing p with
  | nil => exact (List.append_nil _).symm
  | cons a as ih =>
      rw [List.foldl_cons, ih, kept_handle, List.append_assoc, ← Attribute.view_append]
      rfl

/-! ### Spans -/

/-- A span is handed on as redacted, whatever there was before. -/
theorem onEnd_eq (r : Redactor) (s : Span) : (r.onEnd s).2 = s.redact := by
  rw [Span.redact_eq]
  exact congrArg (fun attrs => ({ s with attrs } : Span)) (kept_foldl (r, []) s.attrs)

/-- **A run**: spans are handed on as redacted, and the redactor accounts for their attributes. -/
theorem Accounts.run (h : Accounts r before) (spans : List Span) :
    (r.run spans).2 = spans.map Span.redact ∧ (r.run spans).1.reports = r.reports ∧
      Accounts (r.run spans).1 (before ++ spans.flatMap (·.attrs)) := by
  induction spans generalizing r before with
  | nil => exact ⟨rfl, rfl, (List.append_nil before).symm ▸ h⟩
  | cons s spans ih =>
      obtain ⟨hreports, haccounts⟩ := foldl_handle (p := (r, [])) h s.attrs
      obtain ⟨hout, hreports', haccounts'⟩ := ih haccounts
      rw [List.append_assoc] at haccounts'
      exact ⟨congrArg₂ List.cons (onEnd_eq r s) hout, hreports'.trans hreports, haccounts'⟩

/-- A redactor that is given its first span. -/
def start (reports : Bool) : Redactor := { reports }

theorem start_accounts (reports : Bool) : Accounts (start reports) [] :=
  ⟨by cases reports <;> rfl, fun _ _ => Iff.rfl⟩

/-- What is reported over a run. -/
def logged (spans : List Span) : List Record := ((start true).run spans).1.log

theorem logged_eq (spans : List Span) : logged spans = redactionReport spans := by
  obtain ⟨-, hreports, haccounts⟩ := (start_accounts true).run spans
  have hreports : ((start true).run spans).1.reports = true := hreports
  rw [logged, haccounts.log, if_pos hreports]
  rfl

end Redactor

/-! ### Redaction over runs -/

/-- A value as it is exported: a text that is longer than the limit is cut there, and nothing else is
changed. -/
inductive Value.Shortened : Value → Value → Prop where
  | long {t : Text} (h : textLimit < t.length) : Shortened (.text t) (.text (t.take textLimit))
  | short {t : Text} (h : t.length ≤ textLimit) : Shortened (.text t) (.text t)
  | other {v : Value} (h : v.isText = false) : Shortened v v

theorem Value.shortened_cut (v : Value) : v.Shortened v.cut := by
  cases v with
  | text t =>
      rcases Nat.lt_or_ge textLimit t.length with h | h
      · exact .long h
      · rw [cut, List.take_of_length_le h]
        exact .short h
  | _ => exact .other rfl

/-- A span as it is handed on: the same but for its attributes, which are those under exported keys in
their order, with their values shortened. -/
structure Span.HandedOn (s s' : Span) : Prop where
  rest : s' = { s with attrs := s'.attrs }
  attrs : List.Forall₂ (fun a b => a.key = b.key ∧ a.value.Shortened b.value)
    (s.attrs.filter (·.key ∈ exportedKeys)) s'.attrs

theorem Span.handedOn_redact (s : Span) : s.HandedOn s.redact where
  rest := rfl
  attrs := by
    have hfilter : s.attrs.filter (·.key ∈ exportedKeys) = s.attrs.filter Attribute.exported :=
      List.filter_congr fun a _ => by simp [Attribute.exported]
    rw [hfilter, Span.redact, List.forall₂_map_right_iff, List.forall₂_same]
    exact fun a _ => ⟨rfl, a.value.shortened_cut⟩

/-- For every sequence of spans that end under one redactor with a logger. Each span is handed on with
its attributes under exported keys, in order, with texts cut at the limit. The log has one report for
each key that is not exported and occurs anywhere. It is written as the keys occur for the first time:
at every attribute of the sequence the log grows by the report of the key exactly when the key is not
exported and no attribute before has it, and nothing is ever taken back. Without a logger the same
spans are handed on, and nothing is reported. -/
theorem redaction_over_runs (spans : List Span) :
    List.Forall₂ Span.HandedOn spans ((Redactor.start true).run spans).2 ∧
    (∃ keys : List String, Redactor.logged spans = keys.map droppedRecord ∧ keys.Nodup ∧
      ∀ key, key ∈ keys ↔ key ∉ Span.exportedKeys ∧ ∃ s ∈ spans, ∃ a ∈ s.attrs, a.key = key) ∧
    (∀ (before after : List Span) (s : Span) (front back : List Attribute) (a : Attribute),
      Redactor.logged (before ++ [{ s with attrs := front ++ [a] }]) =
        Redactor.logged (before ++ [{ s with attrs := front }]) ++
          (if a.key ∈ Span.exportedKeys ∨ ∃ b ∈ before.flatMap (·.attrs) ++ front, b.key = a.key
            then [] else [droppedRecord a.key]) ∧
      Redactor.logged (before ++ [{ s with attrs := front ++ [a] }]) <+:
        Redactor.logged (before ++ { s with attrs := front ++ a :: back } :: after)) ∧
    ((Redactor.start false).run spans).2 = ((Redactor.start true).run spans).2 ∧
      ((Redactor.start false).run spans).1.log = [] := by
  obtain ⟨hout, -, -⟩ := (Redactor.start_accounts true).run spans
  obtain ⟨hsilent, hreports, haccounts⟩ := (Redactor.start_accounts false).run spans
  have hexported (a : Attribute) : a.exported = true ↔ a.key ∈ Span.exportedKeys :=
    List.contains_iff_mem
  refine ⟨?_, ⟨newlyDropped [] (spans.flatMap Span.attrs), Redactor.logged_eq spans,
    nodup_newlyDropped, fun key => ?_⟩, fun before after s front back a => ⟨?_, ?_⟩,
    hsilent.trans hout.symm, ?_⟩
  · rw [hout, List.forall₂_map_right_iff, List.forall₂_same]
    exact fun s _ => s.handedOn_redact
  · rw [mem_newlyDropped, and_iff_right List.not_mem_nil]
    constructor
    · rintro ⟨a, ha, rfl, hdropped⟩
      obtain ⟨s, hs, ha⟩ := List.mem_flatMap.mp ha
      exact ⟨fun h => by simp [(hexported a).mpr h] at hdropped, s, hs, a, ha, rfl⟩
    · rintro ⟨hkey, s, hs, a, ha, rfl⟩
      exact ⟨a, List.mem_flatMap.mpr ⟨s, hs, ha⟩, rfl,
        Bool.eq_false_iff.mpr fun h => hkey ((hexported a).mp h)⟩
  · have hstep := newlyDropped_history (before.flatMap (·.attrs) ++ front) a
    simp only [Redactor.logged_eq, redactionReport, List.flatMap_append, List.flatMap_cons,
      List.flatMap_nil, List.append_nil, ← List.append_assoc]
    rw [hstep, List.map_append]
    simp only [hexported]
    split <;> rfl
  · have hprefix := newlyDropped_prefix [] (before.flatMap (·.attrs) ++ front ++ [a])
      (back ++ after.flatMap (·.attrs))
    simp only [Redactor.logged_eq, redactionReport, List.flatMap_append, List.flatMap_cons,
      List.flatMap_nil, List.append_nil]
    refine List.IsPrefix.map droppedRecord ?_
    simpa only [List.append_assoc, List.cons_append, List.nil_append] using hprefix
  · rw [haccounts.log, hreports]
    rfl

end Lossless.Telemetry
