import Lossless.Migration.Runner
import Lossless.Node.Text
import Lossless.Telemetry.Redaction

/-!
# Telemetry — what a redacted span depends on

Of the attributes of a span, a redacted one shows those under exported keys, with their texts up to
the limit (`view`).  Two lists of attributes have the same view exactly when they agree where they are
exported (`view_eq_iff`): what is left of each when the other keys are passed over is, position by
position, the same key with values that are the same up to the limit.

* Redaction touches nothing but attributes: the errors of a span, its name, status and parent are
  handed on as they are (`redact_eq_iff`).
* A span keeps a limited number of attributes.  As long as there is room, the view of what is kept is
  kept of the view (`view_setAll`), so what is recorded under other keys makes no difference.

**Dependence** (`redaction_depends_on`) puts these together.  **Interference**
(`recorded_text_interferes`): a step that fails has its message on its span, whatever it says, so that the
text of a tree gets into redacted spans, and a span that is full of other keys has no room for an exported
one.
-/

namespace Lossless.Telemetry

/-! ### Views -/

/-- Values that are the same up to the limit of texts. -/
inductive Value.Agree : Value → Value → Prop where
  | text {t u : Text} (h : t.take textLimit = u.take textLimit) : Agree (.text t) (.text u)
  | same (v : Value) : Agree v v

/-- Whether a value is a text. -/
def Value.isText : Value → Bool
  | .text _ => true
  | _ => false

theorem Value.cut_of_isText {v : Value} (h : v.isText = false) : v.cut = v := by
  cases v with
  | text t => cases h
  | _ => rfl

@[simp] theorem Value.isText_cut (v : Value) : v.cut.isText = v.isText := by cases v <;> rfl

theorem Value.cut_eq_iff {v w : Value} : v.cut = w.cut ↔ v.Agree w := by
  constructor
  · intro h
    have hsort : v.isText = w.isText := by rw [← isText_cut v, h, isText_cut]
    cases hv : v.isText with
    | false =>
        rw [cut_of_isText hv, cut_of_isText (hsort ▸ hv)] at h
        exact h ▸ .same v
    | true =>
        match v, w, hv, hsort.symm.trans hv with
        | .text _, .text _, _, _ => exact .text (Value.text.inj h)
  · rintro (h | _)
    · exact congrArg Value.text h
    · rfl

namespace Attribute

/-- An attribute as it is exported. -/
def cut (a : Attribute) : Attribute := ⟨a.key, a.value.cut⟩

/-- What is exported of attributes. -/
def view (as : List Attribute) : List Attribute := (as.filter exported).map cut

@[simp] theorem key_cut (a : Attribute) : a.cut.key = a.key := rfl

/-- Lists of attributes that agree where they are exported: attributes under other keys are passed
over, and the others stand side by side, each with the same key and values that agree. -/
inductive Agree : List Attribute → List Attribute → Prop where
  | nil : Agree [] []
  | left {a : Attribute} {as bs : List Attribute} (ha : a.exported = false) (h : Agree as bs) :
      Agree (a :: as) bs
  | right {b : Attribute} {as bs : List Attribute} (hb : b.exported = false) (h : Agree as bs) :
      Agree as (b :: bs)
  | both {a b : Attribute} {as bs : List Attribute} (ha : a.exported = true)
      (hkey : a.key = b.key) (hvalue : a.value.Agree b.value) (h : Agree as bs) :
      Agree (a :: as) (b :: bs)

variable {a b : Attribute} {as bs : List Attribute}

@[simp] theorem view_nil : view [] = [] := rfl

theorem view_cons (a : Attribute) (as : List Attribute) :
    view (a :: as) = if a.exported then a.cut :: view as else view as := by
  unfold view
  split <;> simp [*]

theorem view_append (as bs : List Attribute) : view (as ++ bs) = view as ++ view bs := by
  simp [view]

theorem cut_eq_iff : a.cut = b.cut ↔ a.key = b.key ∧ a.value.Agree b.value := by
  rw [cut, cut, Attribute.mk.injEq, Value.cut_eq_iff]

theorem agree_nil_of_view (h : view bs = []) : Agree [] bs := by
  induction bs with
  | nil => exact .nil
  | cons b bs ih =>
      rw [view_cons] at h
      split at h
      · cases h
      · next hb => exact .right (Bool.eq_false_iff.mpr hb) (ih h)

theorem agree_cons_of_view (ha : a.exported = true) (h : view bs = a.cut :: view as)
    (ih : ∀ bs, view as = view bs → Agree as bs) : Agree (a :: as) bs := by
  induction bs with
  | nil => cases h
  | cons b bs ihb =>
      rw [view_cons] at h
      split at h
      · obtain ⟨hcut, hrest⟩ := List.cons.inj h
        obtain ⟨hkey, hvalue⟩ := cut_eq_iff.mp hcut.symm
        exact .both ha hkey hvalue (ih bs hrest.symm)
      · next hb => exact .right (Bool.eq_false_iff.mpr hb) (ihb h)

/-- **Attributes have the same view** exactly when they agree where they are exported. -/
theorem view_eq_iff : view as = view bs ↔ Agree as bs := by
  constructor
  · intro h
    induction as generalizing bs with
    | nil => exact agree_nil_of_view h.symm
    | cons a as ih =>
        rw [view_cons] at h
        split at h
        · next ha => exact agree_cons_of_view ha h.symm fun _ => ih
        · next ha => exact .left (Bool.eq_false_iff.mpr ha) (ih h)
  · intro h
    induction h with
    | nil => rfl
    | left ha _ ih => rw [view_cons, if_neg (Bool.eq_false_iff.mp ha), ih]
    | right hb _ ih => rw [view_cons, if_neg (Bool.eq_false_iff.mp hb), ih]
    | @both a b as bs ha hkey hvalue _ ih =>
        have hb : b.exported = true := by rwa [exported, ← hkey]
        rw [view_cons, view_cons, if_pos ha, if_pos hb, ih, cut_eq_iff.mpr ⟨hkey, hvalue⟩]

/-! ### Recording -/

theorem setAll_append (as bs cs : List Attribute) :
    setAll as (bs ++ cs) = setAll (setAll as bs) cs := List.foldl_append

theorem length_set_le (as : List Attribute) (a : Attribute) :
    (set as a).length ≤ as.length + 1 := by
  unfold set
  split
  · simp
  · split
    · simp
    · split <;> simp

/-- A value that is set anew is set anew in the view, if it is exported. -/
theorem view_replace (as : List Attribute) (a : Attribute) :
    view (as.map fun b => if b.key = a.key then a else b) =
      if a.exported then (view as).map fun b => if b.key = a.key then a.cut else b
      else view as := by
  induction as with
  | nil => simp
  | cons b as ih =>
      rw [List.map_cons, view_cons, view_cons, ih]
      by_cases hkey : b.key = a.key
      · have hexported : b.exported = a.exported := by rw [exported, exported, hkey]
        rw [if_pos hkey, hexported]
        split <;> simp [hkey]
      · rw [if_neg hkey]
        split <;> split <;> simp [hkey]

theorem any_view (ha : a.exported = true) :
    (view as).any (·.key = a.key) = as.any (·.key = a.key) := by
  induction as with
  | nil => rfl
  | cons b as ih =>
      rw [view_cons, List.any_cons, ← ih]
      split
      · rfl
      · next hb =>
          have hkey : b.key ≠ a.key := fun h => hb (by rwa [exported, h])
          simp [hkey]

theorem length_view_le (as : List Attribute) : (view as).length ≤ as.length := by
  rw [view, List.length_map]
  exact List.length_filter_le _ _

theorem set_cut (as : List Attribute) (a : Attribute) :
    set as a.cut =
      if a.key = "" then as
      else if as.any (·.key = a.key) then as.map fun b => if b.key = a.key then a.cut else b
      else if as.length < limit then as ++ [a.cut]
      else as := rfl

/-- **A step of recording.**  With room left, what is recorded under other keys does not change the
view, and what is exported is recorded in it. -/
theorem view_set (hroom : as.length < limit) (a : Attribute) :
    view (set as a) = if a.exported then set (view as) a.cut else view as := by
  by_cases ha : a.exported = true
  · have hname : a.key ≠ "" := fun h => by
      rw [exported, h] at ha
      exact absurd ha (by decide)
    have hview : (view as).length < limit := Nat.lt_of_le_of_lt (length_view_le as) hroom
    rw [if_pos ha, set, set_cut, any_view ha, if_neg hname, if_neg hname, if_pos hroom,
      if_pos hview]
    split
    · rw [view_replace, if_pos ha]
    · rw [view_append, view_cons, if_pos ha, view_nil]
  · rw [if_neg ha, set, if_pos hroom]
    split
    · rfl
    · split
      · rw [view_replace, if_neg ha]
      · rw [view_append, view_cons, if_neg ha, view_nil, List.append_nil]

/-- **Recording with room.** -/
theorem view_setAll (hroom : as.length + bs.length ≤ limit) :
    view (setAll as bs) = setAll (view as) (view bs) := by
  induction bs generalizing as with
  | nil => rfl
  | cons b bs ih =>
      have hlen := length_set_le as b
      rw [List.length_cons] at hroom
      have hstep := view_set (show as.length < limit by omega) b
      have hrest := ih (show (set as b).length + bs.length ≤ limit by omega)
      rw [setAll, List.foldl_cons]
      rw [setAll] at hrest
      rw [hrest, hstep, view_cons]
      split <;> rfl

/-- Attributes that agree where they are exported are recorded with the same view, as long as a span
has room for them. -/
theorem view_setAll_of_agree (has : as.length ≤ limit) (hbs : bs.length ≤ limit)
    (h : Agree as bs) : view (setAll [] as) = view (setAll [] bs) := by
  rw [view_setAll (by rwa [List.length_nil, Nat.zero_add]),
    view_setAll (by rwa [List.length_nil, Nat.zero_add]), view_eq_iff.mpr h]

/-- A full span takes no new key. -/
theorem set_of_full (hfull : limit ≤ as.length) (hnew : ∀ b ∈ as, b.key ≠ a.key) :
    set as a = as := by
  have hany : ¬as.any (·.key = a.key) := by simpa using hnew
  rw [set, if_neg hany, if_neg (Nat.not_lt.mpr hfull), ite_self]

/-- Different keys are recorded one after the other, as long as there is room. -/
theorem setAll_of_nodup (hkeys : ((as ++ bs).map (·.key)).Nodup) (hnamed : ∀ b ∈ bs, b.key ≠ "")
    (hroom : as.length + bs.length ≤ limit) : setAll as bs = as ++ bs := by
  induction bs generalizing as with
  | nil => exact (List.append_nil as).symm
  | cons b bs ih =>
      rw [List.length_cons] at hroom
      have hnew : ¬as.any (·.key = b.key) := by
        rw [List.map_append, List.map_cons, List.nodup_append] at hkeys
        simpa using fun a ha => hkeys.2.2 _ (List.mem_map_of_mem ha) _ List.mem_cons_self
      have hset : set as b = as ++ [b] := by
        rw [set, if_neg (hnamed b List.mem_cons_self), if_neg hnew, if_pos (by omega)]
      rw [List.append_cons] at hkeys ⊢
      rw [setAll, List.foldl_cons, hset]
      exact ih hkeys (fun b' hb' => hnamed b' (List.mem_cons_of_mem b hb')) (by simp; omega)

end Attribute

/-! ### Spans -/

/-- A span with the attributes that were recorded on it. -/
def Span.recorded (s : Span) (as : List Attribute) : Span :=
  { s with attrs := Attribute.setAll [] as }

theorem Span.redact_eq (s : Span) : s.redact = { s with attrs := Attribute.view s.attrs } := rfl

/-- **What a redacted span depends on.** -/
theorem redact_eq_iff {s s' : Span} :
    s.redact = s'.redact ↔ Attribute.Agree s.attrs s'.attrs ∧
      s.name = s'.name ∧ s.errors = s'.errors ∧ s.status = s'.status ∧ s.parent = s'.parent := by
  rw [← Attribute.view_eq_iff]
  cases s
  cases s'
  simp only [Span.redact_eq, Span.mk.injEq]
  exact and_left_comm

/-- Redacted spans are the same exactly when the spans are the same but for attributes, and these
agree where they are exported.  When attributes that agree where they are exported are recorded in
spans with room for them, the redacted spans are the same exactly when the spans are the same but for
attributes: what is recorded under other keys makes no difference, and what errors say does. -/
theorem redaction_depends_on (s s' : Span) :
    (s.redact = s'.redact ↔ Attribute.Agree s.attrs s'.attrs ∧
      s.name = s'.name ∧ s.errors = s'.errors ∧ s.status = s'.status ∧ s.parent = s'.parent) ∧
    ∀ as bs : List Attribute, as.length ≤ Attribute.limit → bs.length ≤ Attribute.limit →
      Attribute.Agree as bs →
      ((s.recorded as).redact = (s'.recorded bs).redact ↔
        s.name = s'.name ∧ s.errors = s'.errors ∧ s.status = s'.status ∧ s.parent = s'.parent) := by
  refine ⟨redact_eq_iff, fun as bs has hbs h => redact_eq_iff.trans (and_iff_right ?_)⟩
  exact Attribute.view_eq_iff.mp (Attribute.view_setAll_of_agree has hbs h)

theorem redaction_depends_on_filePath :
    Attribute.Agree [.str "token.text" "x", .str "file.path" "a.hack"]
        [.str "file.path" "a.hack"] ∧
      ((⟨"a", [], [], .unset, ""⟩ : Span).recorded
          [.str "token.text" "x", .str "file.path" "a.hack"]).redact =
        ((⟨"a", [], [], .unset, ""⟩ : Span).recorded [.str "file.path" "a.hack"]).redact := by
  have hagree : Attribute.Agree [.str "token.text" "x", .str "file.path" "a.hack"]
      [.str "file.path" "a.hack"] := .left (by decide) (.both (by decide) rfl (.text rfl) .nil)
  exact ⟨hagree, ((redaction_depends_on ⟨"a", [], [], .unset, ""⟩ ⟨"a", [], [], .unset, ""⟩).2 _ _
    (by decide) (by decide) hagree).mpr ⟨rfl, rfl, rfl, rfl⟩⟩

/-! ### Interference -/

/-- A migration whose only step fails with a message about the text that it is given. -/
def refusal : Migration where
  name := "refuse"
  description := ""
  steps := [⟨"refuse", fun n _ _ => .error (.custom ("unexpected " ++ n.fullText.toStr))⟩]
  steps_ne_nil := List.cons_ne_nil _ _

/-- A tree of one name. -/
def nameNode (text : String) : Node := .token ⟨1, "name", [], text, [], text.utf8ByteSize⟩

/-- The span of the step that refuses a name. -/
def refusedSpan (text : String) : Span where
  name := Span.step
  attrs := [.str "migration.name" "refuse", .str "step.name" "refuse",
    .str "error.type" "transform"]
  errors := [Text.ofString ("step refuse: rewrite name: unexpected " ++ text)]
  status := .error "step failed"
  parent := Span.migrate

/-- As many attributes under other keys as a span keeps. -/
def fillers : List Attribute :=
  (List.range Attribute.limit).map fun i => .str (String.ofList (List.replicate (i + 1) 'x')) ""

theorem fillers_length : fillers.length = Attribute.limit := by simp [fillers]

theorem fillers_nodup : (fillers.map (·.key)).Nodup := by
  rw [fillers, List.map_map]
  refine List.pairwise_map.mpr (List.nodup_range.imp fun hne h => hne ?_)
  simpa [Attribute.str] using congrArg String.length h

theorem fillers_named {a : Attribute} (ha : a ∈ fillers) : a.key ≠ "" := by
  intro hkey
  obtain ⟨i, -, rfl⟩ := List.mem_map.mp ha
  simpa [Attribute.str] using congrArg String.length hkey

/-- Exported keys have a dot in them. -/
theorem exported_of_mem_fillers {a : Attribute} (ha : a ∈ fillers) : a.exported = false := by
  have hdot : ∀ key ∈ Span.exportedKeys, '.' ∈ key.toList := by decide
  obtain ⟨i, -, rfl⟩ := List.mem_map.mp ha
  refine Bool.eq_false_iff.mpr fun h => ?_
  have hx := hdot _ (List.contains_iff_mem.mp h)
  simp [Attribute.str] at hx

/-- Fillers leave no room. -/
theorem setAll_fillers (a : Attribute) (ha : a.exported = true) :
    Attribute.setAll [] (fillers ++ [a]) = fillers := by
  have hset : Attribute.setAll [] fillers = fillers :=
    Attribute.setAll_of_nodup fillers_nodup (fun _ => fillers_named) (by simp [fillers_length])
  rw [Attribute.setAll_append, hset]
  refine Attribute.set_of_full (by simp [fillers_length]) fun b hb hkey => ?_
  have hb := exported_of_mem_fillers hb
  rw [Attribute.exported, hkey] at hb
  exact absurd ha (Bool.eq_false_iff.mp hb)

/-- Two runs of one migration, over trees of different texts, have spans that differ in the texts of
their errors alone, and still do so when they are redacted; and what is recorded under keys that are
not exported makes a difference when it fills a span. -/
theorem recorded_text_interferes :
    (refusedSpan "x" ∈ Event.spans (refusal.run "a.hack" (nameNode "x") 2).events ∧
      refusedSpan "y" ∈ Event.spans (refusal.run "a.hack" (nameNode "y") 2).events ∧
      refusedSpan "y" = { refusedSpan "x" with errors := (refusedSpan "y").errors } ∧
      (refusedSpan "x").redact ≠ (refusedSpan "y").redact) ∧
    Attribute.Agree (fillers ++ [.str "file.path" "x"]) [.str "file.path" "x"] ∧
      ((refusedSpan "x").recorded (fillers ++ [.str "file.path" "x"])).redact ≠
        ((refusedSpan "x").recorded [.str "file.path" "x"]).redact := by
  have hview : Attribute.view fillers = [] := by
    rw [Attribute.view, List.filter_eq_nil_iff.mpr fun a ha => by
      simp [exported_of_mem_fillers ha], List.map_nil]
  refine ⟨⟨by decide +kernel, by decide +kernel, rfl, by decide +kernel⟩, ?_, fun h => ?_⟩
  · rw [← Attribute.view_eq_iff, Attribute.view_append, hview, List.nil_append]
  · have hattrs := Attribute.view_eq_iff.mpr (redact_eq_iff.mp h).1
    rw [Span.recorded, Span.recorded, setAll_fillers _ (by decide), hview] at hattrs
    exact absurd hattrs (by decide)

end Lossless.Telemetry
