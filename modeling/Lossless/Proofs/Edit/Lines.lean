import Lossless.Edit.Lines
import Lossless.Proofs.Edit.Between
import Lossless.Proofs.Edit.Tidiness
import Lossless.Proofs.Lists
import Lossless.Proofs.Text.Lines
import Mathlib.Data.List.ReduceOption

/-!
# Edit — what a line diff shows

A line diff is the text of a script between two texts, line by line.  `rows` says what a reader is
shown of the script: each line of a changed chunk behind its mark, a kept line within `context` lines of
a changed chunk behind a blank, and nothing for the other kept lines.  How near a changed chunk is, is
counted over the chunks above and below (`changeWithin`), not by their places.  `records` puts one record
in the place of every run of hidden rows.

The renderer goes by the place of a chunk instead: it leaves out the middle of a kept chunk, and the
first or last lines as well where no chunk stands above or below.  Both agree because the chunks next
to a kept one are changed (`chunkRows_keep`), and so the text of a script is its records, each on a
line (`renderScript_eq`).

The items of each chunk of a script are lines of one of the texts (`LineScript.lines`), so they may be
counted in the text that they make up (`countChange_eq_length`): a line without its newline is the last
one of its text.

**What the diff** of two texts shows is `lineDiff_faithful`, how many lines come and go
`diffStats_balance`.
-/

namespace Lossless.Edit

open Text (newline)

variable {before after : Text} {above below s : Script Text} {change : Change}

/-! ### Scripts of lines -/

/-- A script that turns the lines of one text into those of another, in which no two neighbouring
chunks are of the same kind. A chunk may be empty. -/
structure LineScript (before after : Text) (s : Script Text) : Prop where
  source : s.source = before.lines
  target : s.target = after.lines
  alternating : s.Alternating

/-- The lines of the chunks of one kind. -/
def linesOf (change : Change) (s : Script Text) : List Text :=
  s.flatMap fun c => if c.change = change then c.items else []

theorem linesOf_cons (change : Change) (c : Chunk Text) (s : Script Text) :
    linesOf change (c :: s) = (if c.change = change then c.items else []) ++ linesOf change s := rfl

/-- The script that is found is one, whatever the texts. -/
theorem lineScript_lineScript (before after : Text) :
    LineScript before after (lineScript before after) :=
  ⟨Script.source_between _ _, Script.target_between _ _, Script.alternating_between _ _⟩

theorem length_source (s : Script Text) :
    s.source.length = (linesOf .keep s).length + (linesOf .delete s).length := by
  induction s with
  | nil => rfl
  | cons c s ih =>
      obtain ⟨change, items⟩ := c
      cases change <;> simp [linesOf_cons, ih] <;> omega

theorem length_target (s : Script Text) :
    s.target.length = (linesOf .keep s).length + (linesOf .insert s).length := by
  induction s with
  | nil => rfl
  | cons c s ih =>
      obtain ⟨change, items⟩ := c
      cases change <;> simp [linesOf_cons, ih] <;> omega

/-- Without changed lines, both sides are the same. -/
theorem source_eq_target (hdeleted : linesOf .delete s = []) (hinserted : linesOf .insert s = []) :
    s.source = s.target := by
  induction s with
  | nil => rfl
  | cons c s ih =>
      obtain ⟨change, items⟩ := c
      rw [linesOf_cons, List.append_eq_nil_iff] at hdeleted hinserted
      have hrest := ih hdeleted.2 hinserted.2
      cases change with
      | keep => rw [Script.source_keep, Script.target_keep, hrest]
      | delete =>
          obtain rfl : items = [] := by simpa using hdeleted.1
          simpa using hrest
      | insert =>
          obtain rfl : items = [] := by simpa using hinserted.1
          simpa using hrest

theorem infix_source {c : Chunk Text} (hc : c ∈ s) (hchange : c.change ≠ .insert) :
    c.items <:+: s.source := by
  obtain ⟨front, rest, rfl⟩ := List.append_of_mem hc
  refine ⟨Script.source front, Script.source rest, ?_⟩
  obtain ⟨change, items⟩ := c
  cases change with
  | keep | delete => simp
  | insert => exact absurd rfl hchange

theorem infix_target {c : Chunk Text} (hc : c ∈ s) (hchange : c.change ≠ .delete) :
    c.items <:+: s.target := by
  obtain ⟨front, rest, rfl⟩ := List.append_of_mem hc
  refine ⟨Script.target front, Script.target rest, ?_⟩
  obtain ⟨change, items⟩ := c
  cases change with
  | keep | insert => simp
  | delete => exact absurd rfl hchange

namespace LineScript

/-- The items of each chunk are lines, because they stand one behind the other in one of the texts. -/
theorem lines (h : LineScript before after s) : ∀ c ∈ s, Text.Lines c.items := by
  intro c hc
  by_cases hchange : c.change = .insert
  · have hrun := infix_target hc (by rw [hchange]; nofun)
    rw [h.target] at hrun
    exact (Text.lines_lines after).of_run hrun
  · have hrun := infix_source hc hchange
    rw [h.source] at hrun
    exact (Text.lines_lines before).of_run hrun

/-- Different texts differ in some line. -/
theorem changed (h : LineScript before after s) (hne : before ≠ after) :
    linesOf .delete s ≠ [] ∨ linesOf .insert s ≠ [] := by
  by_contra hnone
  obtain ⟨hdeleted, hinserted⟩ := not_or.mp hnone
  refine hne (Text.lines_injective ?_)
  rw [← h.source, ← h.target]
  exact source_eq_target (not_not.mp hdeleted) (not_not.mp hinserted)

end LineScript

/-- Counting the lines of chunks of one kind is counting their items. -/
theorem countChange_eq_length (change : Change) (h : ∀ c ∈ s, Text.Lines c.items) :
    countChange change s = (linesOf change s).length := by
  induction s with
  | nil => rfl
  | cons c s ih =>
      obtain ⟨hc, hs⟩ := List.forall_mem_cons.mp h
      have hrest := ih hs
      unfold countChange at hrest ⊢
      rw [List.map_cons, List.foldr_cons, hrest, linesOf_cons, List.length_append]
      split
      · rw [hc.countLines_flatten]
      · rfl

/-! ### Rows -/

/-- The mark in front of a line. -/
def mark : Change → Text
  | .keep => " "
  | .delete => "-"
  | .insert => "+"

/-- A line behind its mark and without its terminator. -/
def markLine (change : Change) (line : Text) : Text := mark change ++ line.dropNewline

/-- Whether fewer than `n` lines stand in front of the first changed chunk. -/
def changeWithin : (n : Nat) → Script Text → Bool
  | _, [] => false
  | n, c :: rest =>
    if c.change = .keep then changeWithin (n - c.items.length) rest else decide (0 < n)

/-- Whether line `i` of a chunk of `n` lines is a line of a changed chunk or within `context` lines of one.
The chunks above are given from the nearest on. -/
def shown (above : Script Text) (change : Change) (n i : Nat) (below : Script Text) : Bool :=
  change ≠ .keep || changeWithin (context - i) above || changeWithin (context - (n - 1 - i)) below

/-- What shows each line of a chunk: the line behind its mark, or nothing. -/
def chunkRows (above : Script Text) (c : Chunk Text) (below : Script Text) : List (Option Text) :=
  c.items.mapIdx fun i line =>
    if shown above c.change c.items.length i below then some (markLine c.change line) else none

/-- What shows each line of a script, from top to bottom. -/
def rows (above : Script Text) : Script Text → List (Option Text)
  | [] => []
  | c :: below => chunkRows above c below ++ rows (c :: above) below

/-- The record that stands for hidden lines. -/
def hiddenLines : Text := "@@ ... @@"

/-- The records of rows, in order. Of the hidden rows that stand side by side, the last one becomes the
record of all of them. -/
def records : List (Option Text) → List Text
  | [] => []
  | some r :: rest => r :: records rest
  | none :: none :: rest => records (none :: rest)
  | none :: rest => hiddenLines :: records rest

/-- The records that start with the mark of a change. -/
def marked (change : Change) (rs : List Text) : List Text := rs.filter (mark change).isPrefixOf

theorem records_map_some (rs : List Text) (rest : List (Option Text)) :
    records (rs.map some ++ rest) = rs ++ records rest := by
  induction rs with
  | nil => rfl
  | cons r rs ih => rw [List.map_cons, List.cons_append, records, ih, List.cons_append]

/-- A run of hidden rows is one record. -/
theorem records_replicate {n : Nat} (hn : 0 < n) {rest : List (Option Text)}
    (hrest : none ∉ rest.head?) :
    records (List.replicate n none ++ rest) = hiddenLines :: records rest := by
  induction n, hn using Nat.le_induction with
  | base =>
      cases rest with
      | nil => rfl
      | cons row rest =>
          cases row with
          | none => exact absurd rfl hrest
          | some r => rfl
  | succ n hn ih =>
      obtain ⟨m, rfl⟩ := Nat.exists_eq_add_of_le' hn
      rw [List.replicate_succ, List.cons_append, List.replicate_succ, List.cons_append, records,
        ← List.cons_append, ← List.replicate_succ, ih]

/-- A gap between the first and the last lines of a chunk is one record, also when it is open below. -/
theorem records_gap (head : List Text) {tail : List Text} {n : Nat} (hn : 0 < n)
    {rest : List (Option Text)} (hrest : tail = [] → rest = []) :
    records (head.map some ++ (List.replicate n none ++ tail.map some) ++ rest) =
      head ++ hiddenLines :: (tail ++ records rest) := by
  have hshown : none ∉ (tail.map some ++ rest).head? := by
    cases tail with
    | nil => simp [hrest rfl]
    | cons r tail => simp
  rw [List.append_assoc, records_map_some, List.append_assoc, records_replicate hn hshown,
    records_map_some]

/-- Hidden lines have no mark, so the marked records are the marked rows. -/
theorem marked_records (change : Change) (rs : List (Option Text)) :
    marked change (records rs) = marked change rs.reduceOption := by
  have hhidden : (mark change).isPrefixOf hiddenLines = false := by cases change <;> decide
  fun_induction records rs with
  | case1 => rfl
  | case2 r rest ih =>
      unfold marked at ih ⊢
      rw [List.reduceOption_cons_of_some, List.filter_cons, List.filter_cons, ih]
  | case3 rest ih => rw [ih, ← List.reduceOption_cons_of_none (none :: rest)]
  | case4 rest _ ih =>
      unfold marked at ih ⊢
      rw [List.reduceOption_cons_of_none, List.filter_cons_of_neg (by simp [hhidden]), ih]

theorem mem_records {r : Text} {rs : List (Option Text)} (h : r ∈ records rs) :
    r = hiddenLines ∨ some r ∈ rs := by
  fun_induction records rs with
  | case1 => cases h
  | case2 s rest ih =>
      rcases List.mem_cons.mp h with rfl | h
      · exact .inr (.head _)
      · exact (ih h).imp_right (.tail _)
  | case3 rest ih => exact (ih h).imp_right (.tail _)
  | case4 rest _ ih =>
      rcases List.mem_cons.mp h with rfl | h
      · exact .inl rfl
      · exact (ih h).imp_right (.tail _)

/-! ### The rows of a chunk -/

/-- How many lines next to some chunks, the nearest of which is changed, are shown. -/
def reach (s : Script Text) : Nat := if s.isEmpty then 0 else context

theorem eq_nil_of_reach (h : reach s = 0) : s = [] := by
  cases s with
  | nil => rfl
  | cons c rest => cases h

theorem changeWithin_eq (h : ∀ c ∈ s.head?, c.change ≠ .keep) (i : Nat) :
    changeWithin (context - i) s = decide (i < reach s) := by
  cases s with
  | nil => simp [changeWithin, reach]
  | cons c rest =>
      rw [changeWithin, if_neg (h c rfl)]
      exact decide_eq_decide.mpr Nat.sub_pos_iff_lt

/-- All lines of a changed chunk are shown. -/
theorem chunkRows_changed (above below : Script Text) {c : Chunk Text} (hc : c.change ≠ .keep) :
    chunkRows above c below = (c.items.map (markLine c.change)).map some := by
  refine List.ext_getElem (by simp [chunkRows]) fun i _ _ => ?_
  simp [chunkRows, shown, hc]

/-- Of an unchanged chunk that stands between changed ones, the lines at its ends are shown. -/
theorem chunkRows_keep (items : List Text) (habove : ∀ d ∈ above.head?, d.change ≠ .keep)
    (hbelow : ∀ d ∈ below.head?, d.change ≠ .keep) :
    chunkRows above ⟨.keep, items⟩ below = items.mapIdx fun i line =>
      if i < reach above ∨ items.length ≤ i + reach below then some (markLine .keep line) else none := by
  refine List.mapIdx_eq_mapIdx_iff.mpr fun i (hi : i < items.length) => ?_
  have hend : items.length - 1 - i < reach below ↔ items.length ≤ i + reach below := by omega
  simp [shown, changeWithin_eq habove, changeWithin_eq hbelow, hend]

/-! ### Rendering -/

theorem markLines_eq_unlines (change : Change) (lines : List Text) :
    markLines (mark change) lines = Text.unlines (lines.map (markLine change)) := by
  rw [Text.unlines, List.flatMap_map]
  rfl

/-- An unchanged chunk is rendered as the records of its rows. -/
theorem markContext_append (items : List Text) (habove : ∀ d ∈ above.head?, d.change ≠ .keep)
    (hbelow : ∀ d ∈ below.head?, d.change ≠ .keep) {rest : List (Option Text)}
    (hrest : below = [] → rest = []) :
    markContext (reach above) (reach below) items ++ Text.unlines (records rest) =
      Text.unlines (records (chunkRows above ⟨.keep, items⟩ below ++ rest)) := by
  rw [chunkRows_keep items habove hbelow, mapIdx_ends]
  have hmarked (lines : List Text) : markLines " " lines = Text.unlines (lines.map (markLine .keep)) :=
    markLines_eq_unlines .keep lines
  unfold markContext
  split
  · rw [records_map_some, Text.unlines_append, hmarked]
  · next hlong =>
      -- some lines are hidden, and the ends are as long as the chunks around reach
      have hhidden : 0 < items.length - (reach above + reach below) := by omega
      have hends : (items.drop (items.length - reach below)).map (markLine .keep) = [] → rest = [] := by
        intro hnone
        rw [List.map_eq_nil_iff, List.drop_eq_nil_iff] at hnone
        exact hrest (eq_nil_of_reach (by omega))
      have helision (rs : List Text) : Text.unlines (hiddenLines :: rs) = elision ++ Text.unlines rs :=
        congrArg (· ++ Text.unlines rs) (show hiddenLines ++ [newline] = elision by decide)
      rw [records_gap _ hhidden hends, Text.unlines_append, helision, Text.unlines_append, hmarked,
        hmarked]
      simp only [List.append_assoc]

/-- A script in which no two neighbours are of the same kind is rendered as the records of its rows. -/
theorem renderScript_eq (above : Script Text) (h : s.Alternating)
    (habove : ∀ c ∈ above.head?, ∀ d ∈ s.head?, c.change ≠ d.change) :
    renderScript above.isEmpty s = Text.unlines (records (rows above s)) := by
  -- of the chunks that were shown only the nearest one counts
  induction s generalizing above with
  | nil => rfl
  | cons c below ih =>
      obtain ⟨hbelow, halternating⟩ := List.isChain_cons.mp h
      have hrest : renderScript false below = Text.unlines (records (rows (c :: above) below)) := by
        refine ih (c :: above) halternating ?_
        rintro _ ⟨⟩ d hd
        exact hbelow d hd
      rw [renderScript, hrest, rows]
      obtain ⟨change, items⟩ := c
      cases change with
      | keep =>
          refine markContext_append items (fun d hd => habove d hd _ rfl)
            (fun d hd => (hbelow d hd).symm) ?_
          rintro rfl
          rfl
      | delete | insert =>
          rw [chunkRows_changed _ _ (by simp), records_map_some, Text.unlines_append,
            ← markLines_eq_unlines]
          rfl

/-! ### The marked records -/

/-- Every row of a chunk is a line behind the mark of the chunk. -/
theorem mem_chunkRows {c : Chunk Text} {r : Text} (h : some r ∈ chunkRows above c below) :
    ∃ line ∈ c.items, r = markLine c.change line := by
  obtain ⟨i, hi, hr⟩ := List.mem_mapIdx.mp h
  split at hr
  · exact ⟨c.items[i], List.getElem_mem hi, (Option.some_inj.mp hr).symm⟩
  · cases hr

theorem mem_rows {r : Text} (h : some r ∈ rows above s) :
    ∃ c ∈ s, ∃ line ∈ c.items, r = markLine c.change line := by
  induction s generalizing above with
  | nil => cases h
  | cons c below ih =>
      rcases List.mem_append.mp h with h | h
      · exact ⟨c, .head _, mem_chunkRows h⟩
      · obtain ⟨d, hd, hline⟩ := ih h
        exact ⟨d, .tail _ hd, hline⟩

/-- A line behind a mark starts with this mark only. -/
theorem isPrefixOf_markLine {change change' : Change} (line : Text) :
    (mark change).isPrefixOf (markLine change' line) = decide (change' = change) := by
  cases change <;> cases change' <;> rfl

theorem reduceOption_map_some (rs : List Text) : (rs.map some).reduceOption = rs := by
  rw [List.reduceOption, List.filterMap_map]
  exact List.filterMap_some

/-- The records with the mark of a change are the lines of the changed chunks. -/
theorem marked_rows (hchange : change ≠ .keep) (above s : Script Text) :
    marked change (rows above s).reduceOption = (linesOf change s).map (markLine change) := by
  induction s generalizing above with
  | nil => rfl
  | cons c below ih =>
      rw [rows, List.reduceOption_append, marked, List.filter_append, linesOf_cons, List.map_append,
        ← ih (c :: above), marked]
      congr 1
      split
      · next hc =>
          rw [chunkRows_changed above below (hc ▸ hchange), reduceOption_map_some, hc]
          exact List.filter_eq_self.mpr <| List.forall_mem_map.mpr fun line _ => by
            simp [isPrefixOf_markLine]
      · next hc =>
          refine List.filter_eq_nil_iff.mpr fun r hr => ?_
          obtain ⟨line, -, rfl⟩ := mem_chunkRows (List.reduceOption_mem_iff.mp hr)
          simp [isPrefixOf_markLine, hc]

/-- No record has a newline in it. -/
theorem notMem_records (h : ∀ c ∈ s, Text.Lines c.items) :
    ∀ r ∈ records (rows above s), newline ∉ r := by
  intro r hr
  rcases mem_records hr with rfl | hr
  · decide
  · obtain ⟨c, hc, line, hline, rfl⟩ := mem_rows hr
    have hmark : newline ∉ mark c.change := by cases c.change <;> decide
    exact List.not_mem_append hmark ((h c hc).notMem_dropNewline line hline)

/-! ### Line diffs -/

/-- A diff that shows a script: its lines are the records of the script, of which those that are marked
are the changed lines, and the numbers are those of the added and of the removed lines. -/
structure Shows (s : Script Text) (diff : Text) (stats : Nat × Nat) : Prop where
  split : diff.splitOn newline = records (rows [] s) ++ [[]]
  deleted : marked .delete (records (rows [] s)) = (linesOf .delete s).map (markLine .delete)
  inserted : marked .insert (records (rows [] s)) = (linesOf .insert s).map (markLine .insert)
  stats : stats = ((marked .insert (records (rows [] s))).length,
    (marked .delete (records (rows [] s))).length)

namespace LineScript

/-- Whatever script is found, it is shown. -/
theorem shows (h : LineScript before after s) :
    Shows s (renderScript true s) (countChange .insert s, countChange .delete s) := by
  have hrendered : renderScript true s = Text.unlines (records (rows [] s)) :=
    renderScript_eq [] h.alternating nofun
  have hmarked (change : Change) (hchange : change ≠ .keep) :
      marked change (records (rows [] s)) = (linesOf change s).map (markLine change) := by
    rw [marked_records, marked_rows hchange]
  have hdeleted := hmarked .delete nofun
  have hinserted := hmarked .insert nofun
  refine ⟨?_, hdeleted, hinserted, ?_⟩
  · rw [hrendered, Text.splitOn_unlines (notMem_records h.lines)]
  · rw [hdeleted, hinserted, List.length_map, List.length_map, countChange_eq_length _ h.lines,
      countChange_eq_length _ h.lines]

end LineScript

/-- A diff that shows a script with changed lines is not empty. -/
theorem Shows.ne_nil {diff : Text} {stats : Nat × Nat} (h : Shows s diff stats)
    (hs : linesOf .delete s ≠ [] ∨ linesOf .insert s ≠ []) : diff ≠ [] := by
  rintro rfl
  have hnone : records (rows [] s) = [] := by simpa using h.split.symm
  have hdeleted := h.deleted
  have hinserted := h.inserted
  rw [hnone] at hdeleted hinserted
  rcases hs with hs | hs
  · exact hs (List.map_eq_nil_iff.mp hdeleted.symm)
  · exact hs (List.map_eq_nil_iff.mp hinserted.symm)

/-- Different texts have a diff. -/
theorem lineDiff_ne_nil (hne : before ≠ after) : lineDiff before after ≠ [] := by
  have hscript := lineScript_lineScript before after
  rw [lineDiff, if_neg hne]
  exact hscript.shows.ne_nil (hscript.changed hne)

/-- A diff starts with the mark of a line or with that of hidden lines. -/
theorem head_lineDiff {b : UInt8} (h : List.head? (lineDiff before after) = some b) :
    b ∈ Text.ofString " -+@" := by
  unfold lineDiff at h
  split at h
  · cases h
  have hrendered : renderScript true (lineScript before after) =
      Text.unlines (records (rows [] (lineScript before after))) :=
    renderScript_eq [] (lineScript_lineScript before after).alternating nofun
  have hrecord := fun r => @mem_records r (rows [] (lineScript before after))
  rw [hrendered] at h
  cases hrecords : records (rows [] (lineScript before after)) with
  | nil =>
      rw [hrecords] at h
      cases h
  | cons r rs =>
      rw [hrecords, Text.unlines, List.flatMap_cons] at h
      -- a record stands for hidden lines, or is a line with its mark in front
      rcases hrecord r (hrecords ▸ .head _) with rfl | hr
      · cases h
        decide
      · obtain ⟨c, -, line, -, rfl⟩ := mem_rows hr
        cases hchange : c.change <;> rw [hchange] at h <;> cases h <;> decide

/-- **The line diff** of two texts is empty for equal texts. For different ones it shows the script that
is found, and it would show any other script between their lines. -/
theorem lineDiff_faithful (before after : Text) :
    (lineDiff before after = [] ↔ before = after) ∧
      (before ≠ after → LineScript before after (lineScript before after) ∧
        Shows (lineScript before after) (lineDiff before after) (diffStats before after)) ∧
      ∀ s, LineScript before after s → before ≠ after → renderScript true s ≠ [] ∧
        Shows s (renderScript true s) (countChange .insert s, countChange .delete s) := by
  have hany : ∀ s, LineScript before after s → before ≠ after → renderScript true s ≠ [] ∧
      Shows s (renderScript true s) (countChange .insert s, countChange .delete s) :=
    fun s hs hne => ⟨hs.shows.ne_nil (hs.changed hne), hs.shows⟩
  have hscript := lineScript_lineScript before after
  refine ⟨⟨?_, ?_⟩, fun hne => ⟨hscript, ?_⟩, hany⟩
  · intro hnil
    by_contra hne
    rw [lineDiff, if_neg hne] at hnil
    exact (hany _ hscript hne).1 hnil
  · rintro rfl
    exact if_pos rfl
  · rw [lineDiff, diffStats, if_neg hne, if_neg hne]
    exact hscript.shows

/-- Two texts that differ in nothing but their last newline. -/
def numerals (last : Text) : Text := "one\ntwo\nthree\nfour\nfive\nsix" ++ last

/-- The script between them that replaces every line. -/
def renumbered : Script Text :=
  [⟨.delete, (numerals []).lines⟩, ⟨.insert, (numerals "\n").lines⟩]

theorem lineDiff_numerals :
    numerals [] ≠ numerals "\n" ∧
      lineDiff (numerals []) (numerals "\n") = "@@ ... @@\n four\n five\n-six\n+six\n" ∧
      Shows (lineScript (numerals []) (numerals "\n")) (lineDiff (numerals []) (numerals "\n"))
        (1, 1) ∧
      LineScript (numerals []) (numerals "\n") renumbered ∧
      Shows renumbered (renderScript true renumbered) (6, 6) := by
  have hne : numerals [] ≠ numerals "\n" := by decide
  have hstats : diffStats (numerals []) (numerals "\n") = (1, 1) := by decide +kernel
  have hall : (countChange .insert renumbered, countChange .delete renumbered) = (6, 6) := by
    decide +kernel
  have hrenumbered : LineScript (numerals []) (numerals "\n") renumbered :=
    ⟨by simp [renumbered], by simp [renumbered], List.isChain_pair.mpr nofun⟩
  obtain ⟨-, hfound, hany⟩ := lineDiff_faithful (numerals []) (numerals "\n")
  refine ⟨hne, by decide +kernel, ?_, hrenumbered, ?_⟩
  · rw [← hstats]
    exact (hfound hne).2
  · rw [← hall]
    exact (hany renumbered hrenumbered hne).2

/-- **The numbers of added and of removed lines make up for the difference in the numbers of lines.** -/
theorem diffStats_balance (before after : Text) :
    ((diffStats before after).1 : Int) - (diffStats before after).2 =
        (after.countLines : Int) - before.countLines ∧
      (diffStats before after).2 ≤ before.countLines ∧
      (diffStats before after).1 ≤ after.countLines ∧
      (diffStats before after = (0, 0) ↔ before = after) := by
  by_cases heq : before = after
  · subst heq
    simp [diffStats]
  · have hscript := lineScript_lineScript before after
    have hbefore := length_source (lineScript before after)
    have hafter := length_target (lineScript before after)
    have hchanged := hscript.changed heq
    rw [hscript.source, ← Text.countLines_eq_length_lines] at hbefore
    rw [hscript.target, ← Text.countLines_eq_length_lines] at hafter
    rw [← List.length_pos_iff, ← List.length_pos_iff] at hchanged
    simp only [diffStats, if_neg heq, countChange_eq_length _ hscript.lines, Prod.mk.injEq]
    refine ⟨?_, ?_, ?_, ?_⟩
    · omega
    · omega
    · omega
    · -- something changed, so one of the two numbers is above zero
      refine iff_of_false ?_ heq
      omega

end Lossless.Edit
