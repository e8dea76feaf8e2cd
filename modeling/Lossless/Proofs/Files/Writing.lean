import Lossless.Files.Basic
import Lossless.Proofs.Lists

/-!
# Files — where a file is written

A path is walked element by element, and each directory on the way gets a cleaned path of its own.  The
walk ends at the path that cleaning the whole path gives (`follow_path`), so a file that is written is
the one under the cleaned path (`write_eq_put`), and no other file changes (`lookup_put`).

Cleaning a path takes its elements one by one, too (`resolve_eq_foldl`): each is kept, dropped, or
takes back the last one that was kept.  `Settled` says what can be kept.  The elements of a path that
was cleaned settle to themselves (`Settled.foldl_elements`), so that going on from it (`join_render`)
is the same as going on with its elements.
-/

namespace Lossless

namespace Path

variable {rooted : Bool} {kept : List Text} {e : Text}

/-! ### Elements -/

theorem slash_notMem_elements {path : Text} : ∀ e ∈ elements path, slash ∉ e :=
  fun _ he => notMem_of_mem_splitOn he

/-! ### Resolving -/

/-- What is kept, from the last element on, after one more element. -/
def push (rooted : Bool) (kept : List Text) (e : Text) : List Text :=
  if e = [] || e = [dot] then kept
  else if e = parent then
    match kept with
    | [] => if rooted then [] else [e]
    | last :: above => if last = parent then e :: kept else above
  else e :: kept

theorem resolve_cons (rest : List Text) :
    resolve rooted kept (e :: rest) = resolve rooted (push rooted kept e) rest := by
  rw [resolve.eq_def, push.eq_def]
  dsimp only
  split
  · rfl
  · split
    · cases kept with
      | nil => rfl
      | cons last above =>
          dsimp only
          split <;> rfl
    · rfl

/-- Resolving takes the elements one by one. -/
theorem resolve_eq_foldl (es : List Text) :
    resolve rooted kept es = (es.foldl (push rooted) kept).reverse := by
  induction es generalizing kept with
  | nil => rw [resolve, List.foldl_nil]
  | cons e es ih => rw [resolve_cons, ih, List.foldl_cons]

/-- What resolving can keep: no element takes another one back. -/
inductive Settled (rooted : Bool) : List Text → Prop
  | nil : Settled rooted []
  | cons {e : Text} {kept : List Text} (hkept : Settled rooted kept)
      (hpush : push rooted kept e = e :: kept) (hslash : slash ∉ e) : Settled rooted (e :: kept)

theorem push_of_plain (h : e ≠ []) (hdot : e ≠ [dot]) (hparent : e ≠ parent) :
    push rooted kept e = e :: kept := by
  rw [push.eq_def, if_neg (by simp [h, hdot]), if_neg hparent]

theorem Settled.pushed (h : Settled rooted kept) (he : slash ∉ e) :
    Settled rooted (push rooted kept e) := by
  by_cases hempty : e = []
  · subst hempty
    exact h
  by_cases hdot : e = [dot]
  · subst hdot
    exact h
  by_cases hparent : e = parent
  · subst hparent
    cases h with
    | nil =>
        -- nothing is above the root; a relative path keeps the step upwards
        cases rooted with
        | true => exact .nil
        | false => exact .cons .nil rfl he
    | @cons last above habove hpush hlast =>
        by_cases hup : last = parent
        · have hkeep : push rooted (last :: above) parent = parent :: last :: above := if_pos hup
          rw [hkeep]
          exact .cons (.cons habove hpush hlast) hkeep he
        · have hback : push rooted (last :: above) parent = above := if_neg hup
          rw [hback]
          exact habove
  · have hpush : push rooted kept e = e :: kept := push_of_plain hempty hdot hparent
    rw [hpush]
    exact .cons h hpush he

theorem Settled.foldl (h : Settled rooted kept) {es : List Text} (hes : ∀ e ∈ es, slash ∉ e) :
    Settled rooted (es.foldl (push rooted) kept) := by
  induction es generalizing kept with
  | nil => exact h
  | cons e es ih => exact ih (h.pushed (hes e (.head _))) fun e' he' => hes e' (.tail _ he')

/-- What was kept is kept again. -/
theorem Settled.foldl_reverse (h : Settled rooted kept) :
    kept.reverse.foldl (push rooted) [] = kept := by
  induction h with
  | nil => rfl
  | cons hkept hpush _ ih => rw [List.reverse_cons, List.foldl_append, ih, List.foldl_cons, hpush,
      List.foldl_nil]

theorem Settled.slash_notMem (h : Settled rooted kept) : ∀ e ∈ kept, slash ∉ e := by
  induction h with
  | nil => exact nofun
  | cons _ _ hslash ih => exact List.forall_mem_cons.mpr ⟨hslash, ih⟩

theorem Settled.ne_nil (h : Settled rooted kept) : ∀ e ∈ kept, e ≠ [] := by
  induction h with
  | nil => exact nofun
  | @cons e kept _ hpush _ ih =>
      refine List.forall_mem_cons.mpr ⟨?_, ih⟩
      rintro rfl
      exact List.cons_ne_self _ _ hpush.symm

/-! ### Cleaned paths -/

/-- The path with the given elements. -/
def render (rooted : Bool) (parts : List Text) : Text :=
  let body := List.intercalate [slash] parts
  if rooted then slash :: body else if parts.isEmpty then [dot] else body

/-- Whether a path starts at the root. -/
def isRooted (path : Text) : Bool := List.head? path = some slash

theorem clean_eq_render (path : Text) :
    clean path = render (isRooted path)
      ((elements path).foldl (push (isRooted path)) []).reverse := by
  rw [← resolve_eq_foldl, clean, render, isRooted]
  simp only [decide_eq_true_eq]

theorem elements_slash (path : Text) : elements (slash :: path) = [] :: elements path := by
  rw [elements, List.splitOn_cons_eq_if_modifyHead, if_pos (beq_self_eq_true slash)]
  rfl

/-- Resolving the elements of what was resolved changes nothing. -/
theorem Settled.foldl_elements (h : Settled rooted kept) :
    (elements (render rooted kept.reverse)).foldl (push rooted) [] = kept := by
  have hslash : ∀ e ∈ kept.reverse, slash ∉ e := fun e he => h.slash_notMem e (List.mem_reverse.mp he)
  by_cases hkept : kept = []
  · subst hkept
    cases rooted <;> rfl
  · have hne : kept.reverse ≠ [] := by simpa using hkept
    have hbody : elements (List.intercalate [slash] kept.reverse) = kept.reverse :=
      List.splitOn_intercalate slash hslash hne
    cases rooted with
    | true =>
        -- the slash at the front makes one more element, which is empty and dropped
        have hparts : elements (render true kept.reverse) = [] :: kept.reverse :=
          (elements_slash _).trans (congrArg _ hbody)
        rw [hparts]
        exact h.foldl_reverse
    | false =>
        have hparts : render false kept.reverse = List.intercalate [slash] kept.reverse :=
          if_neg (by simpa using hkept)
        rw [hparts, hbody]
        exact h.foldl_reverse

theorem isRooted_append {path : Text} (rest : Text) (h : path ≠ []) :
    isRooted (path ++ rest) = isRooted path := by
  rw [isRooted, isRooted, List.head?_append_of_ne_nil _ h]

/-- Elements that are not empty and have no slash make a path that starts with a byte of the first. -/
theorem exists_intercalate {first : Text} (others : List Text) (hne : first ≠ [])
    (hslash : slash ∉ first) :
    ∃ b rest, b ≠ slash ∧ List.intercalate [slash] (first :: others) = b :: rest := by
  obtain ⟨b, rest, rfl⟩ := List.exists_cons_of_ne_nil hne
  have hb : b ≠ slash := fun h => hslash (h ▸ .head _)
  cases others with
  | nil => exact ⟨b, rest, hb, List.intercalate_singleton⟩
  | cons second others => exact ⟨b, _, hb, List.intercalate_cons_cons⟩

/-- What was resolved makes a path that is not empty, and that starts at the root as before. -/
theorem Settled.render_spec (h : Settled rooted kept) :
    render rooted kept.reverse ≠ [] ∧ isRooted (render rooted kept.reverse) = rooted := by
  cases rooted with
  | true => exact ⟨List.cons_ne_nil _ _, rfl⟩
  | false =>
      cases hparts : kept.reverse with
      | nil => exact ⟨List.cons_ne_nil _ _, rfl⟩
      | cons first others =>
          have hfirst : first ∈ kept := List.mem_reverse.mp (hparts ▸ .head _)
          obtain ⟨b, rest, hb, hbody⟩ :=
            exists_intercalate others (h.ne_nil first hfirst) (h.slash_notMem first hfirst)
          have hrender : render false (first :: others) = b :: rest := hbody
          rw [hrender]
          refine ⟨List.cons_ne_nil _ _, ?_⟩
          rw [isRooted, List.head?_cons]
          simpa using hb

/-- One more element behind what was resolved. -/
theorem Settled.join_render (h : Settled rooted kept) (he : slash ∉ e) :
    join [render rooted kept.reverse, e] = render rooted (push rooted kept e).reverse := by
  obtain ⟨hne, hrooted⟩ := h.render_spec
  -- an empty element is left out by joining and by pushing alike
  by_cases hempty : e = []
  · subst hempty
    have hjoin : join [render rooted kept.reverse, []] = clean (render rooted kept.reverse) := by
      simp [join, hne]
    rw [hjoin, clean_eq_render, hrooted, h.foldl_elements]
    rfl
  · have hjoin : join [render rooted kept.reverse, e] =
        clean (render rooted kept.reverse ++ slash :: e) := by
      simp [join, hne, hempty, List.intercalate_cons_cons]
    have helements : elements (render rooted kept.reverse ++ slash :: e) =
        elements (render rooted kept.reverse) ++ [e] := by
      rw [elements, List.splitOn_append_cons_self, List.splitOn_eq_singleton he]
      rfl
    rw [hjoin, clean_eq_render, isRooted_append _ hne, hrooted, helements, List.foldl_append,
      h.foldl_elements]
    rfl

end Path

namespace FileSystem

variable {fs fs' : FileSystem} {path contents : Text}

/-! ### Following paths -/

/-- A step leads to the joined path. -/
theorem step_path {directory element : Text} {r : Text × Option Entry}
    (h : fs.step directory element = .ok r) : r.1 = Path.join [directory, element] := by
  unfold step at h
  dsimp only at h
  split at h
  · cases h
    rfl
  · split at h
    · cases h
    · cases h
      rfl

/-- A walk leads to the path that its elements resolve to. -/
theorem walk_path {rooted : Bool} {kept es : List Text} (hkept : Path.Settled rooted kept)
    (hes : ∀ e ∈ es, Path.slash ∉ e) {directory : Text}
    (h : fs.walk (Path.render rooted kept.reverse) es = .ok directory) :
    directory = Path.render rooted (es.foldl (Path.push rooted) kept).reverse := by
  induction es generalizing kept with
  | nil =>
      cases h
      rfl
  | cons e es ih =>
      obtain ⟨he, hes⟩ := List.forall_mem_cons.mp hes
      rw [walk] at h
      cases hstep : fs.step (Path.render rooted kept.reverse) e with
      | error f =>
          rw [hstep] at h
          cases h
      | ok r =>
          rw [hstep] at h
          have hpath := (step_path hstep).trans (hkept.join_render he)
          obtain ⟨path, entry⟩ := r
          obtain rfl : path = _ := hpath
          -- the walk goes on from directories only
          match entry, h with
          | some .directory, h => exact ih (hkept.pushed he) hes h

/-- The directory that a path starts from. -/
theorem start_eq_render (path : Text) :
    (if List.head? path = some Path.slash then [Path.slash] else [Path.dot]) =
      Path.render (Path.isRooted path) [].reverse := by
  by_cases hroot : List.head? path = some Path.slash
  · rw [if_pos hroot, Path.isRooted, decide_eq_true hroot]
    rfl
  · rw [if_neg hroot, Path.isRooted, decide_eq_false hroot]
    rfl

/-- What is reached along a path is under the cleaned path. -/
theorem follow_path {r : Text × Option Entry} (h : fs.follow path = .ok r) :
    r.1 = Path.clean path := by
  unfold follow at h
  cases hlimit : unusable? pathLimit path with
  | some f =>
      rw [hlimit] at h
      cases h
  | none =>
      rw [hlimit] at h
      by_cases hempty : path.isEmpty = true
      · rw [if_pos hempty] at h
        cases h
      · rw [if_neg hempty] at h
        dsimp only at h
        obtain hnil | ⟨upper, last, hparts⟩ := List.eq_nil_or_concat (Path.elements path)
        · exact absurd hnil (List.splitOn_ne_nil _ _)
        rw [List.concat_eq_append] at hparts
        have hslash : ∀ e ∈ upper ++ [last], Path.slash ∉ e := hparts ▸ Path.slash_notMem_elements
        have hupper : ∀ e ∈ upper, Path.slash ∉ e :=
          fun e he => hslash e (List.mem_append_left _ he)
        rw [start_eq_render, hparts, List.dropLast_concat, List.getLastD_concat] at h
        -- the walk leads to the directory of the last element, and the step to the element
        cases hwalk : fs.walk (Path.render (Path.isRooted path) [].reverse) upper with
        | error f =>
            rw [hwalk] at h
            cases h
        | ok directory =>
            rw [hwalk] at h
            have hsettled : Path.Settled (Path.isRooted path)
                (upper.foldl (Path.push (Path.isRooted path)) []) := Path.Settled.nil.foldl hupper
            have hlast : Path.slash ∉ last := hslash last (by simp)
            rw [step_path h, walk_path .nil hupper hwalk, hsettled.join_render hlast,
              Path.clean_eq_render, hparts, List.foldl_append]
            rfl

/-! ### Contents -/

/-- What the file under a path holds. -/
def contents? (fs : FileSystem) (path : Text) : Option Text := fs.files.lookup (Path.clean path)

/-- What is found when the entries under a path were replaced. -/
theorem lookup_replaced {q : Text} (files : List (Text × Text)) :
    (files.map fun f => if f.1 = path then (path, contents) else f).lookup q =
      if path = q then (files.lookup q).map fun _ => contents else files.lookup q := by
  induction files with
  | nil => split <;> rfl
  | cons f files ih =>
      obtain ⟨key, old⟩ := f
      rw [List.map_cons, List.lookup_cons]
      by_cases hkey : key = path
      · subst hkey
        by_cases hq : key = q
        · subst hq
          simp
        · have hne : (q == key) = false := beq_false_of_ne (Ne.symm hq)
          simp only [if_neg hq] at ih ⊢
          simp [hne, List.lookup_cons, ih]
      · by_cases hq : q = key
        · subst hq
          simp [hkey, Ne.symm hkey]
        · have hne : (q == key) = false := beq_false_of_ne hq
          simp [hkey, hne, List.lookup_cons, ih]

/-- What is found when a file was put. -/
theorem lookup_put {q : Text} :
    (fs.put path contents).files.lookup q =
      if path = q then some contents else fs.files.lookup q := by
  unfold put
  split
  · -- a file that is there is replaced in its place
    next hsome =>
      rw [lookup_replaced]
      split
      · next hpath =>
          obtain ⟨old, hold⟩ := Option.isSome_iff_exists.mp hsome
          rw [← hpath, hold]
          rfl
      · rfl
  · -- a new one goes to the end, behind files with other paths
    next hnone =>
      have hnone : fs.files.lookup path = none := Option.not_isSome_iff_eq_none.mp hnone
      rw [List.lookup_append]
      split
      · next hpath =>
          rw [← hpath, hnone]
          simp
      · next hpath =>
          have hne : (q == path) = false := beq_false_of_ne (Ne.symm hpath)
          simp [List.lookup_cons, hne]

/-- Making directories leaves all files as they are. -/
theorem files_makeDirectories (h : fs.makeDirectories path = .ok fs') : fs'.files = fs.files := by
  unfold makeDirectories at h
  split at h
  · cases h
    rfl
  · cases h
  · dsimp only at h
    split at h
    · cases h
    · cases h
    · cases h
      rfl

/-- A file that is written is put under the cleaned path. -/
theorem write_eq_put (h : fs.write path contents = .ok fs') :
    fs' = fs.put (Path.clean path) contents := by
  unfold write at h
  dsimp only at h
  split at h
  · cases h
  · cases h
  · next target entry _ hfollow =>
      split at h
      · next hnamed =>
          cases h
          rw [hnamed, ite_self] at hfollow
          rw [show target = _ from follow_path hfollow]
      · cases h

end FileSystem

end Lossless
