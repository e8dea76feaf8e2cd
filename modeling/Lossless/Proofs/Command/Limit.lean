import Lossless.Command.Input
import Mathlib.Data.UInt

/-!
# Command — the limit of inputs

An input is read up to a bound, and what was read tells whether there was too much of it.  The bound is
one more than the limit, in a type with a sign: a limit that has no room for one more is lowered first,
so that nothing wraps (`readBound_toInt`).  What is read of a stream is a front part of it, and no more
than one byte over the limit is kept (`Stream.read_prefix`).

That one byte decides as the whole stream would (`lt_length_take_iff`), and what is within the limit is
read in full.  **The limit is exact** (`size_limit_exact`): a stream without faults is too large exactly
when it is longer than the limit, whatever the limit is.
-/

namespace Lossless.Input

variable {limit : UInt64} {s : Stream} {path : Text}

/-! ### The bound -/

/-- A number with a sign bit to spare is the same with a sign. -/
theorem toInt_toInt64 {n : UInt64} (h : n.toNat < 2 ^ 63) : n.toInt64.toInt = n.toNat := by
  have hbits : n.toBitVec.toNat = n.toNat := rfl
  show n.toBitVec.toInt = _
  exact BitVec.toInt_eq_toNat_of_lt (by omega)

/-- **The bound does not wrap.** -/
theorem readBound_toInt (limit : UInt64) :
    (readBound limit).toInt = (min limit.toNat (2 ^ 63 - 2) + 1 : Nat) := by
  have hmin : (min limit greatestLimit).toNat = min limit.toNat (2 ^ 63 - 2) :=
    UInt64.toNat_min _ _
  have hone : (1 : Int64).toInt = 1 := rfl
  rw [readBound, Int64.toInt_add, toInt_toInt64 (by omega), hmin, hone,
    Int.bmod_eq_of_le (by omega) (by omega)]
  rfl

theorem readBound_toNat (limit : UInt64) :
    (readBound limit).toInt.toNat = min limit.toNat (2 ^ 63 - 2) + 1 := by
  rw [readBound_toInt, Int.toNat_natCast]

/-! ### What is read -/

/-- What is read of a stream is a front part of it, with one byte over the limit at most. -/
theorem Stream.read_prefix {kept : Text} (h : s.read (readBound limit) = .ok kept) :
    kept <+: s.bytes ∧ kept.length ≤ limit.toNat + 1 := by
  have hkept : kept = s.bytes.take (readBound limit).toInt.toNat := by
    unfold Stream.read at h
    dsimp only at h
    split at h
    · cases h; rfl
    · split at h
      · cases h; rfl
      · cases h
  rw [hkept, readBound_toNat]
  refine ⟨List.take_prefix _ _, ?_⟩
  rw [List.length_take]
  omega

theorem Stream.read_of_sound (h : s.fault = none) :
    s.read (readBound limit) = .ok (s.bytes.take (min limit.toNat (2 ^ 63 - 2) + 1)) := by
  rw [Stream.read, h, readBound_toNat]

/-! ### What it tells -/

/-- The byte over the limit tells that there is one. -/
theorem lt_length_take_iff {t : Text} (ht : t.length < 2 ^ 63 - 1) :
    limit.toNat < (t.take (min limit.toNat (2 ^ 63 - 2) + 1)).length ↔ limit.toNat < t.length := by
  rw [List.length_take]
  omega

/-- What is within the limit is read in full. -/
theorem take_of_le {t : Text} (ht : t.length < 2 ^ 63 - 1) (h : t.length ≤ limit.toNat) :
    t.take (min limit.toNat (2 ^ 63 - 2) + 1) = t := List.take_of_length_le (by omega)

theorem isBinary_iff {t : Text} : Text.isBinary t = true ↔ 0 ∈ t.take 8000 :=
  List.contains_iff_mem

theorem readStream_eq (hfault : s.fault = none) (hlen : s.bytes.length < 2 ^ 63 - 1) :
    readStream s path limit =
      if limit.toNat < s.bytes.length then .error (.tooLarge path limit)
      else if 0 ∈ s.bytes.take 8000 then .error (.binary path)
      else .ok s.bytes := by
  rw [readStream, Stream.read_of_sound hfault]
  dsimp only
  simp only [lt_length_take_iff hlen]
  split
  · rfl
  · next hwithin =>
      rw [take_of_le hlen (Nat.not_lt.mp hwithin)]
      simp only [isBinary_iff]

/-- For every limit. The bound that is read up to is one more than the limit, as far as there is one
more with a sign bit to spare, and above zero. What is kept of a stream is a front part of it, and one
byte more than the limit at most. What opens and reads without a fault is too large if and only if it
is longer than the limit; otherwise it is binary if and only if a zero byte is among its first 8000;
otherwise it is given as it is. -/
theorem size_limit_exact (limit : UInt64) :
    ((readBound limit).toInt = (min limit.toNat (2 ^ 63 - 2) + 1 : Nat) ∧
      0 < (readBound limit).toInt) ∧
    (∀ (s : Stream) (kept : Text), s.read (readBound limit) = .ok kept →
      kept <+: s.bytes ∧ kept.length ≤ limit.toNat + 1) ∧
    ∀ (fs : FileSystem) (stdin path : Text) (s : Stream), openPath fs stdin path = .ok s →
      s.fault = none → s.bytes.length < 2 ^ 63 - 1 →
      Input.read fs stdin path limit =
        if limit.toNat < s.bytes.length then .error (.tooLarge path limit)
        else if 0 ∈ s.bytes.take 8000 then .error (.binary path)
        else .ok s.bytes := by
  refine ⟨⟨readBound_toInt limit, ?_⟩, fun s kept => Stream.read_prefix, ?_⟩
  · rw [readBound_toInt]
    exact Int.natCast_pos.mpr (Nat.succ_pos _)
  · intro fs stdin path s hopen hfault hlen
    rw [Input.read, hopen]
    exact readStream_eq hfault hlen

/-- Two bytes on standard input are within a limit of two, and three are not. -/
theorem size_limit_exact_stdin :
    (openPath {} "\x7b\x7d" stdinPath = .ok { bytes := "\x7b\x7d" } ∧
      openPath {} "\x7b\x7d\n" stdinPath = .ok { bytes := "\x7b\x7d\n" }) ∧
    Input.read {} "\x7b\x7d" stdinPath 2 = .ok "\x7b\x7d" ∧
    Input.read {} "\x7b\x7d\n" stdinPath 2 = .error (.tooLarge stdinPath 2) := by
  have hexact : openPath {} "\x7b\x7d" stdinPath = .ok { bytes := "\x7b\x7d" } := if_pos rfl
  have hover : openPath {} "\x7b\x7d\n" stdinPath = .ok { bytes := "\x7b\x7d\n" } := if_pos rfl
  refine ⟨⟨hexact, hover⟩, ?_, ?_⟩
  · exact (size_limit_exact 2).2.2 {} _ _ _ hexact rfl (by decide)
  · exact (size_limit_exact 2).2.2 {} _ _ _ hover rfl (by decide)

end Lossless.Input
