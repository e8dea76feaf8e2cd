import Lossless.Lz4.Checksum

/-!
# Lz4 — blocks

A block is a list of sequences: literal bytes, then a copy of bytes that were written before.  A
copy may overlap what it writes.  The last sequence may have literals only, and then it announces
no copy.
-/

namespace Lossless.Lz4

/-- A length that started with the greatest nibble: bytes are added until one is not 255. -/
def longLength? : (n : Nat) → Text → Option (Nat × Text)
  | _, [] => none
  | n, b :: rest => if b = 255 then longLength? (n + 255) rest else some (n + b.toNat, rest)

/-- A length from its nibble. -/
def length? (nibble : Nat) (rest : Text) : Option (Nat × Text) :=
  if nibble = 15 then longLength? 15 rest else some (nibble, rest)

/-- Appends `n` bytes, each the one `distance` before the end at that moment. -/
def copy (out : Array UInt8) (distance : Nat) : (n : Nat) → Array UInt8
  | 0 => out
  | n + 1 => copy (out.push (out.getD (out.size - distance) 0)) distance n

/-- Appends the bytes of a block to `out`. Copies may reach back to `start`, and no byte is written
beyond `limit`. Every sequence takes at least one byte. -/
def sequences? (start limit : Nat) : (fuel : Nat) → (out : Array UInt8) → Text →
    Option (Array UInt8)
  | 0, out, data => if data.isEmpty then some out else none
  | _, out, [] => some out
  | fuel + 1, out, token :: rest => do
    let (literals, rest) ← length? (token.toNat / 16) rest
    let text := rest.take literals
    if text.length < literals || limit < out.size + literals then none
    let out := out ++ text.toArray
    match rest.drop literals with
    | [] => if token.toNat % 16 = 0 then some out else none
    | lo :: hi :: rest =>
      let distance := lo.toNat + 256 * hi.toNat
      let (n, rest) ← length? (token.toNat % 16) rest
      if distance = 0 || out.size - start < distance || limit < out.size + n + 4 then none
      sequences? start limit fuel (copy out distance (n + 4)) rest
    | _ => none

/-- Appends the bytes of a block to `out`, when they are at most `limit`. -/
def block? (start limit : Nat) (out : Array UInt8) (data : Text) : Option (Array UInt8) :=
  sequences? start (out.size + limit) data.length out data

end Lossless.Lz4
