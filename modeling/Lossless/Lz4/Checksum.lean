import Lossless.Text.Basic

/-!
# Lz4 — checksums

The 32-bit checksum of the frame format: four lanes over stripes of sixteen bytes, then the rest,
then a final mix.
-/

namespace Lossless.Lz4

/-- The word of four bytes, the first of them the lowest. -/
def word (a b c d : UInt8) : UInt32 :=
  a.toUInt32 + (b.toUInt32 <<< 8) + (c.toUInt32 <<< 16) + (d.toUInt32 <<< 24)

/-- The word turned left by `n` bits. -/
def turn (x : UInt32) (n : UInt32) : UInt32 := (x <<< n) ||| (x >>> (32 - n))

def prime1 : UInt32 := 2654435761
def prime2 : UInt32 := 2246822519
def prime3 : UInt32 := 3266489917
def prime4 : UInt32 := 668265263
def prime5 : UInt32 := 374761393

/-- One round of a lane. -/
def lane (acc input : UInt32) : UInt32 := turn (acc + input * prime2) 13 * prime1

/-- The four lanes after all whole stripes, and the bytes that are left. -/
def stripes (a b c d : UInt32) : Text → (UInt32 × UInt32 × UInt32 × UInt32) × Text
  | a0 :: a1 :: a2 :: a3 :: b0 :: b1 :: b2 :: b3
      :: c0 :: c1 :: c2 :: c3 :: d0 :: d1 :: d2 :: d3 :: rest =>
    stripes (lane a (word a0 a1 a2 a3)) (lane b (word b0 b1 b2 b3))
      (lane c (word c0 c1 c2 c3)) (lane d (word d0 d1 d2 d3)) rest
  | rest => ((a, b, c, d), rest)

/-- Mixes in the bytes after the stripes: words first, then single bytes. -/
def finishRest (acc : UInt32) : Text → UInt32
  | a :: b :: c :: d :: rest => finishRest (turn (acc + word a b c d * prime3) 17 * prime4) rest
  | a :: rest => finishRest (turn (acc + a.toUInt32 * prime5) 11 * prime1) rest
  | [] => acc

/-- The final mix. -/
def avalanche (x : UInt32) : UInt32 :=
  let x := (x ^^^ (x >>> 15)) * prime2
  let x := (x ^^^ (x >>> 13)) * prime3
  x ^^^ (x >>> 16)

/-- The checksum of bytes. -/
def checksum (t : Text) : UInt32 :=
  let ((a, b, c, d), rest) := stripes (prime1 + prime2) prime2 0 (0 - prime1) t
  let acc := if t.length < 16 then prime5 else turn a 1 + turn b 7 + turn c 12 + turn d 18
  avalanche (finishRest (acc + UInt32.ofNat t.length) rest)

end Lossless.Lz4
