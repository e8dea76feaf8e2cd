import Lossless.Lz4.Block

/-!
# Lz4 — frames

A frame is a magic number, a descriptor, blocks up to an end mark, and a checksum.  A frame of the
older form has neither descriptor nor checksum.  Data may end before any part of a frame, and then
the frame ends there; data that ends inside a part is faulty.  Reading gives the bytes of all blocks
before the first fault, and the fault, if there is one.
-/

namespace Lossless.Lz4

/-- What is wrong with a frame. -/
inductive Fault where
  | truncated
  | magic
  | blockSize
  | header
  | block
  | blockChecksum
  | contentChecksum
  deriving DecidableEq, Repr

/-- The text of a fault. -/
def Fault.message : Fault → String
  | .truncated => "unexpected EOF"
  | .magic => "lz4: bad magic number"
  | .blockSize => "lz4: invalid block size"
  | .header => "lz4: invalid header checksum"
  | .block => "lz4: invalid source or destination buffer too short"
  | .blockChecksum => "lz4: invalid block checksum"
  | .contentChecksum => "lz4: invalid frame checksum"

/-- Why a part of a frame is not read. -/
inductive Stop where
  /-- The parts of its kind are over; the rest follows. -/
  | ended (rest : Text)
  | faulty (f : Fault)
  deriving DecidableEq, Repr

/-- What the rest of a frame is like. -/
structure Descriptor where
  /-- Whether the frame is of the older form. -/
  older : Bool
  independent : Bool
  blockChecksums : Bool
  contentChecksum : Bool
  /-- The greatest number of bytes of a block. -/
  blockLimit : Nat

/-- The magic number of a frame. -/
def magic : UInt32 := 0x184d2204

/-- The magic number of a frame of the older form. -/
def olderMagic : UInt32 := 0x184c2102

/-- Whether a frame with this magic number is skipped. -/
def isSkipped (magic : UInt32) : Bool := magic >>> 8 = 0x184d2a

/-- The first `n` bytes and the rest. -/
def takeBytes (n : Nat) (data : Text) : Except Stop (Text × Text) :=
  let bytes := data.take n
  if bytes.length = n then .ok (bytes, data.drop n)
  else .error (if data.isEmpty then .ended [] else .faulty .truncated)

/-- The word at the front of bytes, and the rest. -/
def takeWord (data : Text) : Except Stop (UInt32 × Text) :=
  match data with
  | a :: b :: c :: d :: rest => .ok (word a b c d, rest)
  | [] => .error (.ended [])
  | _ => .error (.faulty .truncated)

/-- The greatest number of bytes of a block for its code. -/
def blockLimit? (code : Nat) : Option Nat :=
  match code with
  | 4 => some (64 * 1024)
  | 5 => some (256 * 1024)
  | 6 => some (1024 * 1024)
  | 7 => some (4 * 1024 * 1024)
  | _ => none

/-- Bit `i` of a byte. -/
def bit (b : UInt8) (i : Nat) : Bool := b.toNat.testBit i

/-- The descriptor of a frame of the older form. -/
def olderDescriptor : Descriptor := ⟨true, false, false, false, 8 * 1024 * 1024⟩

/-- The descriptor at the front of bytes: two bytes of flags, an optional content size and a byte of
their checksum. -/
def descriptor (data : Text) : Except Stop (Descriptor × Text) := do
  let (head, rest) ← takeBytes 3 data
  let flags := head.getD 0 0
  let (size, rest) ← if bit flags 3 then takeBytes 8 rest else .ok ([], rest)
  let fields := (head ++ size).dropLast
  if ((checksum fields >>> 8) % 256).toNat ≠ ((head ++ size).getLastD 0).toNat then
    throw (.faulty .header)
  match blockLimit? ((head.getD 1 0).toNat / 16 % 8) with
  | none => throw (.faulty .blockSize)
  | some limit => return (⟨false, bit flags 5, bit flags 4, bit flags 2, limit⟩, rest)

/-- The word that starts a block after `total` bytes of contents, unless it is an end mark. In the
older form the magic number may come again, and the number of bytes so far is the end mark. -/
def blockWord (d : Descriptor) (total : UInt32) : Text → Except Stop (UInt32 × Text)
  | a :: b :: c :: e :: rest =>
    let w := word a b c e
    if d.older && w = olderMagic then blockWord d total rest
    else if w = (if d.older then total else 0) then .error (.ended rest)
    else .ok (w, rest)
  | data => takeWord data

/-- The contents with those of the block at the front of bytes, and the rest. -/
def nextBlock (d : Descriptor) (out : Array UInt8) (data : Text) :
    Except Stop (Array UInt8 × Text) := do
  let (size, rest) ← blockWord d (UInt32.ofNat out.size) data
  let n := size.toNat % Nat.pow 2 31
  if d.blockLimit < n then throw (.faulty .blockSize)
  let (body, rest) ← takeBytes n rest
  let (sum, rest) ← if d.blockChecksums then takeWord rest else .ok (0, rest)
  let start := if d.independent then out.size else 0
  let new ← if Nat.pow 2 31 ≤ size.toNat then .ok (out ++ body.toArray)
    else match block? start d.blockLimit out body with
      | some new => .ok new
      | none => .error (.faulty .block)
  if d.blockChecksums && sum ≠ checksum body then throw (.faulty .blockChecksum)
  return (new, rest)

/-- The bytes read so far and the fault that ended the reading. -/
structure Contents where
  bytes : Array UInt8
  fault : Option Fault := none

/-- The end of a frame: the checksum of its contents. -/
def finish (d : Descriptor) (out : Array UInt8) (data : Text) : Contents :=
  if d.contentChecksum then
    match takeWord data with
    | .error (.ended _) => ⟨out, none⟩
    | .error (.faulty f) => ⟨out, some f⟩
    | .ok (sum, _) =>
      if sum = checksum out.toList then ⟨out, none⟩ else ⟨out, some .contentChecksum⟩
  else ⟨out, none⟩

/-- The blocks of a frame. Each takes at least the four bytes of its size. -/
def blocks (d : Descriptor) : (fuel : Nat) → (out : Array UInt8) → Text → Contents
  | 0, out, _ => ⟨out, some .truncated⟩
  | fuel + 1, out, data =>
    match nextBlock d out data with
    | .error (.ended rest) => finish d out rest
    | .error (.faulty f) => ⟨out, some f⟩
    | .ok (out, rest) => blocks d fuel out rest

/-- The descriptor of the first frame that is not skipped, and what follows it. A skipped frame
tells its size and takes at least eight bytes. -/
def header : (fuel : Nat) → Text → Except Stop (Descriptor × Text)
  | 0, _ => .error (.ended [])
  | fuel + 1, data => do
    let (m, rest) ← takeWord data
    if m = magic then descriptor rest
    else if m = olderMagic then return (olderDescriptor, rest)
    else if isSkipped m then
      let (n, rest) ← takeWord rest
      if rest.length < n.toNat then throw (.ended []) else header fuel (rest.drop n.toNat)
    else throw (.faulty .magic)

/-- The contents of the first frame of compressed data. -/
def read (data : Text) : Contents :=
  match header (data.length + 1) data with
  | .error (.ended _) => ⟨#[], none⟩
  | .error (.faulty f) => ⟨#[], some f⟩
  | .ok (d, rest) => blocks d (rest.length + 1) #[] rest

end Lossless.Lz4
