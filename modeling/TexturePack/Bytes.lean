/-! Byte strings, the numbers of fixed width stored in them, and checksums over them: the cyclic
redundancy check of 32 bits that archives and images store, and the pair of sums that ends a zlib
stream. -/
namespace TexturePack

abbrev Bytes := List UInt8

namespace Bytes

/-- The number whose least significant byte comes first. -/
def toNatLE : Bytes → Nat
  | [] => 0
  | b :: bs => b.toNat + 256 * toNatLE bs

/-- The number whose most significant byte comes first. -/
def toNatBE (bs : Bytes) : Nat := toNatLE bs.reverse

/-- The `len` bytes from `start` on, fewer where the string ends before. -/
def slice (bs : Bytes) (start len : Nat) : Bytes := (bs.drop start).take len

/-- The `len` bytes from `start` on, if all of them are there. -/
def range? (bs : Bytes) (start len : Nat) : Option Bytes :=
  if start + len ≤ bs.length then some (bs.slice start len) else none

def word16 (bs : Bytes) (start : Nat) : Nat := toNatLE (bs.slice start 2)

def word32 (bs : Bytes) (start : Nat) : Nat := toNatLE (bs.slice start 4)

def word64 (bs : Bytes) (start : Nat) : Nat := toNatLE (bs.slice start 8)

def zeros (n : Nat) : Bytes := List.replicate n 0

/-- The first `count` rows of `pitch` bytes. The last row is shorter where the
bytes run out, and there are none after it. -/
def rows (pitch : Nat) : Nat → Bytes → List Bytes
  | 0, _ => []
  | _ + 1, [] => []
  | count + 1, bs => bs.take pitch :: rows pitch count (bs.drop pitch)

theorem length_slice (bs : Bytes) (start len : Nat) :
    (bs.slice start len).length = min len (bs.length - start) := by
  simp [slice]

theorem range?_eq_some {bs out : Bytes} {start len : Nat} :
    bs.range? start len = some out ↔ start + len ≤ bs.length ∧ bs.slice start len = out := by
  unfold range?
  split <;> grind

end Bytes

/-- Sizes and offsets are held in words of 64 bits. -/
def wordLimit : Nat := 0x10000000000000000

/-- Dimensions and counts of a file are held in words of 32 bits. -/
def halfWordLimit : Nat := 0x100000000

/-- No buffer is longer than half the address space. -/
def bufferLimit : Nat := 0x8000000000000000

namespace Checksum

/-- One division step by the reflected polynomial. -/
def crcShift (c : UInt32) : UInt32 := if c &&& 1 = 1 then (c >>> 1) ^^^ 0xEDB88320 else c >>> 1

def crcByte (c : UInt32) (b : UInt8) : UInt32 :=
  (List.range 8).foldl (fun c _ => crcShift c) (c ^^^ b.toUInt32)

def crc32 (bs : Bytes) : Nat := ((bs.foldl crcByte 0xFFFFFFFF) ^^^ 0xFFFFFFFF).toNat

/-- The largest prime below 2^16. -/
def adlerModulus : Nat := 65521

def adler32 (bs : Bytes) : Nat :=
  let (a, b) := bs.foldl (fun (a, b) x =>
    let a := (a + x.toNat) % adlerModulus
    (a, (b + a) % adlerModulus)) (1, 0)
  65536 * b + a

end Checksum

end TexturePack
