import TexturePack.Bytes

/-! The records at the end of a zip archive, which tell where its directory is. Bytes put
in front of an archive move everything by the same amount. -/
namespace TexturePack.Files

/-- The directory of an archive: where it is, how many entries it has, and how far the
archive lies behind the place that its offsets count from. -/
structure DirectoryPlace where
  start : Nat
  entries : Nat
  shift : Nat
  deriving DecidableEq

/-- All places of a mark in some bytes that begin at an offset, last to first, before those
that are known already. -/
def marks (mark : Bytes) (offset : Nat) (known : List Nat) : Bytes → List Nat
  | [] => known
  | b :: bs =>
      marks mark (offset + 1) (if mark.isPrefixOf (b :: bs) then offset :: known else known) bs

/-- The places of a mark from `first` up to `last`, in order. -/
def marksBetween (data mark : Bytes) (first last : Nat) : List Nat :=
  (marks mark first [] (data.slice first (last - first))).reverse

structure EndRecord where
  position : Nat
  disk : Nat
  directoryDisk : Nat
  /-- Entries on this disk. -/
  here : Nat
  entries : Nat
  directoryOffset : Nat
  deriving DecidableEq

namespace EndRecord

def mark : Bytes := [0x50, 0x4B, 0x05, 0x06]

/-- The record at an offset. Its comment may not pass the end of the file. -/
def parse? (data : Bytes) (position : Nat) : Option EndRecord :=
  if data.length < position + 22 ∨ data.length < position + 22 + data.word16 (position + 20) then
    none
  else some ⟨position, data.word16 (position + 4), data.word16 (position + 6),
    data.word16 (position + 8), data.word16 (position + 10), data.word32 (position + 16)⟩

/-- The directory begins at the first mark of an entry at or behind its stated offset. -/
def place? (data entryMark : Bytes) (r : EndRecord) : Option DirectoryPlace := do
  let start ←
    if r.entries = 0 then some (max r.position r.directoryOffset)
    else if r.position ≤ r.directoryOffset then none
    else (marksBetween data entryMark r.directoryOffset r.position).head?
  if r.disk ≠ r.directoryDisk then none
  return ⟨start, r.here, start - r.directoryOffset⟩

/-- Numbers that do not fit are looked for in a wide record. -/
def mayBeWide (r : EndRecord) : Bool := r.entries = 0xFFFF || r.directoryOffset = 0xFFFFFFFF

end EndRecord

/-- Tells where a wide record at the end is. It stands in front of the narrow one. -/
structure Locator where
  position : Nat
  directoryDisk : Nat
  recordOffset : Nat
  disks : Nat
  deriving DecidableEq

namespace Locator

def size : Nat := 20

def mark : Bytes := [0x50, 0x4B, 0x06, 0x07]

def before? (data : Bytes) (r : EndRecord) : Option Locator :=
  let position := r.position - size
  if r.position < size ∨ data.slice position 4 ≠ mark then none
  else some ⟨position, data.word32 (position + 4), data.word64 (position + 8),
    data.word32 (position + 16)⟩

end Locator

/-- A record at the end with wide numbers. -/
structure WideRecord where
  position : Nat
  /-- The bytes behind the field of this length. -/
  length : Nat
  writtenBy : Nat
  neededFor : Nat
  disk : Nat
  directoryDisk : Nat
  here : Nat
  entries : Nat
  directoryOffset : Nat
  deriving DecidableEq

namespace WideRecord

def mark : Bytes := [0x50, 0x4B, 0x06, 0x06]

def parse? (data : Bytes) (position : Nat) : Option WideRecord :=
  if data.length < position + 56 then none
  else some
    { position := position
      length := data.word64 (position + 4)
      writtenBy := data.word16 (position + 12)
      neededFor := data.word16 (position + 14)
      disk := data.word32 (position + 16)
      directoryDisk := data.word32 (position + 20)
      here := data.word64 (position + 24)
      entries := data.word64 (position + 32)
      directoryOffset := data.word64 (position + 48) }

/-- A record fills the space up to its locator, and behind the stated offset of the
directory there is room for all entries in front of it. -/
def agrees (w : WideRecord) (l : Locator) : Bool :=
  44 ≤ w.length && w.position + w.length + 12 = l.position &&
    w.directoryDisk = l.directoryDisk && w.directoryOffset + 46 * w.entries ≤ w.position

/-- What may be read by this version and lies on one disk. -/
def supported (w : WideRecord) : Bool :=
  w.here ≤ w.entries && w.neededFor ≤ w.writtenBy && w.disk = w.directoryDisk

/-- The first record at or behind its stated offset that agrees with its locator. -/
def find? (data : Bytes) (l : Locator) : Option WideRecord :=
  (marksBetween data mark l.recordOffset l.position).findSome? fun position =>
    (parse? data position).filter fun w => w.agrees l

def place? (data : Bytes) (l : Locator) : Option DirectoryPlace := do
  if l.position ≤ l.recordOffset ∨ 1 < l.disks then none
  let w ← find? data l
  if !w.supported then none
  let shift := w.position - l.recordOffset
  return ⟨w.directoryOffset + shift, w.entries, shift⟩

end WideRecord

/-- The directory that the record at an offset leads to. -/
def directoryPlace? (data entryMark : Bytes) (position : Nat) : Option DirectoryPlace := do
  let r ← EndRecord.parse? data position
  match if r.mayBeWide then Locator.before? data r else none with
  | some l => WideRecord.place? data l
  | none => r.place? data entryMark

end TexturePack.Files
