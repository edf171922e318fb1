import TexturePack.Bytes
import TexturePack.Text.Encoding

/-! Entries of the directory of a zip archive. Behind its name an entry has extra fields,
some of which replace what stands before them. -/
namespace TexturePack.Files

structure ArchiveEntry where
  /-- The name as it is stored. -/
  nameBytes : Bytes
  name : String
  comment : String
  encrypted : Bool
  /-- Encrypted by a block cipher, as a field of the entry says. -/
  ciphered : Bool
  method : Nat
  checksum : Nat
  compressedSize : Nat
  size : Nat
  /-- Where the header in front of the bytes of the entry is. -/
  start : Nat
  deriving DecidableEq

namespace ArchiveEntry

/-- An entry stands for a folder if its name ends with a separator. -/
def isFolder (e : ArchiveEntry) : Bool :=
  match e.name.toList.getLast? with
  | some c => c = '/' || c = '\\'
  | none => false

/-- Entries are stored as they are or compressed by one method. -/
def readable (e : ArchiveEntry) : Bool :=
  !e.encrypted && !e.ciphered && (e.method = 0 || e.method = 8)

end ArchiveEntry

/-- What an extra field does. Behind one that breaks off no other is looked for. -/
inductive FieldResult where
  | taken (e : ArchiveEntry)
  | brokenOff (e : ArchiveEntry)
  | refused

namespace FieldResult

def andThen (r : FieldResult) (f : ArchiveEntry → FieldResult) : FieldResult :=
  match r with
  | taken e => f e
  | brokenOff e => brokenOff e
  | refused => refused

end FieldResult

namespace ArchiveEntry

/-- A size or an offset with this value may stand for one of 64 bits. -/
def wideMark : Nat := 0xFFFFFFFF

/-- The numbers that a field of wide numbers may replace, in its order. -/
structure WideSlot where
  value : ArchiveEntry → Nat
  replace : ArchiveEntry → Nat → ArchiveEntry

def wideSlots : List WideSlot :=
  [⟨size, fun e n => { e with size := n }⟩,
    ⟨compressedSize, fun e n => { e with compressedSize := n }⟩,
    ⟨start, fun e n => { e with start := n }⟩]

/-- A field with room for all numbers replaces all of them, a shorter one those that are
marked. -/
def takeWide (e : ArchiveEntry) (length used : Nat) (bs : Bytes) : List WideSlot → FieldResult
  | [] =>
      if length < used then .refused
      else if bs.length < length then .brokenOff e else .taken e
  | s :: ss =>
      if length < 24 ∧ s.value e ≠ wideMark then e.takeWide length used bs ss
      else if bs.length < used + 8 then .brokenOff e
      else (s.replace e (bs.word64 used)).takeWide length (used + 8) bs ss

/-- Three times behind a tag. -/
def takeFileTimes (e : ArchiveEntry) (length : Nat) (bs : Bytes) : FieldResult :=
  if length ≠ 32 ∨ (6 ≤ bs.length ∧ bs.word16 4 ≠ 1) ∨ (8 ≤ bs.length ∧ bs.word16 6 ≠ 24) then
    .refused
  else if bs.length < length then .brokenOff e else .taken e

/-- Up to three times. The lowest bits of the first byte say which of them are there; a
field of one time may leave that open. -/
def takeTimes (e : ArchiveEntry) (length : Nat) (bs : Bytes) : FieldResult :=
  match bs with
  | [] => .brokenOff e
  | flags :: _ =>
      let told := (List.range 3).countP fun i => flags.toNat.testBit i
      if 8 ≤ flags.toNat ∨ (length ≠ 5 ∧ length ≠ 1 + 4 * told) then .refused
      else if bs.length < length then .brokenOff e else .taken e

/-- A text in UTF-8 that replaces another, of which it has the checksum. -/
def takeText (e : ArchiveEntry) (length : Nat) (bs replaced : Bytes)
    (replace : Bytes → String → ArchiveEntry) : FieldResult :=
  if bs.length < 5 then .brokenOff e
  else if length < 5 then .refused
  else if bs.length < length then .brokenOff e
  else if bs.word32 1 ≠ Checksum.crc32 replaced then .refused
  else
    let content := bs.slice 5 (length - 5)
    match String.fromUTF8? ⟨content.toArray⟩ with
    | some text => .taken (replace content text)
    | none => .refused

def takeName (e : ArchiveEntry) (length : Nat) (bs : Bytes) : FieldResult :=
  e.takeText length bs e.nameBytes fun content text => { e with nameBytes := content, name := text }

def takeComment (e : ArchiveEntry) (length : Nat) (bs : Bytes) : FieldResult :=
  e.takeText length bs e.comment.toUTF8.toList fun _ text => { e with comment := text }

/-- The method of ciphered entries. Their field tells the real one. -/
def cipherMethod : Nat := 99

def takeCipher (e : ArchiveEntry) (length : Nat) (bs : Bytes) : FieldResult :=
  if length ≠ 7 then .refused
  else if bs.length < 7 then .brokenOff e
  else if bs.word16 2 ≠ 0x4541 ∨ bs.word16 0 ∉ [1, 2] ∨ Bytes.toNatLE (bs.slice 4 1) ∉ [1, 2, 3]
  then .refused
  else .taken { e with ciphered := true, method := bs.word16 5 }

/-- Takes in the field of a kind whose stated length may be more than there is. -/
def takeField (e : ArchiveEntry) (kind length : Nat) (bs : Bytes) : FieldResult :=
  match kind with
  | 0x0001 => e.takeWide length 0 bs wideSlots
  | 0x000A => e.takeFileTimes length bs
  | 0x9901 => e.takeCipher length bs
  | 0x5455 => e.takeTimes length bs
  | 0x6375 => e.takeComment length bs
  | 0x7075 => e.takeName length bs
  | _ => if bs.length < length then .brokenOff e else .taken e

/-- Takes in fields one after the other. Each has at least four bytes. -/
def takeFields (e : ArchiveEntry) : Nat → Bytes → FieldResult
  | 0, _ => .taken e
  | fuel + 1, bs =>
      if bs.length < 4 then .brokenOff e
      else
        let length := bs.word16 2
        (e.takeField (bs.word16 0) length (bs.drop 4)).andThen fun e =>
          e.takeFields fuel (bs.drop (4 + length))

/-- The entry with its extra fields. One of the cipher's method needs the cipher's field. -/
def withFields? (e : ArchiveEntry) (fields : Bytes) : Option ArchiveEntry :=
  match e.takeFields fields.length fields with
  | .refused => none
  | .taken f | .brokenOff f => if f.method = cipherMethod ∧ !f.ciphered then none else some f

/-- Names are UTF-8 where the entry says so. -/
def textOf (flags : Nat) (bs : Bytes) : String :=
  if flags.testBit 11 then Text.lossy bs else Text.CodePage437.decode bs

def mark : Bytes := [0x50, 0x4B, 0x01, 0x02]

/-- The entry of a directory at an offset, and the offset behind it. -/
def parse? (data : Bytes) (position : Nat) : Option (ArchiveEntry × Nat) := do
  if data.length < position + 46 ∨ data.slice position 4 ≠ mark then none
  let flags := data.word16 (position + 8)
  let fields := position + 46 + data.word16 (position + 28)
  let comment := fields + data.word16 (position + 30)
  let finish := comment + data.word16 (position + 32)
  if data.length < finish then none
  let name := data.slice (position + 46) (fields - (position + 46))
  let plain : ArchiveEntry :=
    { nameBytes := name
      name := textOf flags name
      comment := textOf flags (data.slice comment (finish - comment))
      encrypted := flags.testBit 0
      ciphered := false
      method := data.word16 (position + 10)
      checksum := data.word32 (position + 16)
      compressedSize := data.word32 (position + 20)
      size := data.word32 (position + 24)
      start := data.word32 (position + 42) }
  let e ← plain.withFields? (data.slice fields (comment - fields))
  return (e, finish)

end ArchiveEntry
end TexturePack.Files
