import TexturePack.Deflate
import TexturePack.Files.Archive.EndRecord
import TexturePack.Files.Archive.Entry
import TexturePack.Files.FileSystem

/-! Zip archives held in memory. -/
namespace TexturePack.Files

structure Archive where
  data : Bytes
  label : String
  /-- No two entries have one name. -/
  entries : List ArchiveEntry

namespace Archive

/-- The entries of a directory from an offset on. All of them lie before the directory. -/
def entriesFrom? (data : Bytes) (d : DirectoryPlace) (position : Nat) :
    Nat → Option (List ArchiveEntry)
  | 0 => some []
  | count + 1 => do
      let (e, position) ← ArchiveEntry.parse? data position
      let start := e.start + d.shift
      if d.start ≤ start then none
      let rest ← entriesFrom? data d position count
      return { e with start := start } :: rest

/-- Of two entries with one name the later one stands in the place of the earlier. -/
def insert (entries : List ArchiveEntry) (e : ArchiveEntry) : List ArchiveEntry :=
  if entries.any fun f => f.name = e.name then entries.map fun f => if f.name = e.name then e else f
  else entries ++ [e]

/-- The entries of the directory that a record at the end leads to. -/
def directory? (data : Bytes) (position : Nat) : Option (List ArchiveEntry) := do
  let d ← directoryPlace? data ArchiveEntry.mark position
  let found ← entriesFrom? data d d.start d.entries
  return found.foldl insert []

/-- Takes the last record that leads to a sound directory. -/
def ofBytes? (data : Bytes) (label : String) : Option Archive :=
  ((marks EndRecord.mark 0 [] data).findSome? (directory? data)).map fun entries =>
    ⟨data, label, entries⟩

def describe (a : Archive) : String := "zip:" ++ a.label

def size (a : Archive) : Nat := a.entries.length

def find? (a : Archive) (name : String) : Option FileReference := do
  let name ← lookupName? name
  let index ← a.entries.findIdx? fun e => e.name = name
  return ⟨name, index⟩

def headerMark : Bytes := [0x50, 0x4B, 0x03, 0x04]

/-- Where the bytes of an entry begin, behind the header in front of them. -/
def contentStart? (a : Archive) (e : ArchiveEntry) : Option Nat :=
  if a.data.length < e.start + 30 ∨ a.data.slice e.start 4 ≠ headerMark then none
  else some (e.start + 30 + a.data.word16 (e.start + 26) + a.data.word16 (e.start + 28))

def unpack (method : Nat) (raw : Bytes) : Except OpenError Bytes :=
  if method = 0 then .ok raw
  else
    let r := Deflate.inflate .streaming raw.toArray 0
    match r.stop with
    | some .corrupt => .error .corruptData
    | some .truncated => .error .missingData
    | none | some .full => .ok r.output.toList

/-- The bytes of an entry from where they begin. -/
def content (a : Archive) (e : ArchiveEntry) (start : Nat) : Except OpenError Bytes :=
  match unpack e.method (a.data.slice start e.compressedSize) with
  | .error error => .error error
  | .ok bytes => if Checksum.crc32 bytes = e.checksum then .ok bytes else .error .checksumMismatch

/-- Opens the entry with the index of the reference. -/
def openFile (a : Archive) (f : FileReference) : Except OpenError OpenFile :=
  match (a.entries[f.index]?).filter ArchiveEntry.readable with
  | none => .error .notFound
  | some e =>
      match a.contentStart? e with
      | none => .error .notFound
      | some start =>
          if e.isFolder then .error (.directoryEntry f.name)
          else (a.content e start).map .ofBytes

def fileSystem (a : Archive) : FileSystem := ⟨a.find?, a.openFile⟩

end Archive
end TexturePack.Files
