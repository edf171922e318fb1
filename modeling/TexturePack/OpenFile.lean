import TexturePack.Stream

/-! A file opened for reading: its content, where the next read starts, and how
the source behind it delivers. -/
namespace TexturePack

structure OpenFile where
  content : Bytes
  /-- The size the source declares; a hint only. -/
  size : Nat
  position : Nat
  /-- The most bytes that one read delivers. -/
  pieceSize : Option Nat
  /-- Reads stop before this offset and fail from there on. -/
  failsAt : Option Nat
  seekable : Bool
  deriving DecidableEq

inductive SeekFrom where
  | start (offset : Nat)
  | current (offset : Int)
  | finish (offset : Int)
  deriving DecidableEq

inductive SeekError where
  | beforeStart
  | refused
  deriving DecidableEq

namespace OpenFile

def ofBytes (content : Bytes) : OpenFile :=
  ⟨content, content.length, 0, none, none, true⟩

/-- The bytes that reads can still deliver. -/
def available (f : OpenFile) : Bytes :=
  (f.content.take (f.failsAt.getD f.content.length)).drop f.position

/-- Whether reading on ends in a failure instead of the end of the file. -/
def endsInFailure (f : OpenFile) : Bool :=
  match f.failsAt with
  | none => false
  | some offset => offset ≤ f.content.length || offset ≤ f.position

/-- What the reads from the current position on will meet. -/
def script (f : OpenFile) : Script :=
  let pitch := f.pieceSize.getD f.available.length
  (Bytes.rows pitch f.available.length f.available).map .data ++
    if f.endsInFailure then [.failed] else []

def readFully (f : OpenFile) (wanted : Nat) : Delivery × OpenFile :=
  let d := f.script.readFully wanted
  (d, { f with position := f.position + d.bytes.length })

def readRecord (f : OpenFile) (size : Nat) : Decode (Bytes × OpenFile) :=
  let (d, f) := f.readFully size
  (d.record size).map (·, f)

def readAll (f : OpenFile) (declared : Nat) : Decode Bytes :=
  f.script.readAll declared

/-- Moves to an offset that need not lie inside the file. -/
def seek (f : OpenFile) (place : SeekFrom) : Except SeekError OpenFile :=
  if !f.seekable then .error .refused
  else
    let target : Int := match place with
      | .start offset => offset
      | .current offset => f.position + offset
      | .finish offset => f.content.length + offset
    if target < 0 ∨ (wordLimit : Int) ≤ target then .error .beforeStart
    else .ok { f with position := target.toNat }

def rewind (f : OpenFile) : Except SeekError OpenFile := f.seek (.start 0)

/-- A short account of the file, for diagnostics. -/
def describe (f : OpenFile) : String := "OpenFile \x7b size: " ++ toString f.size ++ " \x7d"

end OpenFile
end TexturePack
