import TexturePack.Error
import TexturePack.LevelCache

/-! Copying a level out of the cache. Every check comes before the first byte is
written. Large levels are copied in pieces, which changes nothing in the result. -/
namespace TexturePack.Readback

/-- Pieces of a level without rows. -/
def pieceBytes : Nat := 64 * 1024

/-- Rows of a piece of a level with rows. -/
def pieceRows : Nat := 4

/-- Writes bytes over the front of a buffer. -/
def overwrite (out bytes : Bytes) : Bytes := bytes ++ out.drop bytes.length

/-- Writes the rows of a level `pitch` bytes apart. -/
def writeRows (pitch : Nat) : Bytes → List Bytes → Bytes
  | out, [] => out
  | out, row :: rows => overwrite (out.take pitch) row ++ writeRows pitch (out.drop pitch) rows

/-- Groups of `size` items. -/
def groups {α : Type} (size : Nat) : Nat → List α → List (List α)
  | 0, _ => []
  | count + 1, items =>
      if items.isEmpty then [] else items.take size :: groups size count (items.drop size)

/-- Writes each piece at its own place. -/
def overwriteInPieces (out bytes : Bytes) : Bytes :=
  let pieces := groups pieceBytes bytes.length bytes
  writeRows pieceBytes (out.take bytes.length) pieces ++ out.drop bytes.length

/-- Writes each group of rows into its own part of the buffer. -/
def writeRowsInPieces (pitch : Nat) (out : Bytes) (rows : List Bytes) : Bytes :=
  let pieces := groups pieceRows rows.length rows
  let parts := groups (pitch * pieceRows) out.length out
  ((parts.zip pieces).map fun (part, rows) => writeRows pitch part rows).flatten ++
    out.drop (pitch * pieceRows * min parts.length pieces.length)

def writeContiguous (inPieces : Bool) (out bytes : Bytes) : Bytes :=
  if inPieces then overwriteInPieces out bytes else overwrite out bytes

def writeStrided (inPieces : Bool) (pitch : Nat) (out : Bytes) (rows : List Bytes) : Bytes :=
  if inPieces then writeRowsInPieces pitch out rows else writeRows pitch out rows

/-- The bytes that rows take up in a buffer; the last one needs no filling. -/
def extent (pitch packed height : Nat) : Nat :=
  if height = 0 then 0 else pitch * (height - 1) + packed

/-- A level of rows, `pitch` bytes apart in the buffer. -/
def copyRows (bytes : Bytes) (width height : Nat) (out : Bytes) (pitch : Nat) (inPieces : Bool) :
    Except Defect (Option Bytes) :=
  let packed := 4 * width
  if pitch < packed then .ok none
  else if wordLimit ≤ packed * height then .error .sizeOverflow
  else if bytes.length ≠ packed * height then .ok none
  else if wordLimit ≤ extent pitch packed height then .error .sizeOverflow
  else if out.length < extent pitch packed height then .ok none
  else if pitch = packed then .ok (some (writeContiguous inPieces out bytes))
  else .ok (some (writeStrided inPieces pitch out (bytes.rows packed height)))

/-- The buffer after the copy, or nothing if the level does not fit it. Levels of at least
`piecesFrom` bytes are copied in pieces. -/
def copyLevel (data : LevelData) (level width height : Nat) (format : PixelFormat) (out : Bytes)
    (pitch piecesFrom : Nat) : Except Defect (Option Bytes) :=
  match data.level? level with
  | none => .ok none
  | some bytes =>
      let inPieces := decide (piecesFrom ≤ bytes.length)
      if format = .rgba8 then copyRows bytes width height out pitch inPieces
      else if out.length < bytes.length then .ok none
      else .ok (some (writeContiguous inPieces out bytes))

end TexturePack.Readback
