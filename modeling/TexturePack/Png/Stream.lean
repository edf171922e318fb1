import TexturePack.Png.Scanline
import TexturePack.Png.Setup
import TexturePack.Zlib

/-! The compressed lines of a PNG image, which are taken apart piece by piece. -/
namespace TexturePack.Png

open Deflate

namespace Pass

/-- The bytes of the lines of a pass, each behind the byte that names its filter. A pass
without columns still counts the latter. -/
def bytes (h : Header) (p : Pass) : Nat :=
  steps p.y p.dy h.height * (1 + h.lineBytes (steps p.x p.dx h.width))

end Pass

/-- How many bytes are made room for. -/
def Header.room (h : Header) : Nat := h.passes.foldl (fun n p => n + p.bytes h) 0

/-- What comes out of the first pieces of a stream. The checksum is not compared, but a
stream that does not fill the room has to have one. -/
def inflate (room : Nat) (pieces : List Bytes) (count : Nat) : Inflated :=
  Zlib.inflate (.filling room) false (pieces.take count).flatten

def filled (room : Nat) (r : Inflated) : Bool := r.output.size = room

/-- The least number with a property between two bounds, by halving. The upper bound has the
property, and so have all numbers above one that has it. -/
def least (p : Nat → Bool) (low high : Nat) : Nat → Nat
  | 0 => high
  | fuel + 1 =>
      if high ≤ low then high
      else
        let middle := (low + high) / 2
        if p middle then least p low middle fuel else least p (middle + 1) high fuel

/-- What comes out of a stream. Once the room is full, the pieces that are left are not
looked into. -/
def decompress (room : Nat) (pieces : List Bytes) : Inflated :=
  let count := pieces.length
  let whole := inflate room pieces count
  if count ≤ 1 || !filled room whole then whole
  else inflate room pieces (least (fun n => filled room (inflate room pieces n)) 0 count count)

/-- The lines of an image whose stream is over. A stream that fills the room may break off. -/
def lineBytes? (room : Nat) (r : Inflated) : Option Bytes :=
  match r.stop with
  | none | some .full => some r.output.toList
  | some .truncated => if filled room r then some r.output.toList else none
  | some .corrupt => none

/-- Bytes that copies may refer to are held back while a stream goes on. -/
def heldBack : Nat := 32768

/-- A piece is worked on in steps that bring out so many bytes at most. -/
def stepBytes : Nat := 8192

/-- How many bits a decoder takes in ahead of those it works on. -/
def bitsAhead : Nat := 63

/-- Where the steps through a piece end, if the pieces before it brought out `before` bytes
and no step reaches beyond `size`. -/
def lastStep (before size : Nat) : Nat := before + (size - before) / stepBytes * stepBytes

/-- How much the steps through pieces that break off have brought out. None follows the one
that has taken in the last piece, whether or not more bytes would come out of it. -/
def beforeBreak (pieces : List Bytes) (size : Nat) : Nat :=
  let count := pieces.length
  let before := (inflate size pieces (count - 1)).output.size
  let last := lastStep before size
  let position := (inflate last pieces count).position
  if before < last ∧ 8 * pieces.flatten.length ≤ position + bitsAhead then last else size

def corrupted (r : Inflated) : Bool := r.stop = some .corrupt

/-- How much the steps have brought out before the one that comes upon what is wrong. -/
def beforeFault (room : Nat) (pieces : List Bytes) (size : Nat) : Nat :=
  let count := pieces.length
  let piece := least (fun n => corrupted (inflate room pieces n)) 0 count count
  lastStep (inflate room pieces (piece - 1)).output.size (size - 1)

/-- How many bytes of lines have been handed on when the decoder comes to the end of the
pieces or to what is wrong in them. Where the file is over, nothing is held back. -/
def handedOn (room : Nat) (d : PixelData) (r : Inflated) : Nat :=
  let size := r.output.size
  match r.stop with
  | none | some .full => size
  | some .truncated =>
      if filled room r then size
      else beforeBreak d.pieces size - if d.ending = .nothing then 0 else heldBack
  | some .corrupt => beforeFault room d.pieces size - heldBack

end TexturePack.Png
