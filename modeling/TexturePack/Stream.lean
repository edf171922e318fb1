import TexturePack.Error

/-! Reading from a source that delivers its bytes in pieces. A script lists what
the reads of a source meet, one event after the other; a read that asks for less
than a piece leaves the rest of the piece for the next read. -/
namespace TexturePack

inductive ReadEvent where
  | data (bytes : Bytes)
  | interrupted
  | failed
  deriving DecidableEq

abbrev Script := List ReadEvent

/-- What a request for a number of bytes delivered before the source ended,
failed, or the request was filled. -/
structure Delivery where
  bytes : Bytes
  failed : Bool
  rest : Script
  deriving DecidableEq

namespace Script

/-- Reads until `wanted` bytes are there. An empty piece is the end of the
source, and an interrupted read is tried again. -/
def readFully : Script → Nat → Delivery
  | script, 0 => ⟨[], false, script⟩
  | [], _ => ⟨[], false, []⟩
  | .interrupted :: rest, wanted => readFully rest wanted
  | .failed :: rest, _ => ⟨[], true, rest⟩
  | .data [] :: rest, _ => ⟨[], false, rest⟩
  | .data bytes :: rest, wanted =>
      if wanted < bytes.length then
        ⟨bytes.take wanted, false, .data (bytes.drop wanted) :: rest⟩
      else
        let tail := readFully rest (wanted - bytes.length)
        ⟨bytes ++ tail.bytes, tail.failed, tail.rest⟩

/-- Everything up to the end of the source, unless a read fails before. -/
def untilEnd? : Script → Option Bytes
  | [] => some []
  | .interrupted :: rest => untilEnd? rest
  | .failed :: _ => none
  | .data [] :: _ => some []
  | .data bytes :: rest => (untilEnd? rest).map (bytes ++ ·)

end Script

/-- A buffer after the delivered bytes have been written over its front. -/
def Delivery.fill (d : Delivery) (buffer : Bytes) : Bytes :=
  d.bytes ++ buffer.drop d.bytes.length

/-- The delivered bytes as a record of `size` bytes. -/
def Delivery.record (d : Delivery) (size : Nat) : Decode Bytes :=
  if d.failed then .refuse .io
  else if d.bytes.length ≠ size then .refuse (.shortRead size d.bytes.length)
  else .ok d.bytes

def Script.readRecord (script : Script) (size : Nat) : Decode Bytes :=
  (script.readFully size).record size

/-- Buffers are never reserved beyond 64 MiB, however long a file claims to be. -/
def maxReservation : Nat := 64 * 1024 * 1024

def reservation (declared : Nat) : Nat := min declared maxReservation

/-- A buffer and the room reserved for it. -/
structure Collected where
  bytes : Bytes
  reserved : Nat

/-- Reads to the end into a buffer with room for the declared size. Room is no
limit: the buffer grows with what arrives. -/
def Script.collect (script : Script) (declared : Nat) : Decode Collected :=
  match script.untilEnd? with
  | none => .refuse .io
  | some bytes => .ok ⟨bytes, max bytes.length (reservation declared)⟩

def Script.readAll (script : Script) (declared : Nat) : Decode Bytes :=
  (script.collect declared).map Collected.bytes

end TexturePack
