import TexturePack.Bytes
import TexturePack.Deflate

/-! zlib streams: two header bytes, a DEFLATE stream, and a checksum of what comes
out. -/
namespace TexturePack.Zlib

open Deflate

/-- The compression method is 8, the window at most 32 KiB, there is no preset
dictionary, and both bytes together are a multiple of 31. -/
def headerOk (method flags : UInt8) : Bool :=
  (256 * method.toNat + flags.toNat) % 31 = 0 && method.toNat % 16 = 8 && method.toNat / 16 ≤ 7 &&
    flags.toNat / 32 % 2 = 0

/-- Decompresses a whole stream. The checksum is compared only where `verify` asks
for it, but has to be there. -/
def inflate (d : Dialect) (verify : Bool) (data : Bytes) : Inflated :=
  match data with
  | method :: flags :: _ =>
      if !headerOk method flags then ⟨#[], 16, some .corrupt⟩
      else
        let input := data.toArray
        let r := Deflate.inflate d input 2
        if r.stop.isSome then r
        else
          let start := (r.position + 7) / 8
          let trailer : Bytes := (input.extract start (start + 4)).toList
          if trailer.length < 4 then { r with stop := some .truncated }
          else if verify && trailer.toNatBE != Checksum.adler32 r.output.toList then
            { r with stop := some .corrupt }
          else { r with position := 8 * (start + 4) }
  | _ => ⟨#[], 0, some .truncated⟩

/-- A streaming decoder fills a window of this size, or takes in a block of this
size, before it hands anything over. -/
def windowSize : Nat := 32768

/-- How much of a stream is handed over before the decoder works on the piece that
turns out to be corrupt. -/
def handedOver (inflated : Bytes → Inflated) (data : Bytes) (produced : Nat) : Nat :=
  let byWindow := windowSize * ((produced - 1) / windowSize)
  let byInput := (List.range ((data.length - 1) / windowSize)).map fun k =>
    let r := inflated (data.take (windowSize * (k + 1)))
    if r.stop = some .truncated then r.output.size else 0
  byInput.foldl max byWindow

/-- The first `wanted` bytes of a stream as a streaming reader delivers them,
fewer if the stream is over before. A stream that is damaged or breaks off while
bytes are still wanted delivers nothing. -/
def deliver? (data : Bytes) (wanted : Nat) : Option Bytes :=
  let r := inflate .streaming true data
  let delivered := (r.output.extract 0 wanted).toList
  match r.stop with
  | none | some .full => some delivered
  | some .truncated => if wanted ≤ r.output.size then some delivered else none
  | some .corrupt =>
      if wanted ≤ handedOver (inflate .streaming true) data r.output.size then some delivered
      else none

end TexturePack.Zlib
