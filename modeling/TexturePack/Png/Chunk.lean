import TexturePack.Bytes

/-! The chunks of a PNG file. Each has a length, a kind of four letters, a body,
and a checksum over kind and body. -/
namespace TexturePack.Png

def signature : Bytes := [0x89, 0x50, 0x4E, 0x47, 0x0D, 0x0A, 0x1A, 0x0A]

inductive ChunkKind where
  | header
  | palette
  | transparency
  | data
  | finish
  /-- Announces a frame of an animation. -/
  | frameControl
  /-- Holds pixels of a frame other than the first. -/
  | frameData
  /-- Names the colour space by code points. -/
  | colorSpace
  /-- Names the colour to show behind the image. -/
  | background
  | other (critical : Bool)
  deriving DecidableEq

namespace ChunkKind

/-- A chunk is critical if the first letter of its kind is a capital. -/
def ofBytes : Bytes → ChunkKind
  | [0x49, 0x48, 0x44, 0x52] => header
  | [0x50, 0x4C, 0x54, 0x45] => palette
  | [0x74, 0x52, 0x4E, 0x53] => transparency
  | [0x49, 0x44, 0x41, 0x54] => data
  | [0x49, 0x45, 0x4E, 0x44] => finish
  | [0x66, 0x63, 0x54, 0x4C] => frameControl
  | [0x66, 0x64, 0x41, 0x54] => frameData
  | [0x63, 0x49, 0x43, 0x50] => colorSpace
  | [0x62, 0x4B, 0x47, 0x44] => background
  | first :: _ => other (first.toNat / 32 % 2 = 0)
  | [] => other false

def critical : ChunkKind → Bool
  | header | palette | data | finish => true
  | transparency | frameControl | frameData | colorSpace | background => false
  | other c => c

/-- The lengths that a body may have. A palette holds one to 256 colours of three bytes. -/
def fits : ChunkKind → Nat → Bool
  | header, n => n = 13
  | palette, n => 3 ≤ n && n ≤ 768
  | transparency, n => 1 ≤ n && n ≤ 256
  | frameControl, n => n = 26
  | colorSpace, n => n = 4
  | background, n => 1 ≤ n && n ≤ 6
  | data, _ | finish, _ | frameData, _ | other _, _ => true

end ChunkKind

inductive Condition where
  | intact
  /-- The checksum is wrong. -/
  | damaged
  /-- The file ends within the chunk, but behind its kind. -/
  | cutOff
  deriving DecidableEq

structure Chunk where
  kind : ChunkKind
  /-- The bytes of the body that are there. -/
  body : Bytes
  condition : Condition
  deriving DecidableEq

namespace Chunk

def intact (c : Chunk) : Bool := c.condition = .intact

def fits (c : Chunk) : Bool := c.kind.fits c.body.length

end Chunk

/-- The chunks of a file in order. Only the last may be cut off. -/
def chunks : Nat → Bytes → List Chunk
  | 0, _ => []
  | fuel + 1, bs =>
      let length := Bytes.toNatBE (bs.take 4)
      let name := Bytes.slice bs 4 4
      let body := Bytes.slice bs 8 length
      if bs.length < 8 then []
      else if bs.length < 12 + length then [⟨.ofBytes name, body, .cutOff⟩]
      else
        let stated := Bytes.toNatBE (Bytes.slice bs (8 + length) 4)
        let sound := Checksum.crc32 (name ++ body) = stated
        ⟨.ofBytes name, body, if sound then .intact else .damaged⟩ ::
          chunks fuel (bs.drop (12 + length))

end TexturePack.Png
