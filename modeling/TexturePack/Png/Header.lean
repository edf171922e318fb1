import TexturePack.Png.Chunk
import TexturePack.Error

/-! The header of a PNG file: the size of the image and how its pixels are
stored. -/
namespace TexturePack.Png

/-- The first bytes of a file, enough to learn the size. The length of the header
chunk and what follows the size are not looked at. -/
structure Peek where
  signature : Bytes
  tag : Bytes
  width : Nat
  height : Nat
  deriving DecidableEq

namespace Peek

def size : Nat := 24

def ofBytes (bs : Bytes) : Peek :=
  ⟨bs.slice 0 8, bs.slice 12 4, (bs.slice 16 4).toNatBE, (bs.slice 20 4).toNatBE⟩

def valid (p : Peek) : Bool :=
  p.signature = Png.signature && p.tag = [0x49, 0x48, 0x44, 0x52] &&
    0 < p.width && 0 < p.height && p.width ≤ maxDimension && p.height ≤ maxDimension

end Peek

inductive ColorType where
  | gray
  | rgb
  | indexed
  | grayAlpha
  | rgba
  deriving DecidableEq

namespace ColorType

def ofNat? : Nat → Option ColorType
  | 0 => some gray
  | 2 => some rgb
  | 3 => some indexed
  | 4 => some grayAlpha
  | 6 => some rgba
  | _ => none

def channels : ColorType → Nat
  | gray | indexed => 1
  | grayAlpha => 2
  | rgb => 3
  | rgba => 4

def depths : ColorType → List Nat
  | gray => [1, 2, 4, 8, 16]
  | indexed => [1, 2, 4, 8]
  | rgb | grayAlpha | rgba => [8, 16]

def storesAlpha : ColorType → Bool
  | grayAlpha | rgba => true
  | gray | rgb | indexed => false

end ColorType

structure Header where
  width : Nat
  height : Nat
  depth : Nat
  color : ColorType
  interlaced : Bool
  deriving DecidableEq

namespace Header

def bitsPerPixel (h : Header) : Nat := h.depth * h.color.channels

/-- Distance to the matching byte of the pixel to the left. -/
def pixelStep (h : Header) : Nat := max 1 (h.bitsPerPixel / 8)

def lineBytes (h : Header) (width : Nat) : Nat := (width * h.bitsPerPixel + 7) / 8

def ofBytes? (bs : Bytes) : Option Header := do
  if bs.length ≠ 13 then none
  let width := (bs.slice 0 4).toNatBE
  let height := (bs.slice 4 4).toNatBE
  if width = 0 ∨ height = 0 ∨ 0x80000000 ≤ width ∨ 0x80000000 ≤ height then none
  let depth := Bytes.toNatLE (bs.slice 8 1)
  let color ← ColorType.ofNat? (Bytes.toNatLE (bs.slice 9 1))
  if depth ∉ color.depths then none
  if bs.slice 10 2 ≠ [0, 0] then none
  match bs.slice 12 1 with
  | [0] => some ⟨width, height, depth, color, false⟩
  | [1] => some ⟨width, height, depth, color, true⟩
  | _ => none

end Header
end TexturePack.Png
