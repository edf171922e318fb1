import TexturePack.Bytes

/-! Pixel formats of a decoded level, what a graphics device can sample, and
what is known about transparency. -/
namespace TexturePack

inductive PixelFormat where
  | undefined
  | rgba8
  | bc1
  | bc2
  | bc3
  | bc7
  | etc2
  | astc
  deriving DecidableEq

namespace PixelFormat

def name : PixelFormat → String
  | undefined => "UNDEFINED"
  | rgba8 => "R8G8B8A8_UNORM"
  | bc1 => "BC1_RGBA_UNORM_BLOCK"
  | bc2 => "BC2_UNORM_BLOCK"
  | bc3 => "BC3_UNORM_BLOCK"
  | bc7 => "BC7_UNORM_BLOCK"
  | etc2 => "ETC2_R8G8B8_UNORM_BLOCK"
  | astc => "ASTC_4x4_UNORM_BLOCK"

def all : List PixelFormat := [undefined, rgba8, bc1, bc2, bc3, bc7, etc2, astc]

/-- Bytes of one block of 4x4 pixels. -/
def blockSize? : PixelFormat → Option Nat
  | bc1 | etc2 => some 8
  | bc2 | bc3 | bc7 | astc => some 16
  | undefined | rgba8 => none

def blockCompressed (f : PixelFormat) : Bool := f.blockSize?.isSome

end PixelFormat

/-- Blocks of four pixels that cover `n` pixels. -/
def blocksFor (n : Nat) : Nat := (n + 3) / 4

namespace PixelFormat

/-- Bytes of a tightly packed level, over the integers. -/
def packedSize (f : PixelFormat) (width height : Nat) : Nat :=
  match f.blockSize? with
  | some block => blocksFor width * blocksFor height * block
  | none => if f = rgba8 then width * height * 4 else 0

/-- The packed size where it fits a word. -/
def checkedLevelSize? (f : PixelFormat) (width height : Nat) : Option Nat :=
  if f.packedSize width height < wordLimit then some (f.packedSize width height) else none

/-- The packed size, or the largest word where that is too small. -/
def levelSize (f : PixelFormat) (width height : Nat) : Nat :=
  (f.checkedLevelSize? width height).getD (wordLimit - 1)

end PixelFormat

/-- Families of block formats that the device samples. -/
structure Support where
  bc123 : Bool
  bc7 : Bool
  etc2 : Bool
  astc : Bool
  deriving DecidableEq

namespace Support

def none : Support := ⟨false, false, false, false⟩

def desktop : Support := ⟨true, true, false, false⟩

/-- Whether the family of a block format is sampled. -/
def allows (s : Support) : PixelFormat → Bool
  | .bc1 | .bc2 | .bc3 => s.bc123
  | .bc7 => s.bc7
  | .etc2 => s.etc2
  | .astc => s.astc
  | .rgba8 => true
  | .undefined => false

end Support

inductive Alpha where
  | unknown
  | solid
  | transparent
  deriving DecidableEq

def Alpha.name : Alpha → String
  | unknown => "Unknown"
  | solid => "Opaque"
  | transparent => "Transparent"

end TexturePack
