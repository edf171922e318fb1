import TexturePack.Pixel

/-! Universal textures and the formats they are transcoded to. -/
namespace TexturePack.Ktx2

inductive Payload where
  | etc1s
  | uastc
  deriving DecidableEq

inductive Target where
  | bc1
  | etc1
  | bc7
  | astc
  | rgba32
  deriving DecidableEq

namespace Target

def name : Target → String
  | bc1 => "Bc1"
  | etc1 => "Etc1Rgb"
  | bc7 => "Bc7Rgba"
  | astc => "Astc4x4Rgba"
  | rgba32 => "Rgba32"

def all : List Target := [bc1, etc1, bc7, astc, rgba32]

def format : Target → PixelFormat
  | bc1 => .bc1
  | etc1 => .etc2
  | bc7 => .bc7
  | astc => .astc
  | rgba32 => .rgba8

end Target

/-- The cheapest target that the device samples, or plain pixels. -/
def Payload.target (p : Payload) (s : Support) : Target :=
  match p with
  | .etc1s => if s.bc123 then .bc1 else if s.etc2 then .etc1 else .rgba32
  | .uastc => if s.bc7 then .bc7 else if s.astc then .astc else .rgba32

/-- ETC1S textures are treated as opaque; of UASTC nothing is known. -/
def Payload.alpha : Payload → Alpha
  | .etc1s => .solid
  | .uastc => .unknown

end TexturePack.Ktx2
