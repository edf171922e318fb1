import TexturePack.Png.Header

/-! What a PNG file says about the frames of an animation before its pixels. Only the
first frame is shown, but what is said has to be right. -/
namespace TexturePack.Png

/-- What a chunk says about the frame behind it. -/
structure FrameControl where
  place : Nat
  width : Nat
  height : Nat
  x : Nat
  y : Nat
  disposal : Nat
  blending : Nat
  deriving DecidableEq

namespace FrameControl

def ofBytes (bs : Bytes) : FrameControl where
  place := (bs.slice 0 4).toNatBE
  width := (bs.slice 4 4).toNatBE
  height := (bs.slice 8 4).toNatBE
  x := (bs.slice 12 4).toNatBE
  y := (bs.slice 16 4).toNatBE
  disposal := (bs.slice 24 1).toNatBE
  blending := (bs.slice 25 1).toNatBE

/-- The first frame covers the whole image. -/
def covers (f : FrameControl) (h : Header) : Bool :=
  f.width = h.width && f.height = h.height && f.x = 0 && f.y = 0

/-- There are three ways to leave a frame and two to draw one. -/
def known (f : FrameControl) : Bool := f.disposal ≤ 2 && f.blending ≤ 1

end FrameControl

/-- The chunks of an animation count up from zero. -/
def nextPlace (last : Option Nat) : Nat := last.elim 0 (· + 1)

/-- Whether a frame may be announced after the chunk with the `last` number. -/
def FrameControl.allowed (f : FrameControl) (h : Header) (last : Option Nat) : Bool :=
  f.place = nextPlace last && f.covers h && f.known

end TexturePack.Png
