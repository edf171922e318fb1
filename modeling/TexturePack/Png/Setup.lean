import TexturePack.Png.Color
import TexturePack.Png.Frame

/-! The chunks of a PNG file up to those with the pixels of the image. -/
namespace TexturePack.Png

/-- What the chunks before the pixels say. -/
structure Setup where
  palette : Option Bytes
  transparency : Option Transparency
  /-- The number of the last chunk of an animation. -/
  place : Option Nat
  colorSpaceSeen : Bool

namespace Setup

def empty : Setup := ⟨none, none, none, false⟩

def takePalette? (s : Setup) (c : Chunk) : Option Setup :=
  if c.intact && c.fits && s.palette.isNone then some { s with palette := some c.body } else none

/-- The first chunk that fits the image counts. -/
def takeTransparency (s : Setup) (h : Header) (c : Chunk) : Setup :=
  if c.fits && s.transparency.isNone then
    { s with transparency := Transparency.ofBytes? h s.palette c.body }
  else s

def takeFrame? (s : Setup) (h : Header) (c : Chunk) : Option Setup :=
  let f := FrameControl.ofBytes c.body
  if f.allowed h s.place then some { s with place := some f.place } else none

/-- The third code point is that of a matrix, and there is none but the identity. The
fourth says whether the full range is used. -/
def colorSpaceKnown (bs : Bytes) : Bool :=
  (bs.slice 2 1).toNatBE = 0 && (bs.slice 3 1).toNatBE ≤ 1

/-- Only the first such chunk before the palette counts. -/
def takeColorSpace? (s : Setup) (c : Chunk) : Option Setup :=
  if !c.fits || s.colorSpaceSeen || s.palette.isSome then some s
  else if colorSpaceKnown c.body then some { s with colorSpaceSeen := true }
  else none

/-- The background is not shown, but an index has to follow the palette. -/
def takeBackground? (s : Setup) (h : Header) (c : Chunk) : Option Setup :=
  if c.fits ∧ h.color = .indexed ∧ s.palette.isNone then none else some s

/-- Takes in one chunk, if it may stand before the pixels. -/
def take? (s : Setup) (h : Header) (c : Chunk) : Option Setup :=
  match c.kind with
  | .palette => s.takePalette? c
  | .transparency => some (s.takeTransparency h c)
  | .frameControl => s.takeFrame? h c
  | .colorSpace => s.takeColorSpace? c
  | .background => s.takeBackground? h c
  | .other false => some s
  | .other true | .header | .finish | .data | .frameData => none

end Setup

/-- Whether a chunk is taken for what it says even if it is damaged. A frame has to be
announced by a chunk of the right length, and its pixels may not come before those of the
image. -/
def Chunk.binding (c : Chunk) : Bool :=
  c.kind.critical || c.kind = .frameData || (c.kind = .frameControl && !c.fits)

/-- Takes in the chunks up to the first with pixels. A damaged chunk that is not
critical counts as absent. -/
def setup? (h : Header) (s : Setup) : List Chunk → Option (Setup × List Chunk)
  | [] => none
  | c :: cs =>
      if c.kind = .data then some (s, c :: cs)
      else if c.condition = .cutOff then none
      else if !c.intact && !c.binding then setup? h s cs
      else if c.kind = .frameControl && !c.fits then none
      else (s.take? h c).bind fun s => setup? h s cs

/-- What comes behind the chunks with pixels. -/
inductive Ending where
  | chunk
  /-- The file is over. -/
  | nothing
  /-- The last of them is damaged. Others may follow it. -/
  | damage
  deriving DecidableEq

/-- The bodies of the chunks with pixels, which follow each other. -/
structure PixelData where
  pieces : List Bytes
  ending : Ending
  deriving DecidableEq

namespace PixelData

/-- The pixels at the start of some chunks. -/
def ofChunks : List Chunk → PixelData
  | [] => ⟨[], .nothing⟩
  | c :: cs =>
      if c.kind ≠ .data then ⟨[], .chunk⟩
      else
        match c.condition with
        | .damaged => ⟨[c.body], .damage⟩
        | .cutOff => ⟨[c.body], .nothing⟩
        | .intact =>
            let rest := ofChunks cs
            { rest with pieces := c.body :: rest.pieces }

end PixelData
end TexturePack.Png
