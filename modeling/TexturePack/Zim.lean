import TexturePack.Image
import TexturePack.Zlib

/-! ZIM images: a header of 16 bytes and the pixels of the largest level, plain or
in a zlib stream. Smaller levels may follow and are not read. -/
namespace TexturePack

structure ZimHeader where
  magic : Bytes
  width : Nat
  height : Nat
  flags : Nat
  deriving DecidableEq

namespace ZimHeader

def size : Nat := 16

def mark : Bytes := [0x5A, 0x49, 0x4D, 0x47]

def ofBytes (bs : Bytes) : ZimHeader :=
  ⟨bs.slice 0 4, bs.word32 4, bs.word32 8, bs.word32 12⟩

/-- The low four bits number the pixel format. -/
def format (h : ZimHeader) : Nat := h.flags % 16

def isRgba8 (h : ZimHeader) : Bool := h.format = 0

def zlibCompressed (h : ZimHeader) : Bool := h.flags.testBit 8

def zstdCompressed (h : ZimHeader) : Bool := h.flags.testBit 12

def validate (h : ZimHeader) : Decode Unit :=
  if h.magic ≠ mark then .refuse (.invalidHeader .notZim)
  else if !h.isRgba8 then .refuse (.unsupported (.zimFormat h.format))
  else checkDimensions "ZIM" h.width h.height

def levelBytes (h : ZimHeader) : Decode Nat :=
  match PixelFormat.rgba8.checkedLevelSize? h.width h.height with
  | some n => .ok n
  | none => .refuse (.invalidHeader .zimLevelTooLarge)

end ZimHeader

namespace Zim

/-- At most `wanted` bytes of pixels from what follows the header. -/
def pixels (h : ZimHeader) (payload : Bytes) (wanted : Nat) : Decode Bytes :=
  if h.zstdCompressed then .refuse (.unsupported .zimZstd)
  else if h.zlibCompressed then
    match Zlib.deliver? payload wanted with
    | some bs => .ok bs
    | none => .refuse .io
  else .ok (payload.take wanted)

def decode (data : Bytes) (levelWidth levelHeight : Nat) : Decode Image := do
  if data.length < ZimHeader.size then
    .refuse (.shortRead ZimHeader.size data.length)
  else
    let h := ZimHeader.ofBytes data
    h.validate
    let wanted ← h.levelBytes
    let found ← pixels h (data.drop ZimHeader.size) wanted
    if found.length < wanted then .refuse (.shortRead wanted found.length)
    else Image.finish found h.width h.height levelWidth levelHeight true

end Zim
end TexturePack
