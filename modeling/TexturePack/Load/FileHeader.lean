import TexturePack.Container
import TexturePack.Dds
import TexturePack.Ktx2
import TexturePack.Png.Header
import TexturePack.Zim

/-! What the header of a file says before any pixels are read. -/
namespace TexturePack

structure FileHeader where
  width : Nat
  height : Nat
  /-- Not known of universal textures before they are transcoded. -/
  format : PixelFormat
  dds : Option Dds.Info
  deriving DecidableEq

namespace FileHeader

def readKtx2 (f : OpenFile) : Decode FileHeader := do
  let (record, _) ← f.readRecord Ktx2.Header.byteSize
  let h := Ktx2.Header.ofBytes record
  h.validate
  return ⟨h.width, h.height, .undefined, none⟩

def readDds (f : OpenFile) (support : Support) : Decode FileHeader := do
  let (info, _) ← Dds.readInfo f support
  return ⟨info.header.width, info.header.height, info.format, some info⟩

def readZim (f : OpenFile) : Decode FileHeader := do
  let (record, _) ← f.readRecord ZimHeader.size
  let h := ZimHeader.ofBytes record
  h.validate
  return ⟨h.width, h.height, .rgba8, none⟩

def readPng (f : OpenFile) : Decode FileHeader := do
  let (record, _) ← f.readRecord Png.Peek.size
  let p := Png.Peek.ofBytes record
  if p.valid then return ⟨p.width, p.height, .rgba8, none⟩
  else .refuse (.invalidHeader .pngDimensions)

/-- Reads the header of a file whose kind is known. -/
def read (found : Identified) (f : OpenFile) (support : Support) : Decode FileHeader :=
  match found.container with
  | .ktx2 => readKtx2 f
  | .basis => .refuse .basisUnsupported
  | .dds => readDds f support
  | .zim => readZim f
  | .png => readPng f
  | .invalid => .refuse (.unknownMagic found.magic)

end FileHeader
end TexturePack
