import TexturePack.OpenFile
import TexturePack.Text.Encoding

/-! DDS files: a header of 128 bytes, for newer formats an extension of 20 bytes,
and the block data of the levels one after the other. -/
namespace TexturePack.Dds

structure PixelLayout where
  size : Nat
  flags : Nat
  fourCC : Nat
  rgbBitCount : Nat
  redMask : Nat
  greenMask : Nat
  blueMask : Nat
  alphaMask : Nat
  deriving DecidableEq

structure Header where
  magic : Bytes
  size : Nat
  flags : Nat
  height : Nat
  width : Nat
  pitchOrLinearSize : Nat
  depth : Nat
  mipMapCount : Nat
  reserved1 : List Nat
  layout : PixelLayout
  caps : List Nat
  reserved2 : Nat
  deriving DecidableEq

structure Extension where
  dxgiFormat : Nat
  resourceDimension : Nat
  miscFlag : Nat
  arraySize : Nat
  miscFlags2 : Nat
  deriving DecidableEq

namespace Header

def byteSize : Nat := 128

def mark : Bytes := [0x44, 0x44, 0x53, 0x20]

def ofBytes (bs : Bytes) : Header where
  magic := bs.slice 0 4
  size := bs.word32 4
  flags := bs.word32 8
  height := bs.word32 12
  width := bs.word32 16
  pitchOrLinearSize := bs.word32 20
  depth := bs.word32 24
  mipMapCount := bs.word32 28
  reserved1 := (List.range 11).map fun i => bs.word32 (32 + 4 * i)
  layout := ⟨bs.word32 76, bs.word32 80, bs.word32 84, bs.word32 88, bs.word32 92, bs.word32 96,
    bs.word32 100, bs.word32 104⟩
  caps := (List.range 4).map fun i => bs.word32 (108 + 4 * i)
  reserved2 := bs.word32 124

end Header

namespace Extension

def byteSize : Nat := 20

def ofBytes (bs : Bytes) : Extension :=
  ⟨bs.word32 0, bs.word32 4, bs.word32 8, bs.word32 12, bs.word32 16⟩

end Extension

structure Info where
  header : Header
  extension : Option Extension
  format : PixelFormat
  deriving DecidableEq

namespace Info

def levels (i : Info) : Nat := max i.header.mipMapCount 1

/-- Where the block data begins. -/
def dataStart (i : Info) : Nat :=
  Header.byteSize + if i.extension.isSome then Extension.byteSize else 0

end Info

/-- Four letters as the number that stores them. -/
def dxt1 : Nat := Bytes.toNatLE [0x44, 0x58, 0x54, 0x31]
def dxt3 : Nat := Bytes.toNatLE [0x44, 0x58, 0x54, 0x33]
def dxt5 : Nat := Bytes.toNatLE [0x44, 0x58, 0x54, 0x35]
def dx10 : Nat := Bytes.toNatLE [0x44, 0x58, 0x31, 0x30]

def formatOfFourCC? (code : Nat) : Option PixelFormat :=
  if code = dxt1 then some .bc1
  else if code = dxt3 then some .bc2
  else if code = dxt5 then some .bc3
  else none

/-- The two numbers of the BC7 format differ in the colour space only. -/
def formatOfDxgi? (code : Nat) : Option PixelFormat :=
  if code = 98 ∨ code = 99 then some .bc7 else none

def fourCCText (code : Nat) : String :=
  Text.lossy ((List.range 4).map fun i => ((code >>> (8 * i)) % 256).toUInt8)

def hasFourCC (l : PixelLayout) : Bool := l.flags.testBit 2

/-- Refuses a format that the device does not sample. -/
def requireSupport (s : Support) (f : PixelFormat) : Decode Unit :=
  if s.allows f then .ok () else .refuse (.gpuUnsupported f)

def readInfo (f : OpenFile) (s : Support) : Decode (Info × OpenFile) := do
  let (record, f) ← f.readRecord Header.byteSize
  let h := Header.ofBytes record
  if h.magic ≠ Header.mark then .refuse (.invalidHeader .notDds)
  else
    checkDimensions "DDS" h.width h.height
    if !hasFourCC h.layout then .refuse (.unsupported .ddsWithoutFourCC)
    else if h.layout.fourCC = dx10 then
      let (record, f) ← f.readRecord Extension.byteSize
      let x := Extension.ofBytes record
      match formatOfDxgi? x.dxgiFormat with
      | none => .refuse (.unsupported (.dxgiFormat x.dxgiFormat))
      | some format =>
          requireSupport s format
          return (⟨h, some x, format⟩, f)
    else
      match formatOfFourCC? h.layout.fourCC with
      | none => .refuse (.unsupported (.fourCC (fourCCText h.layout.fourCC)))
      | some format =>
          requireSupport s format
          return (⟨h, none, format⟩, f)

/-- Reads the bytes of one level from where the file stands. -/
def readLevel (f : OpenFile) (format : PixelFormat) (width height : Nat) :
    Decode Bytes × OpenFile :=
  match format.checkedLevelSize? width height with
  | none => (.refuse (.invalidHeader (.ddsLevelTooLarge width height)), f)
  | some size =>
      if bufferLimit ≤ size then (.crash .sizeOverflow, f)
      else
        let (d, f) := f.readFully size
        (d.record size, f)

end TexturePack.Dds
