import TexturePack.Ktx2.Header
import TexturePack.Ktx2.Target

/-! KTX2 files held in memory: a parsed file keeps its bytes, and all ranges of its
index lie inside them. -/
namespace TexturePack.Ktx2

structure File where
  data : Bytes
  header : Header
  index : List LevelEntry
  deriving DecidableEq

/-- The entries of an index of `n` levels. -/
def readIndex (n : Nat) (bs : Bytes) : List LevelEntry :=
  (bs.rows LevelEntry.byteSize n).map .ofBytes

/-- The first level whose bytes are not in the file. -/
def firstOutside? (data : Bytes) (index : List LevelEntry) : Option Nat :=
  index.findIdx? fun e => (e.data.of? data).isNone

namespace File

def parse (data : Bytes) : Decode File :=
  if data.length < Header.byteSize then .refuse (.shortRead Header.byteSize data.length)
  else do
    let h := Header.ofBytes data
    h.validate
    let indexEnd := Header.byteSize + h.levels * LevelEntry.byteSize
    if data.length < indexEnd then .refuse (.shortRead indexEnd data.length)
    else
      let index := readIndex h.levels (data.drop Header.byteSize)
      match firstOutside? data index with
      | some level => .refuse (.invalidHeader (.levelOutsideFile level))
      | none =>
          if (h.globalData.of? data).isNone then .refuse (.invalidHeader .globalDataOutsideFile)
          else .ok ⟨data, h, index⟩

/-- The scheme of ETC1S textures, or else the colour model in the first block of the
data format descriptor, tells the payload. -/
def payload? (f : File) : Option Payload :=
  if f.header.scheme = 1 then some .etc1s
  else
    match f.data[f.header.dataFormat.offset + 12]? with
    | some 166 => some .uastc
    | some 163 => some .etc1s
    | _ => none

def levels (f : File) : Nat := f.index.length

def levelData? (f : File) (level : Nat) : Option Bytes := do
  let e ← f.index[level]?
  e.data.of? f.data

def globalData? (f : File) : Option Bytes :=
  if f.header.globalData.length = 0 then none else f.header.globalData.of? f.data

end File

/-- The size of a level in pixels and in blocks of 4x4. -/
structure LevelGeometry where
  width : Nat
  height : Nat
  blocksX : Nat
  blocksY : Nat
  deriving DecidableEq

/-- The buffer that one transcoded level fills, and the distance of its rows in
pixels or blocks. -/
structure Layout where
  size : Nat
  rowPitch : Nat
  deriving DecidableEq

namespace LevelGeometry

def ofSize (width height : Nat) : LevelGeometry :=
  ⟨width, height, blocksFor width, blocksFor height⟩

def blocks (g : LevelGeometry) : Nat := g.blocksX * g.blocksY

def layout (g : LevelGeometry) (t : Target) : Layout :=
  match t.format.blockSize? with
  | some block => ⟨g.blocks * block, g.blocksX⟩
  | none => ⟨g.width * g.height * 4, g.width⟩

end LevelGeometry

/-- A dimension halved `level` times, at least 1. -/
def halved (dimension level : Nat) : Nat := max (dimension >>> level) 1

/-- The geometry of a level, nothing beyond the last. Dimensions have 32 bits and
cannot be shifted by more. -/
def File.geometry? (f : File) (level : Nat) : Decode (Option LevelGeometry) :=
  if f.levels ≤ level then .ok none
  else if 32 ≤ level then .crash .depthOverflow
  else .ok (some (.ofSize (halved f.header.width level) (halved f.header.height level)))

end TexturePack.Ktx2
