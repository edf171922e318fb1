import TexturePack.Error

/-! The header of a KTX2 file and the index of its levels. -/
namespace TexturePack.Ktx2

structure ByteRange where
  offset : Nat
  length : Nat
  deriving DecidableEq

/-- A range cannot end beyond the largest word, nor beyond the file. -/
def ByteRange.of? (r : ByteRange) (file : Bytes) : Option Bytes :=
  if wordLimit ≤ r.offset + r.length then none else file.range? r.offset r.length

structure Header where
  identifier : Bytes
  vkFormat : Nat
  typeSize : Nat
  width : Nat
  height : Nat
  depth : Nat
  layers : Nat
  faces : Nat
  levelCount : Nat
  scheme : Nat
  dataFormat : ByteRange
  keyValues : ByteRange
  globalData : ByteRange
  deriving DecidableEq

def identifier : Bytes :=
  [0xAB, 0x4B, 0x54, 0x58, 0x20, 0x32, 0x30, 0xBB, 0x0D, 0x0A, 0x1A, 0x0A]

namespace Header

def byteSize : Nat := 80

def ofBytes (bs : Bytes) : Header where
  identifier := bs.slice 0 12
  vkFormat := bs.word32 12
  typeSize := bs.word32 16
  width := bs.word32 20
  height := bs.word32 24
  depth := bs.word32 28
  layers := bs.word32 32
  faces := bs.word32 36
  levelCount := bs.word32 40
  scheme := bs.word32 44
  dataFormat := ⟨bs.word32 48, bs.word32 52⟩
  keyValues := ⟨bs.word32 56, bs.word32 60⟩
  globalData := ⟨bs.word64 64, bs.word64 72⟩

/-- A count of zero asks for smaller levels to be made; the file then holds one. -/
def levels (h : Header) : Nat := max h.levelCount 1

def validate (h : Header) : Decode Unit :=
  if h.identifier ≠ Ktx2.identifier then .refuse (.invalidHeader .notKtx2)
  else if 1 < h.layers then .refuse (.unsupported (.ktx2Layers h.layers))
  else checkDimensions "KTX2" h.width h.height

end Header

/-- An entry of the level index. -/
structure LevelEntry where
  data : ByteRange
  uncompressedLength : Nat
  deriving DecidableEq

namespace LevelEntry

def byteSize : Nat := 24

def ofBytes (bs : Bytes) : LevelEntry := ⟨⟨bs.word64 0, bs.word64 8⟩, bs.word64 16⟩

end LevelEntry
end TexturePack.Ktx2
