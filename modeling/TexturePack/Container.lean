import TexturePack.OpenFile

/-! Kinds of image files, told apart by their first four bytes. -/
namespace TexturePack

inductive Container where
  | png
  | zim
  | dds
  | basis
  | ktx2
  | invalid
  deriving DecidableEq

namespace Container

def name : Container → String
  | png => "Png"
  | zim => "Zim"
  | dds => "Dds"
  | basis => "Basis"
  | ktx2 => "Ktx2"
  | invalid => "Invalid"

/-- Basis files begin with a two letter mark and a version of at least 16. -/
def ofMagic : Bytes → Container
  | [0x5A, 0x49, 0x4D, 0x47] => zim
  | [0x89, 0x50, 0x4E, 0x47] => png
  | [0x44, 0x44, 0x53, 0x20] => dds
  | [0x73, 0x42, low, high] => if 0x10 ≤ Bytes.toNatLE [low, high] then basis else invalid
  | [0xAB, 0x4B, 0x54, 0x58] => ktx2
  | _ => invalid

end Container

/-- What the first bytes of a file say, and how they read as text. -/
structure Identified where
  container : Container
  magic : String
  deriving DecidableEq

namespace Identified

def printable (b : UInt8) : Char :=
  if 32 ≤ b.toNat ∧ b.toNat < 127 then Char.ofNat b.toNat else '_'

def unreadable : Identified := ⟨.invalid, "FAIL"⟩

end Identified

/-- Reads the magic and goes back to the start. A file that cannot go back stays
behind its magic, and one too short to have a magic stays where it ended. -/
def OpenFile.identify (f : OpenFile) : Identified × OpenFile :=
  let (d, f) := f.readFully 4
  if d.failed || d.bytes.length != 4 then (.unreadable, f)
  else
    let found := ⟨.ofMagic d.bytes, String.ofList (d.bytes.map Identified.printable)⟩
    match f.rewind with
    | .ok rewound => (found, rewound)
    | .error _ => (found, f)

end TexturePack
