import TexturePack.Png.Scanline

/-! Colours of PNG pixels as red, green, blue and alpha of eight bits each. -/
namespace TexturePack.Png

structure Rgba where
  red : UInt8
  green : UInt8
  blue : UInt8
  alpha : UInt8
  deriving DecidableEq

namespace Rgba

def black : Rgba := ⟨0, 0, 0, 255⟩

def bytes (c : Rgba) : Bytes := [c.red, c.green, c.blue, c.alpha]

end Rgba

/-- A sample on the scale of eight bits. Wide samples are rounded to the nearest,
narrow ones spread over the scale. -/
def toByte (depth v : Nat) : UInt8 :=
  if depth = 16 then ((v + 128) / 257).toUInt8
  else (v * 255 / ((1 <<< depth) - 1)).toUInt8

/-- What makes pixels of an image without alpha transparent. -/
inductive Transparency where
  | key (samples : List Nat)
  | table (alphas : Array UInt8)
  deriving DecidableEq

namespace Transparency

/-- A stored key has two bytes a sample, of which narrow samples use the second. -/
def keySample (depth : Nat) (bs : Bytes) : Nat :=
  Bytes.toNatBE (if depth = 16 then bs else bs.drop 1)

/-- The stored samples of a pixel. Wide samples take up the chunk to its end, so that one
with bytes left over matches no pixel. -/
def keyOfBytes? (depth channels : Nat) (bs : Bytes) : Option Transparency :=
  if bs.length < 2 * channels then none
  else if depth = 16 ∧ bs.length ≠ 2 * channels then some (.key [])
  else some (.key ((List.range channels).map fun i => keySample depth (bs.slice (2 * i) 2)))

/-- More alphas than colours have no effect. -/
def tableOfBytes (palette alphas : Bytes) : Transparency :=
  .table (if alphas.length ≤ palette.length / 3 then alphas.toArray else #[])

/-- A chunk that does not fit the image has no effect. -/
def ofBytes? (h : Header) (palette : Option Bytes) (bs : Bytes) : Option Transparency :=
  match h.color with
  | .gray | .rgb => keyOfBytes? h.depth h.color.channels bs
  | .indexed => palette.map fun p => tableOfBytes p bs
  | .grayAlpha | .rgba => none

def alphaOf (t : Option Transparency) (samples : List Nat) : UInt8 :=
  match t with
  | some (.key k) => if samples = k then 0 else 255
  | some (.table alphas) => alphas.getD (samples.headD 0) 255
  | none => 255

end Transparency

/-- The colour of one pixel. An index beyond the palette is black. -/
def color (h : Header) (palette : Array UInt8) (t : Option Transparency) (samples : List Nat) :
    Rgba :=
  let alpha := Transparency.alphaOf t samples
  match h.color, samples with
  | .gray, [v] => let g := toByte h.depth v; ⟨g, g, g, alpha⟩
  | .rgb, [r, g, b] => ⟨toByte h.depth r, toByte h.depth g, toByte h.depth b, alpha⟩
  | .indexed, [i] =>
      match palette[3 * i]?, palette[3 * i + 1]?, palette[3 * i + 2]? with
      | some r, some g, some b => ⟨r, g, b, alpha⟩
      | _, _, _ => { Rgba.black with alpha := alpha }
  | .grayAlpha, [v, a] => let g := toByte h.depth v; ⟨g, g, g, toByte h.depth a⟩
  | .rgba, [r, g, b, a] => ⟨toByte h.depth r, toByte h.depth g, toByte h.depth b, toByte h.depth a⟩
  | _, _ => Rgba.black

/-- Splits the samples of a line into pixels. -/
def pixels (channels : Nat) : Nat → List Nat → List (List Nat)
  | 0, _ => []
  | count + 1, samples => samples.take channels :: pixels channels count (samples.drop channels)

def lineColors (h : Header) (palette : Array UInt8) (t : Option Transparency) (width : Nat)
    (line : Array UInt8) : Array Rgba :=
  ((pixels h.color.channels width (samples h.depth line.toList)).map (color h palette t)).toArray

end TexturePack.Png
