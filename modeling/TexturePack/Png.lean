import TexturePack.Image
import TexturePack.Png.Setup
import TexturePack.Png.Stream

/-! Decoding of PNG files to images of four bytes a pixel. -/
namespace TexturePack.Png

/-- Images that take more memory than this are refused. -/
def memoryLimit : Nat := 512 * 1024 * 1024

def outputChannels (h : Header) (s : Setup) : Nat :=
  match h.color, s.transparency with
  | .gray, none => 1
  | .gray, some _ | .grayAlpha, _ => 2
  | .rgb, none | .indexed, none => 3
  | .rgb, some _ | .indexed, some _ | .rgba, _ => 4

def fitsMemory (h : Header) (s : Setup) : Bool :=
  h.width * h.height * outputChannels h s * (if h.depth = 16 then 2 else 1) ≤ memoryLimit

/-- The colour at a place, from the pass whose grid it lies on. -/
def colorAt (passes : List (Pass × Array (Array Rgba))) (x y : Nat) : Rgba :=
  match passes.find? fun (p, _) => p.contains x y with
  | some (p, rows) => (rows.getD ((y - p.y) / p.dy) #[]).getD ((x - p.x) / p.dx) Rgba.black
  | none => Rgba.black

/-- A file taken apart: its header, what is said before the pixels, and the compressed
lines. -/
structure Parts where
  header : Header
  setup : Setup
  data : PixelData

def parts? (data : Bytes) : Option Parts := do
  if data.take 8 ≠ signature then none
  let first :: rest := chunks data.length (data.drop 8) | none
  if first.kind ≠ .header ∨ !first.intact then none
  let h ← Header.ofBytes? first.body
  let (s, run) ← setup? h .empty rest
  if h.color = .indexed ∧ s.palette.isNone then none
  if !fitsMemory h s then none
  return ⟨h, s, .ofChunks run⟩

namespace Parts

/-- Whether the image needs its palette and the palette ends within a colour. -/
def brokenPalette (p : Parts) : Bool :=
  p.header.color = .indexed && (p.setup.palette.getD []).length % 3 ≠ 0

/-- Whether the first line can be restored, for which colours are then looked up. What is
wrong behind it has not been seen yet. -/
def reachesColors (p : Parts) (r : Deflate.Inflated) : Bool :=
  let lines := r.output.toList.take (handedOn p.header.room p.data r)
  match p.header.passes.head? with
  | some first =>
      let width := Pass.steps first.x first.dx p.header.width
      (lines? p.header.pixelStep (p.header.lineBytes width) #[] 1 lines).isSome
  | none => false

def hasAlpha (p : Parts) : Bool := p.header.color.storesAlpha || p.setup.transparency.isSome

/-- The pixels row by row. Another chunk has to begin behind them. -/
def pixels? (p : Parts) (r : Deflate.Inflated) : Option Bytes := do
  let h := p.header
  if p.data.ending ≠ .chunk then none
  let found ← passLines? h h.passes (← lineBytes? h.room r)
  let palette := (p.setup.palette.getD []).toArray
  let passes := (h.passes.zip found).map fun (pass, lines) =>
    (pass, (lines.map
      (lineColors h palette p.setup.transparency (Pass.steps pass.x pass.dx h.width))).toArray)
  return (List.range h.height).flatMap fun y =>
    (List.range h.width).flatMap fun x => (colorAt passes x y).bytes

end Parts

def decode (data : Bytes) (levelWidth levelHeight : Nat) : Decode Image :=
  match parts? data with
  | none => .refuse .image
  | some p =>
      let r := decompress p.header.room p.data.pieces
      if p.brokenPalette && p.reachesColors r then .crash .partialColor
      else
        match p.pixels? r with
        | none => .refuse .image
        | some bytes =>
            Image.finish bytes p.header.width p.header.height levelWidth levelHeight p.hasAlpha

end TexturePack.Png
