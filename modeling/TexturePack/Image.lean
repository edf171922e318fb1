import TexturePack.Error

/-! Images of four bytes a pixel: red, green, blue, alpha. An image is placed in
the upper left corner of its level, and transparent black fills the rest. -/
namespace TexturePack

structure Image where
  pixels : Bytes
  width : Nat
  height : Nat
  alpha : Alpha
  deriving DecidableEq

namespace Image

/-- Whether some whole pixel of a row is not fully covered. -/
def translucent : Bytes → Bool
  | _ :: _ :: _ :: a :: rest => a != 0xFF || translucent rest
  | _ => false

/-- Looks at the upper left `width` x `height` pixels of rows `stride` pixels
apart. -/
def scanAlpha (pixels : Bytes) (stride width height : Nat) : Decode Alpha :=
  if stride = 0 then .crash .emptyRow
  else if (pixels.rows (4 * stride) height).any fun row => translucent (row.take (4 * width)) then
    .ok .transparent
  else
    .ok .solid

/-- One row of the image in a row of the level. -/
def padRow (width levelWidth : Nat) (row : Bytes) : Bytes :=
  row ++ Bytes.zeros (4 * (levelWidth - width))

/-- Equal widths copy in one block, other images row by row. -/
def padIntoLevel (image : Bytes) (width height levelWidth levelHeight : Nat) : Decode Bytes :=
  if levelWidth < width ∨ levelHeight < height then
    .refuse (.sizeChanged width height levelWidth levelHeight)
  else if wordLimit ≤ 4 * width * height then .crash .sizeOverflow
  else if image.length < 4 * width * height then
    .refuse (.shortRead (4 * width * height) image.length)
  else if bufferLimit ≤ 4 * levelWidth * levelHeight then .crash .sizeOverflow
  else if width = levelWidth then
    .ok (image.take (4 * width * height) ++ Bytes.zeros (4 * levelWidth * (levelHeight - height)))
  else if width = 0 then .crash .emptyRow
  else
    .ok (((image.rows (4 * width) height).map (padRow width levelWidth)).flatten ++
      Bytes.zeros (4 * levelWidth * (levelHeight - height)))

/-- Pads an image into its level. Only an image whose file stores alpha is
searched for transparent pixels. -/
def finish (image : Bytes) (width height levelWidth levelHeight : Nat) (hasAlpha : Bool) :
    Decode Image := do
  let pixels ← padIntoLevel image width height levelWidth levelHeight
  let alpha ← if hasAlpha then scanAlpha pixels levelWidth width height else .ok .solid
  return ⟨pixels, width, height, alpha⟩

end Image
end TexturePack
