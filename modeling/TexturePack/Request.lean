import TexturePack.Pixel

/-! What a texture asks for: a candidate file for each level, and the size of the texture
beside the size that its files were made for. Sizes of files are scaled by the ratio of
the two. -/
namespace TexturePack

/-- A scaled dimension, where the ratio divides it evenly and it fits 32 bits. -/
def scaleExact? (value num den : Nat) : Option Nat :=
  if den = 0 ∨ value * num % den ≠ 0 ∨ halfWordLimit ≤ value * num / den then none
  else some (value * num / den)

/-- A scaled dimension rounded down, at most the largest of 32 bits. A ratio to nothing
leaves it as it is. -/
def scaleTruncating (value num den : Nat) : Nat :=
  if den = 0 then value else min (value * num / den) (halfWordLimit - 1)

structure Request where
  /-- The file of each level, largest first. An empty name ends the chain. -/
  names : List String
  width : Nat
  height : Nat
  authoredWidth : Nat
  authoredHeight : Nat
  support : Support
  /-- By what the texture is called in diagnostics. -/
  label : String
  deriving DecidableEq

namespace Request

/-- Files are used in their own size. -/
def unscaled (names : List String) (support : Support) (label : String) : Request :=
  ⟨names, 1, 1, 1, 1, support, label⟩

def scaled (r : Request) (width height authoredWidth authoredHeight : Nat) : Request :=
  { r with
    width := width
    height := height
    authoredWidth := authoredWidth
    authoredHeight := authoredHeight }

def rescale? (r : Request) (fileWidth fileHeight : Nat) : Option (Nat × Nat) := do
  let w ← scaleExact? fileWidth r.width r.authoredWidth
  let h ← scaleExact? fileHeight r.height r.authoredHeight
  return (w, h)

def rescaleTruncating (r : Request) (fileWidth fileHeight : Nat) : Nat × Nat :=
  (scaleTruncating fileWidth r.width r.authoredWidth,
    scaleTruncating fileHeight r.height r.authoredHeight)

end Request
end TexturePack
