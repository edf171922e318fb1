import TexturePack.Png.Header

/-! Lines of a PNG image. Each line is stored as differences from its neighbours,
and an interlaced image as seven passes over ever finer grids. -/
namespace TexturePack.Png

/-- The neighbour, left, above or diagonal, closest to their linear prediction. -/
def paeth (left up diagonal : Nat) : Nat :=
  let p : Int := left + up - diagonal
  let fromLeft := (p - left).natAbs
  let fromUp := (p - up).natAbs
  let fromDiagonal := (p - diagonal).natAbs
  if fromLeft ≤ fromUp ∧ fromLeft ≤ fromDiagonal then left
  else if fromUp ≤ fromDiagonal then up
  else diagonal

def predict? (filter : UInt8) (left up diagonal : Nat) : Option Nat :=
  match filter with
  | 0 => some 0
  | 1 => some left
  | 2 => some up
  | 3 => some ((left + up) / 2)
  | 4 => some (paeth left up diagonal)
  | _ => none

/-- Adds the prediction to each byte of a line. -/
def restore? (filter : UInt8) (step : Nat) (above : Array UInt8) (line : Bytes) :
    Option (Array UInt8) :=
  line.foldlM (fun done x => do
    let i := done.size
    let left := if step ≤ i then done.getD (i - step) 0 else 0
    let diagonal := if step ≤ i then above.getD (i - step) 0 else 0
    let p ← predict? filter left.toNat (above.getD i 0).toNat diagonal.toNat
    return done.push (x + p.toUInt8)) #[]

/-- Restores `count` lines of `width` bytes, each behind the byte that names its
filter, and returns them with the bytes behind them. -/
def lines? (step width : Nat) (above : Array UInt8) :
    Nat → Bytes → Option (List (Array UInt8) × Bytes)
  | 0, bs => some ([], bs)
  | _ + 1, [] => none
  | count + 1, filter :: bs => do
      if bs.length < width then none
      let line ← restore? filter step above (bs.take width)
      let (rest, behind) ← lines? step width line count (bs.drop width)
      return (line :: rest, behind)

/-- Samples of two bytes. -/
def wideSamples : Bytes → List Nat
  | high :: low :: rest => (256 * high.toNat + low.toNat) :: wideSamples rest
  | _ => []

/-- The samples of a line, most significant bits first. -/
def samples (depth : Nat) (line : Bytes) : List Nat :=
  if depth = 16 then wideSamples line
  else line.flatMap fun b =>
    (List.range (8 / depth)).map fun i => (b.toNat >>> (8 - depth * (i + 1))) % (1 <<< depth)

/-- A grid of pixels inside the image. -/
structure Pass where
  x : Nat
  y : Nat
  dx : Nat
  dy : Nat

namespace Pass

def whole : List Pass := [⟨0, 0, 1, 1⟩]

def interlaced : List Pass :=
  [⟨0, 0, 8, 8⟩, ⟨4, 0, 8, 8⟩, ⟨0, 4, 4, 8⟩, ⟨2, 0, 4, 4⟩, ⟨0, 2, 2, 4⟩, ⟨1, 0, 2, 2⟩, ⟨0, 1, 1, 2⟩]

/-- How many steps of a grid fit below a bound. -/
def steps (start step bound : Nat) : Nat := (bound - start + step - 1) / step

def contains (p : Pass) (x y : Nat) : Bool :=
  p.x ≤ x && p.y ≤ y && (x - p.x) % p.dx = 0 && (y - p.y) % p.dy = 0

end Pass

def Header.passes (h : Header) : List Pass := if h.interlaced then Pass.interlaced else Pass.whole

/-- The lines of every pass. A pass without pixels stores nothing. -/
def passLines? (h : Header) : List Pass → Bytes → Option (List (List (Array UInt8)))
  | [], _ => some []
  | p :: ps, bs => do
      let width := Pass.steps p.x p.dx h.width
      let height := if width = 0 then 0 else Pass.steps p.y p.dy h.height
      let (found, behind) ← lines? h.pixelStep (h.lineBytes width) #[] height bs
      let rest ← passLines? h ps behind
      return found :: rest

end TexturePack.Png
