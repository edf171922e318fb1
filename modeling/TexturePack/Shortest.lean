import TexturePack.Binary64

/-! The shortest decimal that reads back as a given number: of the decimals with the
fewest digits inside the interval that rounds to the number, the nearest. -/
namespace TexturePack.Shortest

/-- The decimals that round to a number, as bounds over a common denominator, and
the number itself. The bounds belong to it if they round to the even mantissa. -/
structure Interval where
  low : Nat
  high : Nat
  value : Nat
  den : Nat
  closed : Bool

/-- Half way to the neighbours; below a power of two the neighbour is half as far. -/
def interval (mantissa scale : Nat) : Interval where
  low :=
    let isPower := mantissa = Binary64.hiddenBit ∧ 0 < scale
    (if isPower then 4 * mantissa - 1 else 4 * mantissa - 2) <<< scale
  high := (4 * mantissa + 2) <<< scale
  value := (4 * mantissa) <<< scale
  den := 4 * Binary64.one
  closed := mantissa % 2 = 0

/-- The place of the point: the least `k` with the number below `10 ^ k`. -/
def pointFrom (num den : Nat) (k : Int) : Nat → Int
  | 0 => k
  | fuel + 1 => if num * 10 < den then pointFrom (num * 10) den (k - 1) fuel else k

def point (num den : Nat) : Int :=
  if den ≤ num then Binary64.digitCount (num / den) else pointFrom num den 0 Binary64.decimalReach

/-- Whether `d * 10 ^ e` lies in the interval. -/
def Interval.contains (i : Interval) (d : Nat) (e : Int) : Bool :=
  let scaled := if 0 ≤ e then d * Nat.pow 10 e.toNat * i.den else d * i.den
  let unit := if 0 ≤ e then 1 else Nat.pow 10 (-e).toNat
  if i.closed then i.low * unit ≤ scaled && scaled ≤ i.high * unit
  else i.low * unit < scaled && scaled < i.high * unit

/-- The multiple of `10 ^ e` just below the number, and whether the next one is
nearer. A number half way between counts as nearer to the even one. -/
def neighbours (i : Interval) (e : Int) : Nat × Bool :=
  let num := if 0 ≤ e then i.value else i.value * Nat.pow 10 (-e).toNat
  let den := if 0 ≤ e then i.den * Nat.pow 10 e.toNat else i.den
  (num / den, roundDiv num den ≠ num / den)

/-- A hit on the grid of multiples of `10 ^ e`. -/
def hit? (i : Interval) (e : Int) : Option Nat :=
  let (below, upNearer) := neighbours i e
  let lower := i.contains below e
  let upper := i.contains (below + 1) e
  if lower && upper then some (if upNearer then below + 1 else below)
  else if lower then some below
  else if upper then some (below + 1)
  else none

/-- Drops zeros at the end. -/
def strip (d : Nat) (e : Int) : Nat → Nat × Int
  | 0 => (d, e)
  | fuel + 1 => if d ≠ 0 ∧ d % 10 = 0 then strip (d / 10) (e + 1) fuel else (d, e)

/-- Ever finer grids, from `digits` digits on. -/
def search (i : Interval) (k : Int) (digits : Nat) : Nat → Nat × Int
  | 0 => (0, 0)
  | fuel + 1 =>
      match hit? i (k - digits) with
      | some d => strip d (k - digits) 20
      | none => search i k (digits + 1) fuel

/-- Significand and exponent of ten of the shortest decimal. -/
def decimal (mantissa scale : Nat) : Nat × Int :=
  if mantissa = 0 then (0, 0)
  else
    let i := interval mantissa scale
    search i (point i.value i.den) 1 17

end TexturePack.Shortest
