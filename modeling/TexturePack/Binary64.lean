import TexturePack.Bytes

/-! Binary floating point numbers of 64 bits, as their bits and as the exact
numbers these stand for. All arithmetic is on natural numbers. -/
namespace TexturePack

structure Binary64 where
  bits : UInt64
  deriving DecidableEq

namespace Binary64

/-- A finite number is a sign and `mantissa * 2 ^ (scale - 1074)`. -/
inductive Class where
  | nan
  | infinite
  | finite (mantissa scale : Nat)
  deriving DecidableEq

/-- The bit of the sign. -/
def signBit : Nat := 0x8000000000000000

/-- The bit that numbers with an exponent above zero do not store. -/
def hiddenBit : Nat := 0x10000000000000

/-- The number one on the scale of the smallest number. -/
def one : Nat := 1 <<< 1074

def negative (x : Binary64) : Bool := signBit ≤ x.bits.toNat

def exponentField (x : Binary64) : Nat := x.bits.toNat / hiddenBit % 2048

def fractionField (x : Binary64) : Nat := x.bits.toNat % hiddenBit

/-- What the number is without its sign. Only numbers with an exponent above zero
have the hidden bit. -/
def magnitude (x : Binary64) : Class :=
  if x.exponentField = 2047 then
    if x.fractionField = 0 then .infinite else .nan
  else if x.exponentField = 0 then .finite x.fractionField 0
  else .finite (hiddenBit + x.fractionField) (x.exponentField - 1)

def isNaN (x : Binary64) : Bool := x.magnitude = .nan

def isZero (x : Binary64) : Bool := x.magnitude = .finite 0 0

/-- Below zero: neither NaN nor a zero with a sign. -/
def isBelowZero (x : Binary64) : Bool := x.negative && !x.isNaN && !x.isZero

/-- Equality of numbers: NaN equals nothing, and the zeros are equal. -/
def numericallyEqual (x y : Binary64) : Bool :=
  !x.isNaN && !y.isNaN && (x = y || (x.isZero && y.isZero))

def infinityBits : Nat := 2047 * hiddenBit

def withSign (negative : Bool) (bits : Nat) : Binary64 :=
  ⟨UInt64.ofNat (if negative then signBit + bits else bits)⟩

end Binary64

/-- The nearest integer to a quotient; a half goes to the even neighbour. -/
def roundDiv (num den : Nat) : Nat :=
  let q := num / den
  let r := num % den
  if 2 * r < den then q
  else if den < 2 * r then q + 1
  else q + q % 2

namespace Binary64

/-- The exponent of the highest power of two that does not exceed the quotient. -/
def floorLog2 (num den : Nat) : Int :=
  let e : Int := (num.log2 : Int) - den.log2
  let reached := if 0 ≤ e then den <<< e.toNat ≤ num else den ≤ num <<< (-e).toNat
  if reached then e else e - 1

/-- The number nearest to a quotient; a half goes to the even mantissa, and what
lies beyond the largest number becomes infinite. -/
def ofRatio (negative : Bool) (num den : Nat) : Binary64 :=
  if num = 0 then withSign negative 0
  else
    let unit := max (floorLog2 num den - 52) (-1074)
    let mantissa :=
      if 0 ≤ unit then roundDiv num (den <<< unit.toNat)
      else roundDiv (num <<< (-unit).toNat) den
    withSign negative (min infinityBits ((unit + 1074).toNat * hiddenBit + mantissa))

/-- Powers of ten beyond these decide on zero and infinity at once. -/
def decimalReach : Nat := 400

def digitCount (n : Nat) : Nat := if n < 10 then 1 else digitCount (n / 10) + 1

/-- The number nearest to `significand * 10 ^ exponent`. -/
def ofDecimal (negative : Bool) (significand : Nat) (exponent : Int) : Binary64 :=
  let size : Int := digitCount significand + exponent
  if significand = 0 ∨ size < -(decimalReach : Int) then withSign negative 0
  else if (decimalReach : Int) < size then withSign negative infinityBits
  else if 0 ≤ exponent then ofRatio negative (significand * Nat.pow 10 exponent.toNat) 1
  else ofRatio negative significand (Nat.pow 10 (-exponent).toNat)

def ofNat (n : Nat) : Binary64 := ofRatio false n 1

def divNat (x : Binary64) (n : Nat) : Binary64 :=
  match x.magnitude with
  | .finite m s => ofRatio x.negative (m <<< s) (one * n)
  | _ => x

end Binary64
end TexturePack
