import TexturePack.Bytes

/-! Bits of a byte string, lowest bit of each byte first, and prefix codes given
by the lengths of their code words. -/
namespace TexturePack.Deflate

/-- Why no more data comes out of a stream. -/
inductive Stop where
  | corrupt
  | truncated
  /-- There is no room for more. -/
  | full
  deriving DecidableEq

abbrev Read (α : Type) := Except Stop α

/-- The bit at a position counted in bits. -/
def bitAt? (input : Array UInt8) (position : Nat) : Option Nat :=
  (input[position / 8]?).map fun b => (b.toNat >>> (position % 8)) % 2

/-- The next `n` bits as a number, lowest bit first. -/
def bits (input : Array UInt8) (position : Nat) : Nat → Read Nat
  | 0 => .ok 0
  | n + 1 => do
      let some b := bitAt? input position | .error .truncated
      let high ← bits input (position + 1) n
      return b + 2 * high

/-- A prefix code: how many words have each length up to 15, the symbols in the
order of their words, and the length of the longest word, which is 1 for a code
without words. -/
structure Code where
  counts : Array Nat
  symbols : Array Nat
  longest : Nat

namespace Code

def maxLength : Nat := 15

def countOf (lengths : List Nat) (length : Nat) : Nat := lengths.countP (· = length)

/-- Words of each length claim a share of 2^15; the whole is claimed exactly by
a complete code. -/
def claimed (lengths : List Nat) : Nat :=
  (List.range maxLength).foldl (fun n i =>
    n + countOf lengths (i + 1) <<< (maxLength - (i + 1))) 0

def used (lengths : List Nat) : Nat := lengths.countP (· ≠ 0)

/-- Every string of bits begins with a word. -/
def complete (lengths : List Nat) : Bool := claimed lengths = 1 <<< maxLength

/-- Only a code without words or with one word of one bit may leave strings unused. -/
def nearlyComplete (lengths : List Nat) : Bool :=
  complete lengths || used lengths = 0 || (used lengths = 1 && countOf lengths 1 = 1)

def ofLengths (lengths : List Nat) : Code where
  counts := ((List.range (maxLength + 1)).map fun l =>
    if l = 0 then 0 else countOf lengths l).toArray
  symbols := ((List.range maxLength).flatMap fun i =>
    (lengths.zipIdx.filter fun p => p.1 = i + 1).map Prod.snd).toArray
  longest := lengths.foldl max 1

/-- Follows the bits from `position` on. `first` is the first word of the present
length and `index` the place of its symbol. -/
def walk (c : Code) (input : Array UInt8) (position length word first index : Nat) :
    Nat → Read (Nat × Nat)
  | 0 => .error .corrupt
  | fuel + 1 => do
      let some b := bitAt? input position | .error .truncated
      let word := 2 * word + b
      let count := c.counts.getD length 0
      if word < first + count then
        match c.symbols[index + (word - first)]? with
        | some symbol => return (symbol, position + 1)
        | none => .error .corrupt
      else
        c.walk input (position + 1) (length + 1) word (2 * (first + count)) (index + count) fuel

/-- The next symbol and the position after its word. More bits than the longest word
has are not asked for. -/
def next (c : Code) (input : Array UInt8) (position : Nat) : Read (Nat × Nat) :=
  c.walk input position 1 0 0 0 c.longest

end Code
end TexturePack.Deflate
