import TexturePack.Deflate.Code

/-! Decompression of DEFLATE streams: stored blocks, blocks with the fixed codes,
and blocks that bring their own codes. -/
namespace TexturePack.Deflate

/-- What a copy from before the start of the output means. A decoder that keeps a
window of its own finds zeros there, one that works in the output has nothing. -/
inductive FarCopy where
  | zeros
  | corrupt
  deriving DecidableEq

/-- How a decoder treats what the format leaves open. Some wait for more bits than the
next step needs, which shows where a stream breaks off. -/
structure Dialect where
  far : FarCopy
  /-- Whether a code of literals has to be complete and to have a word for the end of
  its block. -/
  strict : Bool
  /-- How many bits have to be there before the header of a block is looked at. -/
  headerBits : Nat
  /-- How many bits have to be there before the next code length is looked at. -/
  lengthBits : Nat
  /-- Two literals whose words have no more bits than this together are taken at once. -/
  pairBits : Nat
  /-- How many bits have to be there before the word of a distance is found wrong. -/
  distanceBits : Nat
  /-- How many bits have to be there before the end of a block is looked for while there is
  no room for more. -/
  endBits : Nat
  /-- How many bytes there is room for, if there is a bound. -/
  room : Option Nat

namespace Dialect

/-- Decoders that hand over what they have while they go on. -/
def streaming : Dialect := ⟨.zeros, false, 1, 0, 0, 0, 0, none⟩

/-- Decoders that fill a buffer of a known size. -/
def filling (room : Nat) : Dialect := ⟨.corrupt, true, 10, 7, 12, 10, 15, some room⟩

/-- How many of some bytes still fit behind the output. -/
def fitting (d : Dialect) (output : Array UInt8) (count : Nat) : Nat :=
  match d.room with
  | none => count
  | some room => min count (room - output.size)

def isFull (d : Dialect) (output : Array UInt8) : Bool := d.room.any (· ≤ output.size)

end Dialect

/-- Everything that came out, the bit position after it, and what stopped it. -/
structure Inflated where
  output : Array UInt8
  position : Nat
  stop : Option Stop

def lengthBase : Array Nat :=
  #[3, 4, 5, 6, 7, 8, 9, 10, 11, 13, 15, 17, 19, 23, 27, 31, 35, 43, 51, 59, 67, 83, 99, 115, 131,
    163, 195, 227, 258]

def lengthExtra : Array Nat :=
  #[0, 0, 0, 0, 0, 0, 0, 0, 1, 1, 1, 1, 2, 2, 2, 2, 3, 3, 3, 3, 4, 4, 4, 4, 5, 5, 5, 5, 0]

def distanceBase : Array Nat :=
  #[1, 2, 3, 4, 5, 7, 9, 13, 17, 25, 33, 49, 65, 97, 129, 193, 257, 385, 513, 769, 1025, 1537, 2049,
    3073, 4097, 6145, 8193, 12289, 16385, 24577]

def distanceExtra : Array Nat :=
  #[0, 0, 0, 0, 1, 1, 2, 2, 3, 3, 4, 4, 5, 5, 6, 6, 7, 7, 8, 8, 9, 9, 10, 10, 11, 11, 12, 12,
    13, 13]

/-- Repeats what lies `distance` bytes back, byte by byte. -/
def copyBack (output : Array UInt8) (distance : Nat) : Nat → Array UInt8
  | 0 => output
  | n + 1 =>
      let b := if distance ≤ output.size then output.getD (output.size - distance) 0 else 0
      copyBack (output.push b) distance n

/-- A base value and some extra bits, from the row of a table. -/
def extended (input : Array UInt8) (position : Nat) (base extra : Array Nat) (row : Nat) :
    Read (Nat × Nat) := do
  let some b := base[row]? | .error .corrupt
  let some n := extra[row]? | .error .corrupt
  let more ← bits input position n
  return (b + more, position + n)

/-- Whether `count` more bits are there. -/
def available (input : Array UInt8) (position count : Nat) : Bool :=
  position + count ≤ 8 * input.size

inductive Symbol where
  | literal (byte : UInt8)
  | endOfBlock
  | copy (length distance : Nat)

/-- How far back the bytes to repeat lie, and the position after the word that says so. -/
def nextDistance (d : Dialect) (distances : Code) (input : Array UInt8) (position : Nat) :
    Read (Nat × Nat) :=
  let found : Read (Nat × Nat) := do
    let (row, position) ← distances.next input position
    extended input position distanceBase distanceExtra row
  match found with
  | .error .corrupt =>
      .error (if available input position d.distanceBits then .corrupt else .truncated)
  | r => r

/-- The next symbol of a compressed block and the position after it. -/
def nextSymbol (d : Dialect) (literals distances : Code) (input : Array UInt8) (position : Nat) :
    Read (Symbol × Nat) := do
  let (s, position) ← literals.next input position
  if s < 256 then return (.literal s.toUInt8, position)
  if s = 256 then return (.endOfBlock, position)
  let (length, position) ← extended input position lengthBase lengthExtra (s - 257)
  let (distance, position) ← nextDistance d distances input position
  return (.copy length distance, position)

/-- Whether a literal with a word of `length` bits makes a pair with one of `other` bits in
front of it. A word of one bit is never the second of a pair. -/
def Dialect.pairs (d : Dialect) (other length : Nat) : Bool :=
  0 < other && 2 ≤ length && other + length ≤ d.pairBits

/-- Whether the bits behind a literal look like the other one of a pair but are not all
there. Behind the end of the input zeros are seen. -/
def Dialect.awaitsPair (d : Dialect) (literals : Code) (input : Array UInt8)
    (position length : Nat) : Bool :=
  !available input position d.pairBits &&
    match literals.next (input ++ #[0, 0]) (position + length) with
    | .ok (s, behind) =>
        s < 256 && d.pairs length (behind - (position + length)) && 8 * input.size < behind
    | .error _ => false

/-- What to do where there is no room for more: a block may still end. -/
def atEnd (d : Dialect) (literals : Code) (input : Array UInt8) (position : Nat)
    (output : Array UInt8) : Inflated :=
  if !available input position d.endBits then ⟨output, position, some .full⟩
  else
    match literals.next input position with
    | .ok (256, position) => ⟨output, position, none⟩
    | _ => ⟨output, position, some .full⟩

/-- The symbols of one block, as long as there is room. Every symbol takes at least
one bit, so the number of bits bounds their number. `first` is the length of the word of
the literal before, if the next may make a pair with it, and else zero. -/
def symbols (d : Dialect) (literals distances : Code) (input : Array UInt8) (position first : Nat)
    (output : Array UInt8) : Nat → Inflated
  | 0 => ⟨output, position, some .truncated⟩
  | fuel + 1 =>
      if d.isFull output then atEnd d literals input position output
      else
        match nextSymbol d literals distances input position with
        | .error stop => ⟨output, position, some stop⟩
        | .ok (.endOfBlock, behind) => ⟨output, behind, none⟩
        | .ok (.literal b, behind) =>
            let length := behind - position
            if d.pairs first length then
              symbols d literals distances input behind 0 (output.push b) fuel
            else if d.awaitsPair literals input position length then
              ⟨output, position, some .truncated⟩
            else symbols d literals distances input behind length (output.push b) fuel
        | .ok (.copy length distance, behind) =>
            let fitting := d.fitting output length
            if d.far = .corrupt ∧ output.size < distance then ⟨output, position, some .corrupt⟩
            else if fitting < length then ⟨copyBack output distance fitting, behind, some .full⟩
            else
              symbols d literals distances input behind 0 (copyBack output distance length) fuel

def fixedLiterals : List Nat :=
  List.replicate 144 8 ++ List.replicate 112 9 ++ List.replicate 24 7 ++ List.replicate 8 8

def fixedDistances : List Nat := List.replicate 32 5

/-- The order in which a block states the lengths of its length code. -/
def lengthOrder : List Nat := [16, 17, 18, 0, 8, 7, 9, 6, 10, 5, 11, 4, 12, 3, 13, 2, 14, 1, 15]

/-- Numbers of three bits each. -/
def tripleBits (input : Array UInt8) (position : Nat) : Nat → Read (List Nat)
  | 0 => return []
  | n + 1 => do
      let b ← bits input position 3
      let rest ← tripleBits input (position + 3) n
      return b :: rest

/-- The lengths of both codes of a block in reverse order, written with the length
code and with repetitions. A repetition may not pass the end. -/
def codeLengths (d : Dialect) (code : Code) (input : Array UInt8) (total position : Nat)
    (done : List Nat) : Nat → Read (List Nat × Nat)
  | 0 => .error .corrupt
  | fuel + 1 => do
      if total ≤ done.length then
        if done.length = total then return (done, position) else .error .corrupt
      else if !available input position d.lengthBits then .error .truncated
      else
        let (s, position) ← code.next input position
        if s < 16 then codeLengths d code input total position (s :: done) fuel
        else if s = 16 then
          match done with
          | [] => .error .corrupt
          | last :: _ =>
              let n ← bits input position 2
              let done := List.replicate (n + 3) last ++ done
              codeLengths d code input total (position + 2) done fuel
        else if s = 17 then
          let n ← bits input position 3
          codeLengths d code input total (position + 3) (List.replicate (n + 3) 0 ++ done) fuel
        else
          let n ← bits input position 7
          codeLengths d code input total (position + 7) (List.replicate (n + 11) 0 ++ done) fuel

/-- Whether a decoder takes a code of literals. Symbol 256 ends a block. -/
def Dialect.takesLiterals (d : Dialect) (lengths : List Nat) : Bool :=
  if d.strict then Code.complete lengths && lengths.getD 256 0 ≠ 0
  else Code.nearlyComplete lengths

/-- The two codes that a block brings along, and the position after them. -/
def ownCodes (d : Dialect) (input : Array UInt8) (position : Nat) : Read (Code × Code × Nat) := do
  let literals ← bits input position 5
  let distances ← bits input (position + 5) 5
  let stated ← bits input (position + 10) 4
  if 286 < literals + 257 ∨ 30 < distances + 1 then .error .corrupt
  let given ← tripleBits input (position + 14) (stated + 4)
  let position := position + 14 + 3 * (stated + 4)
  let lengths := (List.range 19).map fun s =>
    ((lengthOrder.zip given).find? fun p => p.1 = s).elim 0 Prod.snd
  if !Code.complete lengths then .error .corrupt
  let total := literals + 257 + (distances + 1)
  let (done, position) ← codeLengths d (.ofLengths lengths) input total position [] (total + 1)
  let all := done.reverse
  let literalLengths := all.take (literals + 257)
  let distanceLengths := all.drop (literals + 257)
  if !d.takesLiterals literalLengths ∨ !Code.nearlyComplete distanceLengths then .error .corrupt
  return (.ofLengths literalLengths, .ofLengths distanceLengths, position)

/-- A stored block: its length, the length's complement, and the bytes as they are. -/
def stored (d : Dialect) (input : Array UInt8) (position : Nat) (output : Array UInt8) : Inflated :=
  let start := (position + 7) / 8
  let header : Bytes := (input.extract start (start + 4)).toList
  if header.length < 4 then ⟨output, position, some .truncated⟩
  else
    let length := header.word16 0
    if header.word16 2 ≠ 65535 - length then ⟨output, position, some .corrupt⟩
    else
      let wanted := d.fitting output length
      let data := input.extract (start + 4) (start + 4 + wanted)
      ⟨output ++ data, 8 * (start + 4 + data.size),
        if data.size < wanted then some .truncated
        else if wanted < length then some .full else none⟩

/-- A block with the fixed codes. The first of them ends a block with seven zeros, which
takes no room. -/
def fixed (d : Dialect) (input : Array UInt8) (position : Nat) (output : Array UInt8) : Inflated :=
  match bits input position 7 with
  | .ok 0 => ⟨output, position + 7, none⟩
  | _ =>
      symbols d (.ofLengths fixedLiterals) (.ofLengths fixedDistances) input position 0 output
        (8 * input.size + 1)

/-- A block with codes of its own. -/
def coded (d : Dialect) (input : Array UInt8) (position : Nat) (output : Array UInt8) : Inflated :=
  match ownCodes d input position with
  | .error stop => ⟨output, position, some stop⟩
  | .ok (literals, distances, position) =>
      symbols d literals distances input position 0 output (8 * input.size + 1)

def block (d : Dialect) (input : Array UInt8) (position : Nat) (output : Array UInt8) : Inflated :=
  match bits input position 2 with
  | .error stop => ⟨output, position, some stop⟩
  | .ok kind =>
      match kind with
      | 0 => stored d input (position + 2) output
      | 1 => fixed d input (position + 2) output
      | 2 => coded d input (position + 2) output
      | _ => ⟨output, position + 2, some .corrupt⟩

/-- Blocks up to the one marked as last. -/
def blocks (d : Dialect) (input : Array UInt8) (position : Nat) (output : Array UInt8) :
    Nat → Inflated
  | 0 => ⟨output, position, some .truncated⟩
  | fuel + 1 =>
      if !available input position d.headerBits then ⟨output, position, some .truncated⟩
      else
        match bits input position 1 with
        | .error stop => ⟨output, position, some stop⟩
        | .ok last =>
            let r := block d input (position + 1) output
            if r.stop.isSome ∨ last = 1 then r else blocks d input r.position r.output fuel

/-- Decompresses the stream that starts at a byte offset. -/
def inflate (d : Dialect) (input : Array UInt8) (start : Nat) : Inflated :=
  blocks d input (8 * start) #[] (8 * input.size + 1)

end TexturePack.Deflate
