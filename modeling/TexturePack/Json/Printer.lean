import TexturePack.Json
import TexturePack.Shortest

/-! Writing JSON text over several lines, two blanks deeper for each level. -/
namespace TexturePack.Json

open Text

def hexDigit (n : Nat) : Char := Char.ofNat (if n < 10 then 48 + n else 87 + n)

/-- Quotes, backslashes and control characters are escaped. -/
def escaped (c : Char) : List Char :=
  if c = '"' ∨ c = '\\' then ['\\', c]
  else if c = '\n' then ['\\', 'n']
  else if c = '\t' then ['\\', 't']
  else if c = '\x0d' then ['\\', 'r']
  else if c = '\x08' then ['\\', 'b']
  else if c = '\x0c' then ['\\', 'f']
  else if c.toNat < 32 then ['\\', 'u', '0', '0', hexDigit (c.toNat / 16), hexDigit (c.toNat % 16)]
  else [c]

def quoted (s : String) : List Char := '"' :: (s.toList.flatMap escaped ++ ['"'])

namespace Number

/-- Where the point of a decimal lies for it to be written out in full. -/
def positional (point : Int) : Bool := -5 < point && point ≤ 16

def zeros (n : Nat) : List Char := List.replicate n '0'

/-- Digits with a point after the first `point` of them, and a digit on each side. -/
def writeOut (ds : List Char) (point : Int) : List Char :=
  if point ≤ 0 then '0' :: '.' :: zeros (-point).toNat ++ ds
  else
    let k := point.toNat
    if ds.length ≤ k then ds ++ zeros (k - ds.length) ++ ['.', '0']
    else ds.take k ++ '.' :: ds.drop k

/-- One digit before the point, no point behind a lone digit, and an exponent that
always has a sign. -/
def writeScientific (ds : List Char) (point : Int) : List Char :=
  let e := point - 1
  ds.take 1 ++ (if ds.length ≤ 1 then [] else '.' :: ds.drop 1) ++
    ['e', if e < 0 then '-' else '+'] ++ digits e.natAbs

def write : Number → List Char
  | whole n => digits n
  | decimal negative significand exponent =>
      let ds := digits significand
      let point : Int := if significand = 0 then 1 else ds.length + exponent
      (if negative then ['-'] else []) ++
        if positional point then writeOut ds point else writeScientific ds point

end Number

/-- The shortest text that reads back as the number, or null for what is none. -/
def Value.ofBinary64 (x : Binary64) : Value :=
  match x.magnitude with
  | .finite m s =>
      let (significand, exponent) := Shortest.decimal m s
      .number (.decimal x.negative significand exponent)
  | _ => .null

def indentation (depth : Nat) : List Char := List.replicate (2 * depth) ' '

/-- Lines with a comma after each but the last. -/
def joinLines : List (List Char) → List Char
  | [] => []
  | [line] => line
  | line :: lines => line ++ ',' :: '\n' :: joinLines lines

/-- Lines between two brackets, on the line of the opening one if there are none. -/
def enclose (opening closing : Char) (depth : Nat) (lines : List (List Char)) : List Char :=
  if lines.isEmpty then [opening, closing]
  else opening :: '\n' :: joinLines lines ++ '\n' :: indentation depth ++ [closing]

mutual

def Value.write (depth : Nat) : Value → List Char
  | .null => ['n', 'u', 'l', 'l']
  | .bool true => ['t', 'r', 'u', 'e']
  | .bool false => ['f', 'a', 'l', 's', 'e']
  | .number n => n.write
  | .string s => quoted (s.getD "")
  | .array items => enclose '[' ']' depth (itemLines (depth + 1) items)
  | .object members => enclose '{' '}' depth (memberLines (depth + 1) members)

def itemLines (depth : Nat) : List Value → List (List Char)
  | [] => []
  | v :: vs => (indentation depth ++ v.write depth) :: itemLines depth vs

def memberLines (depth : Nat) : List (Str × Value) → List (List Char)
  | [] => []
  | (key, v) :: ms =>
      (indentation depth ++ quoted (key.getD "") ++ ':' :: ' ' :: v.write depth) ::
        memberLines depth ms

end

def Value.text (v : Value) : String := String.ofList (v.write 0)

end TexturePack.Json
