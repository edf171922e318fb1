import TexturePack.Json

/-! Reading JSON text. Every reader takes the characters from where it stands and
returns those behind what it read. -/
namespace TexturePack.Json

open Text

def isBlank (c : Char) : Bool := c = ' ' || c = '\n' || c = '\t' || c = '\x0d'

def skipBlank (cs : List Char) : List Char := cs.dropWhile isBlank

def hexValue? (c : Char) : Option Nat :=
  if isDigit c then some (digitValue c)
  else if 'a' ≤ c ∧ c ≤ 'f' then some (c.toNat - 87)
  else if 'A' ≤ c ∧ c ≤ 'F' then some (c.toNat - 55)
  else none

def escape? : Char → Option Nat
  | '"' => some 0x22
  | '\\' => some 0x5C
  | '/' => some 0x2F
  | 'b' => some 0x08
  | 'f' => some 0x0C
  | 'n' => some 0x0A
  | 'r' => some 0x0D
  | 't' => some 0x09
  | _ => none

/-- The code points of a string up to its closing quote, surrogates still apart. -/
def codePoints? : List Char → Option (List Nat × List Char)
  | [] => none
  | '"' :: rest => some ([], rest)
  | '\\' :: 'u' :: a :: b :: c :: d :: rest => do
      let n := 4096 * (← hexValue? a) + 256 * (← hexValue? b) + 16 * (← hexValue? c) +
        (← hexValue? d)
      let (ns, rest) ← codePoints? rest
      return (n :: ns, rest)
  | '\\' :: c :: rest => do
      let n ← escape? c
      let (ns, rest) ← codePoints? rest
      return (n :: ns, rest)
  | c :: rest => do
      if c.toNat < 32 then none
      let (ns, rest) ← codePoints? rest
      return (c.toNat :: ns, rest)

def isLeading (n : Nat) : Bool := 0xD800 ≤ n && n < 0xDC00

def isTrailing (n : Nat) : Bool := 0xDC00 ≤ n && n < 0xE000

/-- Joins surrogate pairs. -/
def characters? : List Nat → Option (List Char)
  | [] => some []
  | high :: low :: rest =>
      if isLeading high then
        if isTrailing low then
          (characters? rest).map
            (Char.ofNat (0x10000 + 0x400 * (high - 0xD800) + (low - 0xDC00)) :: ·)
        else none
      else if isTrailing high then none
      else (characters? (low :: rest)).map (Char.ofNat high :: ·)
  | [n] => if isLeading n || isTrailing n then none else some [Char.ofNat n]

/-- A string behind its opening quote. -/
def string? (cs : List Char) : Option (Str × List Char) := do
  let (ns, rest) ← codePoints? cs
  return ((characters? ns).map String.ofList, rest)

/-- At least one digit. -/
def digits? (cs : List Char) : Option (List Char × List Char) :=
  let found := cs.takeWhile isDigit
  if found.isEmpty then none else some (found, cs.dropWhile isDigit)

/-- Digits without a needless zero in front. -/
def wholePart? (cs : List Char) : Option (List Char × List Char) := do
  let (found, rest) ← digits? cs
  if found.head? = some '0' ∧ found.length ≠ 1 then none
  return (found, rest)

/-- Digits behind a point, none without one. -/
def fraction? : List Char → Option (List Char × List Char)
  | '.' :: rest => digits? rest
  | cs => some ([], cs)

def exponentDigits? (sign : Int) (cs : List Char) : Option (Option Int × List Char) := do
  let (found, rest) ← digits? cs
  return (some (sign * ofDigits found), rest)

def exponent? : List Char → Option (Option Int × List Char)
  | c :: rest =>
      if c = 'e' ∨ c = 'E' then
        match rest with
        | '+' :: rest => exponentDigits? 1 rest
        | '-' :: rest => exponentDigits? (-1) rest
        | rest => exponentDigits? 1 rest
      else some (none, c :: rest)
  | [] => some (none, [])

def unsigned? (negative : Bool) (cs : List Char) : Option (Number × List Char) := do
  let (whole, rest) ← wholePart? cs
  let (fraction, rest) ← fraction? rest
  let (exponent, rest) ← exponent? rest
  if !negative ∧ fraction.isEmpty ∧ exponent.isNone then
    return (.whole (ofDigits whole), rest)
  else
    return (.decimal negative (ofDigits (whole ++ fraction))
      (exponent.getD 0 - fraction.length), rest)

def number? : List Char → Option (Number × List Char)
  | '-' :: rest => unsigned? true rest
  | cs => unsigned? false cs

mutual

/-- A value at the head of the text. No reader calls more than the number of
characters deep. -/
def value? : Nat → List Char → Option (Value × List Char)
  | 0, _ => none
  | fuel + 1, cs =>
      match skipBlank cs with
      | 'n' :: 'u' :: 'l' :: 'l' :: rest => some (.null, rest)
      | 't' :: 'r' :: 'u' :: 'e' :: rest => some (.bool true, rest)
      | 'f' :: 'a' :: 'l' :: 's' :: 'e' :: rest => some (.bool false, rest)
      | '"' :: rest => do
          let (s, rest) ← string? rest
          return (.string s, rest)
      | '[' :: rest =>
          match skipBlank rest with
          | ']' :: rest => some (.array [], rest)
          | rest => do
              let (items, rest) ← items? fuel rest
              return (.array items, rest)
      | '{' :: rest =>
          match skipBlank rest with
          | '}' :: rest => some (.object [], rest)
          | rest => do
              let (members, rest) ← members? fuel rest
              return (.object members, rest)
      | rest => do
          let (n, rest) ← number? rest
          return (.number n, rest)

/-- Items up to the closing bracket. -/
def items? : Nat → List Char → Option (List Value × List Char)
  | 0, _ => none
  | fuel + 1, cs => do
      let (v, rest) ← value? fuel cs
      match skipBlank rest with
      | ']' :: rest => return ([v], rest)
      | ',' :: rest =>
          let (vs, rest) ← items? fuel rest
          return (v :: vs, rest)
      | _ => none

/-- Members up to the closing brace. -/
def members? : Nat → List Char → Option (List (Str × Value) × List Char)
  | 0, _ => none
  | fuel + 1, cs =>
      match skipBlank cs with
      | '"' :: rest => do
          let (key, rest) ← string? rest
          match skipBlank rest with
          | ':' :: rest =>
              let (v, rest) ← value? fuel rest
              match skipBlank rest with
              | '}' :: rest => return ([(key, v)], rest)
              | ',' :: rest =>
                  let (more, rest) ← members? fuel rest
                  return ((key, v) :: more, rest)
              | _ => none
          | _ => none
      | _ => none

end

/-- A whole text: one value and nothing but blanks around it. -/
def parse? (text : String) : Option Value := do
  let cs := text.toList
  let (v, rest) ← value? (2 * cs.length + 2) cs
  if (skipBlank rest).isEmpty then some v else none

end TexturePack.Json
