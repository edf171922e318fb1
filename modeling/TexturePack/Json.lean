import TexturePack.Binary64

/-! JSON values, and the decimal digits that their texts are written in. Numbers keep
what their text says, so that reading one as a whole number or as a binary one is up to
whoever asks. -/
namespace TexturePack.Text

def digitChar (d : Nat) : Char := Char.ofNat (48 + d % 10)

/-- The digits, most significant first. -/
def digits (n : Nat) : List Char :=
  if n < 10 then [digitChar n] else digits (n / 10) ++ [digitChar n]

def isDigit (c : Char) : Bool := '0' ≤ c && c ≤ '9'

def digitValue (c : Char) : Nat := c.toNat - 48

/-- The number that digits write. -/
def ofDigits (cs : List Char) : Nat := cs.foldl (fun n c => 10 * n + digitValue c) 0

theorem digitValue_digitChar (d : Nat) : digitValue (digitChar d) = d % 10 := by
  have h : d % 10 < 10 := Nat.mod_lt _ (by decide)
  unfold digitChar digitValue
  generalize d % 10 = r at h
  match r, h with
  | 0, _ | 1, _ | 2, _ | 3, _ | 4, _ | 5, _ | 6, _ | 7, _ | 8, _ | 9, _ => rfl

theorem ofDigits_digits (n : Nat) : ofDigits (digits n) = n := by
  induction n using Nat.strongRecOn with
  | ind n ih =>
    unfold digits
    split
    · next h => simp [ofDigits,digitValue_digitChar,Nat.mod_eq_of_lt h]
    · have := ih (n / 10) (by omega)
      simp only [ofDigits] at this
      simp only [ofDigits,List.foldl_append,this,List.foldl_cons,List.foldl_nil,
        digitValue_digitChar]
      omega

end TexturePack.Text

namespace TexturePack.Json

inductive Number where
  /-- Digits alone. -/
  | whole (n : Nat)
  /-- With a sign, a fraction or an exponent: `significand * 10 ^ exponent`. -/
  | decimal (negative : Bool) (significand : Nat) (exponent : Int)
  deriving DecidableEq

/-- Strings may hold half of a surrogate pair, and have no text then. -/
abbrev Str := Option String

inductive Value where
  | null
  | bool (b : Bool)
  | number (n : Number)
  | string (s : Str)
  | array (items : List Value)
  | object (members : List (Str × Value))

namespace Number

/-- A minus sign before digits other than zero alone makes no whole number. -/
def toNat? : Number → Option Nat
  | whole n => some n
  | decimal .. => none

/-- The nearest binary number, unless it would be infinite. -/
def toBinary64? (n : Number) : Option Binary64 :=
  let x := match n with
    | whole n => Binary64.ofDecimal false n 0
    | decimal negative significand exponent => Binary64.ofDecimal negative significand exponent
  if x.magnitude = .infinite then none else some x

end Number
end TexturePack.Json
