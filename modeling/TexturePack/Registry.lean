import TexturePack.LevelCache

/-! One cache entry for each content. The registry remembers entries without keeping
them alive: an entry lives as long as somebody else holds it. -/
namespace TexturePack

/-- The identity of a texture's content. -/
structure CacheKey where
  address : Nat
  hash : Nat
  deriving DecidableEq

namespace CacheKey

def hexDigit (n : Nat) : Char := Char.ofNat (if n < 10 then 48 + n else 87 + n)

/-- The last `digits` digits to base 16. -/
def hexDigits (digits n : Nat) : List Char :=
  (List.range digits).map fun i => hexDigit ((n >>> (4 * (digits - 1 - i))) % 16)

/-- The name of the file that replaces the texture unless another one is given. -/
def fileStem (k : CacheKey) : String := String.ofList (hexDigits 16 k.address ++ hexDigits 8 k.hash)

end CacheKey

/-- The entry last created for each key, by number. -/
structure Registry where
  slots : List (CacheKey × Nat)

namespace Registry

def empty : Registry := ⟨[]⟩

def slot? (r : Registry) (key : CacheKey) : Option Nat :=
  (r.slots.find? fun s => s.1 = key).map Prod.snd

def insert (r : Registry) (key : CacheKey) (entry : Nat) : Registry :=
  ⟨(key, entry) :: r.slots.filter fun s => s.1 ≠ key⟩

/-- The living entry of a key, or else the fresh one. -/
def getOrCreate (r : Registry) (live : Nat → Bool) (key : CacheKey) (fresh : Nat) :
    Registry × Nat :=
  match (r.slot? key).filter live with
  | some entry => (r, entry)
  | none => (r.insert key fresh, fresh)

/-- Forgets the keys of dead entries. -/
def prune (r : Registry) (live : Nat → Bool) : Registry := ⟨r.slots.filter fun s => live s.2⟩

/-- Dead entries count until they are pruned. -/
def size (r : Registry) : Nat := r.slots.length

end Registry
end TexturePack
