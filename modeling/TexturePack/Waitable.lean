import TexturePack.Load

/-! What tasks tell of themselves: the signal of one that has ended, and how far the decode task of
a texture has come. Between two of its steps other tasks and the owners of textures may do
something. -/
namespace TexturePack

/-- A signal that is given once and stays. -/
structure Waitable where
  done : Bool
  deriving DecidableEq

namespace Waitable

def create : Waitable := ⟨false⟩

def notify (_ : Waitable) : Waitable := ⟨true⟩

end Waitable

inductive Progress where
  | queued
  /-- The load has ended, and the cache entry is free again. -/
  | loaded (outcome : LoadOutcome) (generation : Nat)
  /-- The load has crashed, and the entry still holds what it stored. -/
  | crashed
  /-- The entry has been emptied after a crash. -/
  | discarded
  /-- The fields of the texture are written, and the files of its old levels given back. -/
  | committed (found : Bool)
  /-- The state of the texture is written. The task holds the files no longer. -/
  | published
  /-- The end has been signalled. -/
  | finished
  deriving DecidableEq

namespace Progress

/-- A task that has not published yet keeps the files alive. -/
def holdsFiles : Progress → Bool
  | published | finished => false
  | _ => true

/-- An upper bound of the steps that are left. -/
def remaining : Progress → Nat
  | queued => 5
  | loaded .. => 3
  | crashed => 4
  | discarded => 3
  | committed _ => 2
  | published => 1
  | finished => 0

end Progress

structure DecodeTask where
  /-- The number of the texture. -/
  texture : Nat
  progress : Progress
  deriving DecidableEq

end TexturePack
