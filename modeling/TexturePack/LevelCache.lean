import TexturePack.Timeout
import TexturePack.Pixel

/-! Decoded levels kept for all textures of the same content. A purge drops the bytes
and counts up the generation, by which textures notice that theirs are gone. -/
namespace TexturePack

structure LevelData where
  format : PixelFormat
  /-- A level of no bytes is not decoded yet. -/
  levels : List Bytes
  alpha : Alpha
  deriving DecidableEq

namespace LevelData

def empty : LevelData := ⟨.undefined, [], .unknown⟩

/-- The bytes of a level, if it has any. -/
def level? (d : LevelData) (i : Nat) : Option Bytes :=
  match d.levels[i]? with
  | some (b :: bs) => some (b :: bs)
  | _ => none

def has (d : LevelData) (i : Nat) : Bool := (d.level? i).isSome

/-- Stores a level, behind empty ones where there are too few. -/
def put (d : LevelData) (i : Nat) (bytes : Bytes) : LevelData :=
  if i < d.levels.length then { d with levels := d.levels.set i bytes }
  else { d with levels := d.levels ++ List.replicate (i - d.levels.length) [] ++ [bytes] }

/-- Empties a level without moving those behind it. -/
def clear (d : LevelData) (i : Nat) : LevelData := { d with levels := d.levels.set i [] }

def isEmpty (d : LevelData) : Bool := d.levels.all List.isEmpty

end LevelData

structure CacheEntry where
  data : LevelData
  /-- When the entry came to be. -/
  epoch : Instant
  /-- The latest use, in microseconds since then. -/
  lastUse : Nat
  /-- How often bytes have been dropped. -/
  generation : Nat
  deriving DecidableEq

namespace CacheEntry

def create (now : Instant) : CacheEntry := ⟨.empty, now, 0, 0⟩

/-- Where an instant lies on the clock of the entry, which does not run before its
epoch. -/
def offset (e : CacheEntry) (t : Instant) : Nat := min (t.microsecondsSince e.epoch) (wordLimit - 1)

/-- Records a use. The time of the latest use never goes back. -/
def touch (e : CacheEntry) (now : Instant) : CacheEntry :=
  { e with lastUse := max e.lastUse (e.offset now) }

def lastUsed (e : CacheEntry) : Instant := e.epoch.afterMicroseconds e.lastUse

/-- Drops the bytes, if there are any. -/
def discard (e : CacheEntry) : CacheEntry :=
  if e.data.isEmpty then e
  else { e with data := { e.data with levels := [] }, generation := e.generation + 1 }

/-- Whether a purge drops bytes: there are some, none of them used since the
threshold, and nobody holds the entry. -/
def purges (e : CacheEntry) (threshold : Instant) (held : Bool) : Bool :=
  e.lastUse < e.offset threshold && !held && !e.data.isEmpty

def purgeIfOlder (e : CacheEntry) (threshold : Instant) (held : Bool) : CacheEntry :=
  if e.purges threshold held then e.discard else e

end CacheEntry
end TexturePack
