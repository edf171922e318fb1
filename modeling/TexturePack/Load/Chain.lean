import TexturePack.Files.FileSystem
import TexturePack.LevelCache
import TexturePack.Transcoder

/-! The chain of levels that a load has found so far, the cache entry that it fills on
the way, and what it has done to the files and asked of the transcoder. -/
namespace TexturePack

/-- No texture has more levels than this. -/
def maxLevels : Nat := 8

structure LevelRecord where
  width : Nat
  height : Nat
  /-- The first level of a file keeps the reference to it. -/
  file : Option FileReference
  deriving DecidableEq

/-- What is done to files. References that a look-up hands out are given back by a
release. -/
inductive FileEvent where
  | lookedUp (name : String) (found : Bool)
  | opened (name : String)
  | released (file : FileReference)
  deriving DecidableEq

namespace FileEvent

def lookups (events : List FileEvent) : List String :=
  events.filterMap fun
    | lookedUp name _ => some name
    | _ => none

def opens (events : List FileEvent) : List String :=
  events.filterMap fun
    | opened name => some name
    | _ => none

def releases (events : List FileEvent) : List FileReference :=
  events.filterMap fun
    | released file => some file
    | _ => none

/-- How many references have been handed out. -/
def handedOut (events : List FileEvent) : Nat :=
  events.countP fun
    | lookedUp _ found => found
    | _ => false

/-- References handed out and not given back. -/
def outstanding (events : List FileEvent) : Int := handedOut events - (releases events).length

/-- The release of all files of some levels. -/
def releasing (levels : List LevelRecord) : List FileEvent :=
  (levels.filterMap LevelRecord.file).map released

end FileEvent

structure Chain where
  entry : LevelData
  levels : List LevelRecord
  alpha : Alpha
  /-- Whether levels came from the entry instead of a file. -/
  reused : Bool
  events : List FileEvent
  requests : List LevelRequest

namespace Chain

def start (entry : LevelData) : Chain := ⟨entry, [], .unknown, false, [], []⟩

def note (c : Chain) (events : List FileEvent) : Chain := { c with events := c.events ++ events }

def push (c : Chain) (width height : Nat) : Chain :=
  { c with levels := c.levels ++ [⟨width, height, none⟩] }

/-- A new level with its bytes at place `i` of the entry. -/
def store (c : Chain) (i : Nat) (bytes : Bytes) (width height : Nat) : Chain :=
  { c with entry := c.entry.put i bytes }.push width height

def withAlpha (c : Chain) (alpha : Alpha) : Chain := { c with alpha := alpha }

/-- The first level behind the first `before` keeps the file. Without one the file
goes straight back. -/
def keepFile (c : Chain) (before : Nat) (file : FileReference) : Chain :=
  match c.levels[before]? with
  | some l => { c with levels := c.levels.set before { l with file := some file } }
  | none => c.note [.released file]

/-- Takes back the levels from `i` on, and the bytes of the first of them. -/
def discardFrom (c : Chain) (i : Nat) : Chain :=
  { c with
    entry := c.entry.clear i
    levels := c.levels.take i
    events := c.events ++ FileEvent.releasing (c.levels.drop i) }

end Chain
end TexturePack
