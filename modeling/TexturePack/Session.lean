import TexturePack.Files.FileSystem
import TexturePack.Host
import TexturePack.Registry

/-! A host over files in memory, with handles on its cache entries and an executor that
says when the decode tasks run. All of a session happens at one instant. -/
namespace TexturePack

/-- When submitted tasks run. -/
inductive Schedule where
  /-- At once, before the submission returns. -/
  | immediate
  /-- When the queue is run. -/
  | queued
  /-- Never: they are thrown away. -/
  | discarding
  deriving DecidableEq

structure Session where
  host : Host
  memory : Files.Memory
  registry : Registry
  /-- The entries that the session itself holds; given up handles hold nothing. -/
  handles : List (Option Nat)
  schedule : Schedule
  transcoder : Option Transcoder
  /-- Levels of this size and more are copied in pieces. -/
  piecesFrom : Nat

namespace Session

def start (memory : Files.Memory) (schedule : Schedule) (transcoder : Option Transcoder)
    (piecesFrom : Nat) : Session :=
  ⟨.start, memory, .empty, [], schedule, transcoder, piecesFrom⟩

def now : Instant := .ofSeconds 0

def sources (s : Session) : Sources := ⟨s.memory.fileSystem, s.transcoder⟩

def withHost (s : Session) (h : Host) : Session := { s with host := h }

/-- The tasks that have not begun, in the order of their submission. -/
def queued (h : Host) : List Nat :=
  (List.range h.tasks.length).filter fun t => h.progress? t = some .queued

def runTask (s : Session) (h : Host) (task : Nat) : Host := h.turns s.sources now (h.complete task)

def runAll (s : Session) (h : Host) : Host := (queued h).foldl s.runTask h

def loseAll (h : Host) : Host := (queued h).foldl Host.lose h

/-- What the tasks do while an owner waits for one. -/
def wait (s : Session) (h : Host) : Host :=
  match s.schedule with
  | .immediate => s.runAll h
  | .queued => h
  | .discarding => loseAll h

/-- A short account of the context, while there is one. -/
def describeContext? (s : Session) : Option String :=
  if s.host.contextAlive then
    some ("ReplacerContext \x7b vfs: \"" ++ Files.Memory.describe ++ "\", transcoder: " ++
      (if s.transcoder.isSome then "true" else "false") ++ ", parallel_copy_min_bytes: " ++
      toString s.piecesFrom ++ " \x7d")
  else none

/-- Whether anybody holds an entry. -/
def live (s : Session) (e : Nat) : Bool := s.handles.contains (some e) || s.host.holds e

/-- A new handle on the entry of a key, or on an entry of its own. The answer is the number
of the handle, and the first other one on the same entry. -/
def openEntry (s : Session) (key : Option CacheKey) : Session × Nat × Option Nat :=
  let fresh := s.host.entries.length
  let (registry, e) :=
    match key with
    | some key => s.registry.getOrCreate s.live key fresh
    | none => (s.registry, fresh)
  let host := if e = fresh then (s.host.createEntry now).1 else s.host
  ({ s with host := host, registry := registry, handles := s.handles ++ [some e] },
    s.handles.length, s.handles.findIdx? (· = some e))

def closeHandle (s : Session) (handle : Nat) : Session :=
  { s with handles := s.handles.set handle none }

/-- Forgets the keys of dead entries; the answer is their number. -/
def prune (s : Session) : Session × Nat :=
  let r := s.registry.prune s.live
  ({ s with registry := r }, s.registry.size - r.size)

/-- The entry that a handle is on. -/
def entryOf? (s : Session) (handle : Nat) : Option Nat := (s.handles[handle]?).join

def entry? (s : Session) (handle : Nat) : Option CacheEntry := do
  s.host.entries[← s.entryOf? handle]?

def modifyEntry (s : Session) (handle : Nat) (f : CacheEntry → CacheEntry) : Session :=
  match s.entryOf? handle with
  | none => s
  | some e => s.withHost (s.host.modifyEntry e f)

def modifyData (s : Session) (handle : Nat) (f : LevelData → LevelData) : Session :=
  s.modifyEntry handle fun e => { e with data := f e.data }

def createTexture (s : Session) : Session × Nat :=
  let (h, i) := s.host.createTexture now
  (s.withHost h, i)

def texture? (s : Session) (i : Nat) : Option Texture := s.host.textures[i]?

/-- Attaches a request that decodes into the entry of a handle. -/
def populate (s : Session) (i handle : Nat) (r : Request) : Session × Bool :=
  match s.entryOf? handle with
  | none => (s, false)
  | some e =>
      let (h, ok) := s.host.populate i ⟨r, e⟩
      (s.withHost h, ok)

def poll (s : Session) (i : Nat) (budget : Binary64) : Session × Bool :=
  let (h, ready) := s.host.poll i budget now s.wait
  (s.withHost h, ready)

/-- Runs the queue; the answer is how many tasks were in it. -/
def runQueue (s : Session) : Session × Nat :=
  (s.withHost (s.runAll s.host), (queued s.host).length)

/-- Throws the queue away; the answer is how many tasks were in it. -/
def discardQueue (s : Session) : Session × Nat :=
  (s.withHost (loseAll s.host), (queued s.host).length)

/-- Purges a texture while somebody may hold the entry of a handle. -/
def purge (s : Session) (i : Nat) (threshold : Instant) (held : Option Nat) : Session :=
  s.withHost (s.host.purge i threshold fun e => (held.bind s.entryOf?) = some e)

def copyLevel (s : Session) (i level : Nat) (out : Bytes) (pitch : Nat) :
    Except Defect (Option Bytes) :=
  s.host.copyLevel i level out pitch s.piecesFrom

def dropContext (s : Session) : Session := s.withHost s.host.dropContext

/-- Whether the task of a texture has not begun. -/
def waitsInQueue (h : Host) (i : Nat) : Bool :=
  match h.textures[i]?.bind Texture.task with
  | some task => h.progress? task = some .queued
  | none => false

/-- Drops a texture. If its task is still in the queue, the queue runs before the drop
ends. -/
def drop (s : Session) (i : Nat) : Session :=
  let h := s.host.beginDrop i
  s.withHost ((if waitsInQueue h i then s.runAll h else h).finishDrop i)

/-- The candidate of a load that is in the file of a name, seen from what the load did. -/
def openedAt? (name : String) (next : Nat) : List FileEvent → Option Nat
  | [] => none
  | .lookedUp .. :: events => openedAt? name (next + 1) events
  | .opened file :: events => if file = name then some (next - 1) else openedAt? name next events
  | .released _ :: events => openedAt? name next events

/-- The candidate at which a task is going to open a file of a name. -/
def willOpen? (s : Session) (h : Host) (task : Nat) (name : String) : Option Nat :=
  openedAt? name 0 ((h.advance s.sources now task).events.drop h.events.length)

/-- Runs a task that opens a file, while a texture begins to be dropped just before. -/
def runDropping (s : Session) (i : Nat) (h : Host) (task candidate : Nat) : Host :=
  if (h.tasks[task]?.map DecodeTask.texture) = some i then
    s.runTask (h.beginDropDuringLoad s.sources task (candidate + 1)) task
  else s.runTask ((h.beginDrop i).finishDrop i) task

/-- Runs tasks until one is about to open a file; a texture begins to be dropped then, and
the other tasks run. -/
def runUntilOpen (s : Session) (i : Nat) (name : String) (h : Host) : List Nat → Host × Bool
  | [] => (h, false)
  | task :: tasks =>
      match s.willOpen? h task name with
      | some candidate => (tasks.foldl s.runTask (s.runDropping i h task candidate), true)
      | none => s.runUntilOpen i name (s.runTask h task) tasks

/-- Runs the queue and drops a texture when a task is about to open a file of a name; the
answer is whether that happened. Otherwise the drop comes after the run. -/
def dropDuringOpen (s : Session) (i : Nat) (name : String) : Session × Bool :=
  let (h, reached) := s.runUntilOpen i name s.host (queued s.host)
  (s.withHost ((h.beginDrop i).finishDrop i), reached)

end Session
end TexturePack
