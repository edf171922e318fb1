import TexturePack.Load

/-! A texture whose pixels may come from replacement files. Its owner attaches a request
and polls it; a decode task writes its fields. -/
namespace TexturePack

inductive TextureState where
  /-- No request is attached. -/
  | uninitialized
  /-- A request is attached, nothing is decoded. -/
  | populated
  /-- A decode task has been submitted. -/
  | pending
  /-- There is no replacement. -/
  | notFound
  /-- Levels are there. -/
  | active
  /-- The texture goes away; its task stops early. -/
  | cancelled
  deriving DecidableEq

namespace TextureState

def name : TextureState → String
  | uninitialized => "UNINITIALIZED"
  | populated => "PREPARED"
  | pending => "PENDING"
  | notFound => "NOT_FOUND"
  | active => "ACTIVE"
  | cancelled => "CANCEL_INIT"

/-- Whether a texture in this state can be ready. -/
def terminal : TextureState → Bool
  | active | notFound => true
  | _ => false

/-- What a task publishes. A texture that goes away stays so. -/
def publish (s result : TextureState) : TextureState := if s = cancelled then s else result

end TextureState

/-- A request and the number of the cache entry to decode into. -/
structure Attachment where
  request : Request
  entry : Nat
  deriving DecidableEq

/-- The fields that the owner reads and the task writes. -/
structure TextureData where
  attachment : Option Attachment
  /-- The entry that has the bytes of the levels. -/
  cache : Option Nat
  /-- The generation of the entry at the decode. -/
  generation : Nat
  levels : List LevelRecord
  format : PixelFormat
  alpha : Alpha
  deriving DecidableEq

namespace TextureData

def empty : TextureData := ⟨none, none, 0, [], .undefined, .unknown⟩

def label (d : TextureData) : String :=
  match d.attachment with
  | some a => a.request.label
  | none => ""

def attach (d : TextureData) (a : Attachment) : TextureData :=
  { d with attachment := some a, cache := some a.entry }

/-- Takes over the result of a load into an entry. -/
def commit (d : TextureData) (o : LoadOutcome) (entry generation : Nat) : TextureData :=
  { d with
    cache := if o.levels.isEmpty then none else some entry
    generation := generation
    levels := o.levels
    format := o.format
    alpha := o.alpha }

/-- Bytes of a tightly packed copy of a level. -/
def levelSize? (d : TextureData) (i : Nat) : Option Nat :=
  d.levels[i]?.map fun l => d.format.levelSize l.width l.height

/-- Whether the fields refer to an entry. -/
def holds (d : TextureData) (entry : Nat) : Bool :=
  d.attachment.any (fun a => a.entry = entry) || d.cache = some entry

end TextureData

inductive Ownership where
  | owned
  /-- The owner waits for the task to end. -/
  | dropping
  | dropped
  deriving DecidableEq

structure Texture where
  state : TextureState
  data : TextureData
  /-- The task whose end the owner has not seen yet. -/
  task : Option Nat
  lastUsed : Instant
  ownership : Ownership
  deriving DecidableEq

namespace Texture

def create (now : Instant) : Texture := ⟨.uninitialized, .empty, none, now, .owned⟩

/-- A request can be attached before a decode only. -/
def populatable (t : Texture) : Bool := t.state = .uninitialized || t.state = .populated

def attach (t : Texture) (a : Attachment) : Texture :=
  { t with state := .populated, data := t.data.attach a }

/-- Teardown begins. A task that has not been seen to end is told to stop early. -/
def beginDrop (t : Texture) : Texture :=
  if t.ownership ≠ .owned then t
  else { t with
    ownership := .dropping
    state := if t.task.isSome then .cancelled else t.state }

end Texture
end TexturePack
