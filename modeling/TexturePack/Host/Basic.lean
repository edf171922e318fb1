import TexturePack.Waitable
import TexturePack.Texture

/-! Textures, the cache entries they share, and their decode tasks, all known by their
numbers. -/
namespace TexturePack

structure Host where
  /-- Textures reach their files through the host only, and lose them with it. -/
  contextAlive : Bool
  entries : List CacheEntry
  textures : List Texture
  tasks : List DecodeTask
  events : List FileEvent
  requests : List LevelRequest

namespace Host

def start : Host := ⟨true, [], [], [], [], []⟩

def modifyTexture (h : Host) (i : Nat) (f : Texture → Texture) : Host :=
  { h with textures := h.textures.modify i f }

def modifyData (h : Host) (i : Nat) (f : TextureData → TextureData) : Host :=
  h.modifyTexture i fun t => { t with data := f t.data }

def setState (h : Host) (i : Nat) (s : TextureState) : Host :=
  h.modifyTexture i fun t => { t with state := s }

def modifyEntry (h : Host) (e : Nat) (f : CacheEntry → CacheEntry) : Host :=
  { h with entries := h.entries.modify e f }

def setProgress (h : Host) (task : Nat) (p : Progress) : Host :=
  { h with tasks := h.tasks.modify task fun t => { t with progress := p } }

def note (h : Host) (events : List FileEvent) : Host := { h with events := h.events ++ events }

def state? (h : Host) (i : Nat) : Option TextureState := h.textures[i]?.map Texture.state

def generation? (h : Host) (e : Nat) : Option Nat := h.entries[e]?.map CacheEntry.generation

def progress? (h : Host) (task : Nat) : Option Progress := h.tasks[task]?.map DecodeTask.progress

/-- Tasks keep the files alive beyond their host. -/
def filesAlive (h : Host) : Bool := h.contextAlive || h.tasks.any fun t => t.progress.holdsFiles

/-- A new texture, and its number. -/
def createTexture (h : Host) (now : Instant) : Host × Nat :=
  ({ h with textures := h.textures ++ [.create now] }, h.textures.length)

/-- A new cache entry, and its number. -/
def createEntry (h : Host) (now : Instant) : Host × Nat :=
  ({ h with entries := h.entries ++ [.create now] }, h.entries.length)

def dropContext (h : Host) : Host := { h with contextAlive := false }

/-- Whether a request that decodes into an entry can be attached to a texture. -/
def attachable (h : Host) (i : Nat) (a : Attachment) : Bool :=
  h.textures[i]?.any Texture.populatable && decide (a.entry < h.entries.length)

/-- Attaches a request; the answer is whether it could be. -/
def populate (h : Host) (i : Nat) (a : Attachment) : Host × Bool :=
  if h.attachable i a then (h.modifyTexture i fun t => t.attach a, true) else (h, false)

/-- Empties a texture of its levels and gives back their files. -/
def releaseLevels (h : Host) (i : Nat) : Host :=
  match h.textures[i]? with
  | none => h
  | some t =>
      (h.modifyData i fun d => { d with levels := [] }).note (FileEvent.releasing t.data.levels)

def beginDrop (h : Host) (i : Nat) : Host := h.modifyTexture i Texture.beginDrop

/-- Whether a texture that has not gone away refers to an entry. -/
def holds (h : Host) (e : Nat) : Bool :=
  h.textures.any fun t => t.ownership ≠ .dropped && t.data.holds e

end Host
end TexturePack
