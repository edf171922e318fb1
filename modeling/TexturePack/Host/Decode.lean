import TexturePack.Host.Basic

/-! The steps of decode tasks. The load is one step, because nobody else can read or write
the cache entry meanwhile; everything around it may be interleaved with other steps. -/
namespace TexturePack

/-- A turn of a task: it makes its next step, or is thrown away before its first. -/
inductive Turn where
  | advance (task : Nat)
  | lose (task : Nat)
  deriving DecidableEq

namespace Host

/-- The load of a task, while nobody else reads or writes the entry. The generation is
read before the entry is free again. -/
def load (h : Host) (src : Sources) (task : Nat) (a : Attachment) (cut : Option Nat) : Host :=
  match h.entries[a.entry]? with
  | none => h
  | some e =>
      let run := loadLevels src a.request cut e.data
      let h := { h.modifyEntry a.entry fun e => { e with data := run.entry } with
        events := h.events ++ run.events
        requests := h.requests ++ run.requests }
      h.setProgress task <|
        match run.outcome with
        | some o => .loaded o e.generation
        | none => .crashed

/-- Where a load stops: at once if its texture is going away already. -/
def cutFor (t : Texture) (cut : Option Nat) : Option Nat :=
  if t.state = .cancelled then some 0 else cut

/-- The first step of a task. -/
def begin (h : Host) (src : Sources) (task i : Nat) (cut : Option Nat) : Host :=
  match h.textures[i]? with
  | none => h
  | some t =>
      match t.data.attachment with
      | none => h.setProgress task (.committed false)
      | some a => h.load src task a (cutFor t cut)

/-- Writes the result of a load into the texture. -/
def commit (h : Host) (i : Nat) (o : LoadOutcome) (generation : Nat) (now : Instant) : Host :=
  match h.textures[i]?.bind fun t => t.data.attachment with
  | none => h
  | some a =>
      ((h.modifyEntry a.entry fun e => e.touch now).releaseLevels i).modifyData i fun d =>
        d.commit o a.entry generation

def discardEntry (h : Host) (i : Nat) : Host :=
  match h.textures[i]?.bind fun t => t.data.attachment with
  | none => h
  | some a => h.modifyEntry a.entry CacheEntry.discard

def publish (h : Host) (i : Nat) (found : Bool) : Host :=
  h.modifyTexture i fun t =>
    { t with state := t.state.publish (if found then .active else .notFound) }

/-- The next step of a task. -/
def advance (h : Host) (src : Sources) (now : Instant) (task : Nat) : Host :=
  match h.tasks[task]? with
  | none => h
  | some ⟨i, p⟩ =>
      match p with
      | .queued => h.begin src task i none
      | .loaded o generation =>
          (h.commit i o generation now).setProgress task (.committed (!o.levels.isEmpty))
      | .crashed => (h.discardEntry i).setProgress task .discarded
      | .discarded => (h.releaseLevels i).setProgress task (.committed false)
      | .committed found => (h.publish i found).setProgress task .published
      | .published => h.setProgress task .finished
      | .finished => h

/-- A queued task that is thrown away signals its end all the same. -/
def lose (h : Host) (task : Nat) : Host :=
  if h.progress? task = some .queued then h.setProgress task .finished else h

def turn (h : Host) (src : Sources) (now : Instant) : Turn → Host
  | .advance task => h.advance src now task
  | .lose task => h.lose task

def turns (h : Host) (src : Sources) (now : Instant) (ts : List Turn) : Host :=
  ts.foldl (fun h t => h.turn src now t) h

/-- All that is left of a task. -/
def complete (h : Host) (task : Nat) : List Turn :=
  List.replicate ((h.progress? task).elim 0 Progress.remaining) (.advance task)

/-- Makes the first step of a task while the owner of its texture begins to drop it, just
before the load comes to candidate `cut`. -/
def beginDropDuringLoad (h : Host) (src : Sources) (task cut : Nat) : Host :=
  match h.tasks[task]? with
  | some ⟨i, .queued⟩ => (h.begin src task i (some cut)).beginDrop i
  | _ => h

end Host
end TexturePack
