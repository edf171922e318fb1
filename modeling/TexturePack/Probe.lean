import TexturePack.Config
import TexturePack.Files.Archive
import TexturePack.Files.Directory
import TexturePack.Host

/-! Loading the replacement of one texture and telling what came out of it. -/
namespace TexturePack.Probe

/-- What is reported, and whether all of it went well. -/
structure Report where
  lines : List String
  success : Bool
  deriving DecidableEq

namespace Report

def failure : Report := ⟨[], false⟩

end Report

/-- Where the replacement files are. -/
inductive Source where
  | directory (d : Files.Directory)
  | archive (a : Files.Archive)

namespace Source

def fileSystem : Source → FileSystem
  | directory d => d.fileSystem
  | archive a => a.fileSystem

def describe : Source → String
  | directory d => d.describe
  | archive a => a.describe

end Source

/-- A read back level is packed. Only levels of pixels have rows. -/
def pitch (format : PixelFormat) (width : Nat) : Nat := if format = .rgba8 then 4 * width else 0

def levelLine (i width height size : Nat) (copied : Bool) : String :=
  s!"level {i}: {width}x{height}, {size} bytes" ++ if copied then "" else " (copy failed)"

/-- Copies one level into a buffer of its packed size. -/
def copyLevel (h : Host) (d : TextureData) (i : Nat) (l : LevelRecord) (piecesFrom : Nat) :
    Except Defect (String × Bool) := do
  let size := d.format.levelSize l.width l.height
  let copied := (← h.copyLevel 0 i (Bytes.zeros size) (pitch d.format l.width) piecesFrom).isSome
  return (levelLine i l.width l.height size copied, copied)

/-- Reports on a texture that is ready. -/
def report (h : Host) (t : Texture) (piecesFrom : Nat) : Except Defect Report := do
  let copies ← t.data.levels.zipIdx.mapM fun (l, i) => copyLevel h t.data i l piecesFrom
  let head := ["state:  " ++ t.state.name, "format: " ++ t.data.format.name,
    "alpha:  " ++ t.data.alpha.name]
  return ⟨head ++ copies.map Prod.fst, copies.all Prod.snd⟩

def request (config : Config) (names : List String) : Request :=
  .unscaled names (config.support.getD .desktop) (names.headD "")

/-- All tasks run to their end while the owner waits. -/
def wait (src : Sources) (now : Instant) (h : Host) : Host :=
  (List.range h.tasks.length).foldl (fun h task => h.turns src now (h.complete task)) h

/-- A host with one texture that has been given its request and polled. -/
def poll (src : Sources) (config : Config) (names : List String) (now : Instant) : Host × Bool :=
  let (h, e) := Host.start.createEntry now
  let (h, i) := h.createTexture now
  let (h, _) := h.populate i ⟨request config names, e⟩
  h.poll i config.pollBudget now (wait src now)

/-- Loads the levels of some names. A texture whose budget never lets it start is given up
after a while. -/
def run (source : Option Source) (transcoder : Option Transcoder) (config : Config)
    (names : List String) (now : Instant) : Except Defect Report :=
  match source with
  | none => .ok .failure
  | some source =>
      if names.isEmpty then .ok .failure
      else
        match poll ⟨source.fileSystem, transcoder⟩ config names now with
        | (h, true) =>
            match h.textures[0]? with
            | some t => report h t config.parallelCopyMinBytes
            | none => .ok .failure
        | (_, false) => .ok .failure

end TexturePack.Probe
