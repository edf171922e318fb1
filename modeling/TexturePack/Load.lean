import TexturePack.Load.Candidate

/-! A load walks through the candidate files of a request, one level after the other,
and fills a cache entry. Nothing that goes wrong is an error: it only ends the chain. -/
namespace TexturePack

structure LoadOutcome where
  levels : List LevelRecord
  format : PixelFormat
  alpha : Alpha
  result : LoadResult
  cancelled : Bool
  deriving DecidableEq

/-- All that a load leaves behind. Without an outcome it crashed, and the entry holds
what was stored until then. -/
structure LoadRun where
  entry : LevelData
  events : List FileEvent
  requests : List LevelRequest
  outcome : Option LoadOutcome

/-- How a walk ended. -/
structure Walk where
  format : PixelFormat
  result : LoadResult
  cancelled : Bool

namespace Chain

/-- Whether the walk goes on with the candidate in hand, seen from its level: a file of
another format than the first does not belong to the chain. -/
def foreign (c : Chain) (i : Nat) (format found : PixelFormat) : Bool :=
  i ≠ 0 && i < c.levels.length && format ≠ found

/-- Walks through the candidates from level `i` on. A cancelled walk stops before
candidate `cut`. -/
def walk (c : Chain) (src : Sources) (r : Request) (cut : Option Nat) (i : Nat) (w : Walk) :
    List String → Chain × Decode Walk
  | [] => (c, .ok w)
  | name :: names =>
      if cut = some i then (c, .ok { w with cancelled := true })
      else if name.isEmpty then (c, .ok w)
      else
        match src.files.lookup name with
        | none => (c.note [.lookedUp name false], .ok { w with result := .finished })
        | some file =>
            match (c.note [.lookedUp name true]).loadCandidate src r i file with
            | (c, .error e) => (c, .error e)
            | (c, .ok (.failed, _)) => (c, .ok { w with result := .failed })
            | (c, .ok (result, found)) =>
                if c.foreign i w.format found then
                  (c.discardFrom i, .ok { w with result := result })
                else
                  let w := { w with format := if i = 0 then found else w.format, result := result }
                  if result = .finished then (c, .ok w) else c.walk src r cut (i + 1) w names

/-- A load of no candidates is finished; any other has failed until it found something. -/
def firstResult (r : Request) : LoadResult := if r.names.isEmpty then .finished else .failed

/-- Levels that the load decoded itself give the entry their format. -/
def commit (c : Chain) (format : PixelFormat) : LevelData :=
  if c.levels.isEmpty || c.reused then c.entry
  else { c.entry with format := format, alpha := c.alpha }

def outcome (c : Chain) (w : Walk) : LoadOutcome where
  levels := c.levels
  format := if c.levels.isEmpty then .undefined else w.format
  alpha := c.alpha
  result := w.result
  cancelled := w.cancelled

end Chain

/-- Loads the levels of a request into an entry. -/
def loadLevels (src : Sources) (r : Request) (cut : Option Nat) (entry : LevelData) : LoadRun :=
  let w : Walk := ⟨.undefined, Chain.firstResult r, false⟩
  match (Chain.start entry).walk src r cut 0 w (r.names.take maxLevels) with
  | (c, .error _) => ⟨c.entry, c.events, c.requests, none⟩
  | (c, .ok w) => ⟨c.commit w.format, c.events, c.requests, some (c.outcome w)⟩

end TexturePack
