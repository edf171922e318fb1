import TexturePack.Binary64
import TexturePack.Host.Basic
import TexturePack.Readback

/-! What the owner of a texture does with it: poll it until it is ready, copy its levels,
purge and drop it. -/
namespace TexturePack.Host

/-- Lets go of a task that has ended; the answer is whether none is left to wait for. -/
def tryJoin (h : Host) (i : Nat) : Host × Bool :=
  match h.textures[i]?.bind Texture.task with
  | none => (h, true)
  | some task =>
      if h.progress? task = some .finished then
        (h.modifyTexture i fun t => { t with task := none }, true)
      else (h, false)

def touchCache (h : Host) (i : Nat) (now : Instant) : Host :=
  match h.textures[i]?.bind fun t => t.data.cache with
  | none => h
  | some e => h.modifyEntry e fun e => e.touch now

/-- Whether the entry with the bytes of an active texture has been emptied since it
decoded. -/
def purgedElsewhere (h : Host) (t : Texture) : Bool :=
  t.task.isNone && t.state = .active &&
    t.data.cache.any fun e => h.generation? e ≠ some t.data.generation

/-- An active texture whose bytes are gone has to decode again. -/
def checkPurged (h : Host) (i : Nat) : Host :=
  match h.textures[i]? with
  | none => h
  | some t => if h.purgedElsewhere t then h.setState i .populated else h

/-- Submits a decode task. Without files there is no replacement. -/
def startDecode (h : Host) (i : Nat) : Host :=
  if !h.filesAlive then h.setState i .notFound
  else
    let task := h.tasks.length
    let h : Host := { h with tasks := h.tasks ++ [⟨i, .queued⟩] }
    h.modifyTexture i fun t => { t with state := .pending, task := some task }

/-- Marks a texture that has ended its wait as used. -/
def settle (h : Host) (i : Nat) (now : Instant) : Host × Bool :=
  match h.state? i with
  | some .active | some .notFound => (h.touchCache i now, true)
  | some .pending => (h.setState i .populated, false)
  | _ => (h, false)

/-- Looks for the end of a task. A task that ended without a result was lost, and the
texture decodes again. -/
def pollPending (h : Host) (i : Nat) (now : Instant) : Host × Bool :=
  match h.tryJoin i with
  | (h, false) => (h, false)
  | (h, true) => h.settle i now

/-- Looks for the end of a task that has published already. -/
def pollPublished (h : Host) (i : Nat) (now : Instant) : Host × Bool :=
  match h.tryJoin i with
  | (h, joined) =>
      let h := if joined then h.touchCache i now else h
      (h.modifyTexture i fun t => { t with lastUsed := now }, joined)

/-- Polls a texture; the answer is whether it is ready. While the owner waits, `wait` tells
what the tasks do. A budget below zero starts no decode. -/
def poll (h : Host) (i : Nat) (budget : Binary64) (now : Instant) (wait : Host → Host) :
    Host × Bool :=
  let h := h.checkPurged i
  match h.state? i with
  | some .active | some .notFound => (wait h).pollPublished i now
  | some .pending => (wait h).pollPending i now
  | some .populated =>
      let h := h.modifyTexture i fun t => { t with lastUsed := now }
      if budget.isBelowZero then (h, false) else (wait (h.startDecode i)).pollPending i now
  | _ => (h, false)

/-- Purges the entry of an active texture, or notices that it has been purged. -/
def purgeActive (h : Host) (i : Nat) (threshold : Instant) (held : Nat → Bool) : Host :=
  match h.textures[i]? with
  | none => h
  | some t =>
      if !t.lastUsed.before threshold || t.state ≠ .active then h
      else
        match t.data.cache with
        | none => h
        | some e =>
            let purged := h.entries[e]?.any fun c => c.purges threshold (held e)
            let h := h.modifyEntry e fun c => c.purgeIfOlder threshold (held e)
            if purged || h.generation? e ≠ some t.data.generation then h.setState i .populated
            else h

/-- Drops bytes that have not been used since a threshold, so that they load again when
they are needed. Entries that `held` names are in use by somebody. -/
def purge (h : Host) (i : Nat) (threshold : Instant) (held : Nat → Bool) : Host :=
  match h.tryJoin i with
  | (h, false) => h
  | (h, true) => h.purgeActive i threshold held

/-- Copies a level of an active texture. -/
def copyLevel (h : Host) (i level : Nat) (out : Bytes) (pitch piecesFrom : Nat) :
    Except Defect (Option Bytes) :=
  match h.textures[i]? with
  | none => .ok none
  | some t =>
      if t.state ≠ .active then .ok none
      else
        match t.data.levels[level]?, t.data.cache.bind fun e => h.entries[e]? with
        | some l, some e =>
            Readback.copyLevel e.data level l.width l.height t.data.format out pitch piecesFrom
        | _, _ => .ok none

/-- Ends the teardown when there is no task to wait for. Files that are gone take their
references with them. -/
def finishDrop (h : Host) (i : Nat) : Host :=
  match h.textures[i]? with
  | none => h
  | some t =>
      if t.ownership ≠ .dropping || (h.tryJoin i).2 = false then h
      else
        let h := (h.tryJoin i).1.modifyTexture i fun t =>
          { t with ownership := .dropped, data := { t.data with levels := [] } }
        if h.filesAlive then h.note (FileEvent.releasing t.data.levels) else h

end TexturePack.Host
