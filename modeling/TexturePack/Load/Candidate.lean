import TexturePack.Load.Chain
import TexturePack.Load.FileHeader
import TexturePack.Png
import TexturePack.Request

/-! One candidate file of a load. PNG and ZIM files hold one level, DDS and KTX2 files
this level and those behind it. Levels that the cache entry has already are not decoded
again. -/
namespace TexturePack

/-- What a decode draws on. -/
structure Sources where
  files : FileSystem
  transcoder : Option Transcoder

inductive LoadResult where
  /-- No further file has levels. -/
  | finished
  /-- The next file may have the next level. -/
  | more
  /-- The load ends here with the levels found before. -/
  | failed
  deriving DecidableEq

/-- What became of the chain, and of the candidate with the format that it has. -/
abbrev Attempt := Chain × Decode (LoadResult × PixelFormat)

namespace Attempt

def ended (c : Chain) (result : LoadResult) (format : PixelFormat) : Attempt :=
  (c, .ok (result, format))

def refused (c : Chain) (e : FormatError) : Attempt := (c, .refuse e)

/-- A candidate that is refused fails in the format that its header promised. -/
def settle (a : Attempt) (promised : PixelFormat) : Attempt :=
  match a with
  | (c, .error (.format _)) => ended c .failed promised
  | settled => settled

end Attempt

namespace Chain

open Attempt

/-- The size of level `i`. Levels behind the first have to scale evenly to the size that
the first one calls for. -/
def levelSize? (c : Chain) (r : Request) (h : FileHeader) (i : Nat) : Option (Nat × Nat) :=
  if i = 0 then some (r.rescaleTruncating h.width h.height)
  else do
    let size ← r.rescale? h.width h.height
    let base ← c.levels.head?
    if size = (base.width >>> i, base.height >>> i) then some size else none

def halve (dimension : Nat) : Nat := max (dimension / 2) 1

/-- Lists the levels that the entry has from `i` on. -/
def pushCached (c : Chain) (i width height : Nat) : Nat → Chain
  | 0 => c
  | count + 1 =>
      if c.entry.has i then
        (c.push width height).pushCached (i + 1) (halve width) (halve height) count
      else c

/-- The size at which cached levels begin. -/
def cachedSize (c : Chain) (r : Request) (h : FileHeader) (i : Nat) : Nat × Nat :=
  match c.levels.head? with
  | some base => (max (base.width >>> i) 1, max (base.height >>> i) 1)
  | none => r.rescaleTruncating h.width h.height

/-- Takes over what another texture decoded. -/
def reuse (c : Chain) (r : Request) (h : FileHeader) (i : Nat) : Attempt :=
  let (width, height) := c.cachedSize r h i
  let c := c.pushCached i width height (maxLevels - i)
  ended { c with alpha := c.entry.alpha, reused := true } .finished c.entry.format

/-- The target for a payload, or plain pixels where the backend cannot make it. -/
def transcodeTarget (t : Transcoder) (p : Ktx2.Payload) (s : Support) : Ktx2.Target :=
  if t.supports (p.target s) then p.target s else .rgba32

/-- Stores transcoded levels from place `i` on. -/
def storeTranscoded (c : Chain) (file : Ktx2.File) (i : Nat) (levels : List (Nat × Bytes)) :
    Chain :=
  levels.foldl (fun c (level, bytes) =>
    match file.geometry? level with
    | .ok (some g) => c.store (i + level) bytes g.width g.height
    | _ => c) c

/-- Transcodes the levels of a universal texture. Levels before the first that fails are
kept. -/
def transcode (c : Chain) (t : Transcoder) (file : Ktx2.File) (p : Ktx2.Payload) (s : Support)
    (i : Nat) : Attempt :=
  let target := transcodeTarget t p s
  let run := t.transcode file (min file.levels (maxLevels - i)) target
  let c := ({ c with requests := c.requests ++ run.requests }.withAlpha p.alpha).storeTranscoded
    file i run.levels
  match run.ending with
  | .error (.defect d) => (c, .crash d)
  | _ => ended c (if c.levels.length ≤ i then .failed else .finished) target.format

def loadKtx2 (c : Chain) (t : Option Transcoder) (r : Request) (i : Nat) (f : OpenFile) : Attempt :=
  match f.readAll f.size >>= Ktx2.File.parse with
  | .error e => (c, .error e)
  | .ok file =>
      match file.payload?, t with
      | none, _ => refused c (.unsupported .ktx2Payload)
      | some _, none => refused c (.transcode .noTranscoder)
      | some p, some t => c.transcode t file p r.support i

/-- Stores levels that follow each other in a file, each half the size of the one before,
until one is not there. -/
def storeSlices (c : Chain) (format : PixelFormat) (f : OpenFile) (i width height : Nat) :
    Nat → Chain × Decode Unit
  | 0 => (c, .ok ())
  | count + 1 =>
      match Dds.readLevel f format width height with
      | (.ok bytes, f) =>
          (c.store i bytes width height).storeSlices format f (i + 1) (halve width) (halve height)
            count
      | (.error (.format _), _) => (c, .ok ())
      | (.error (.defect d), _) => (c, .crash d)

def loadDds (c : Chain) (h : FileHeader) (i width height : Nat) (f : OpenFile) : Attempt :=
  match h.dds with
  | none => refused c (.invalidHeader .missingDdsHeader)
  | some info =>
      let c := c.withAlpha .unknown
      match f.seek (.start info.dataStart) with
      | .error _ => refused c .io
      | .ok f =>
          let before := c.levels.length
          match c.storeSlices info.format f i width height (min info.levels (maxLevels - i)) with
          | (c, .error e) => (c, .error e)
          | (c, .ok ()) =>
              ended c (if c.levels.length = before then .failed else .finished) info.format

/-- The first level decides on transparency, unless a later one is transparent. -/
def storeImage (c : Chain) (i width height : Nat) (image : Image) : Chain :=
  let c := if i = 0 ∨ image.alpha = .transparent then c.withAlpha image.alpha else c
  c.store i image.pixels width height

def loadImage (c : Chain) (i width height : Nat) (f : OpenFile)
    (decode : Bytes → Nat → Nat → Decode Image) : Attempt :=
  match f.readAll f.size >>= fun bytes => decode bytes width height with
  | .error e => (c, .error e)
  | .ok image => ended (c.storeImage i width height image) .more .rgba8

/-- Decodes a file from its beginning. -/
def decodeFile (c : Chain) (t : Option Transcoder) (r : Request) (i : Nat) (kind : Container)
    (h : FileHeader) (width height : Nat) (f : OpenFile) : Attempt :=
  match kind with
  | .ktx2 => c.loadKtx2 t r i f
  | .dds => c.loadDds h i width height f
  | .zim => c.loadImage i width height f Zim.decode
  | .png => c.loadImage i width height f Png.decode
  | .basis | .invalid => refused c (.unsupported (.container kind.name))

/-- Loads level `i` from an open file. -/
def loadFile (c : Chain) (t : Option Transcoder) (r : Request) (i : Nat) (f : OpenFile) : Attempt :=
  let (found, f) := f.identify
  match FileHeader.read found f r.support with
  | .error e => settle (c, .error e) .undefined
  | .ok h =>
      if c.entry.has i then c.reuse r h i
      else
        match c.levelSize? r h i, f.rewind with
        | some (width, height), .ok f =>
            settle (c.decodeFile t r i found.container h width height f) h.format
        | _, _ => ended c .failed h.format

/-- Loads level `i` from a file that was looked up, and keeps the file or gives it back.
After a crash nobody does. -/
def loadCandidate (c : Chain) (src : Sources) (r : Request) (i : Nat) (file : FileReference) :
    Attempt :=
  let c := c.note [.opened file.name]
  let before := c.levels.length
  match src.files.openFile file with
  | .error _ => ended (c.keepFile before file) .finished .undefined
  | .ok f =>
      match c.loadFile src.transcoder r i f with
      | (c, .ok ended) => (c.keepFile before file, .ok ended)
      | crashed => crashed

end Chain
end TexturePack
