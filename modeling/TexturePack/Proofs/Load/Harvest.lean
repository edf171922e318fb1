import Mathlib
import TexturePack.Load
import TexturePack.Proofs.LevelData

/-! What a candidate file yields when its pixels are decoded. The harvest of a file does
not depend on the cache entry; a chain that decodes the file only lays it down. -/
namespace TexturePack

/-- A decoded level with its size. -/
structure Layer where
  bytes : Bytes
  width : Nat
  height : Nat

namespace Layer

def record (l : Layer) : LevelRecord := ⟨l.width, l.height, none⟩

def size (l : Layer) : Nat × Nat := (l.width, l.height)

end Layer

/-- The levels that come out of a file, and how the attempt ends. -/
structure Harvest where
  layers : List Layer
  /-- What becomes of the transparency, if the file changes it. -/
  alpha : Option Alpha
  requests : List LevelRequest
  ending : Decode (LoadResult × PixelFormat)

namespace Harvest

def nothing (ending : Decode (LoadResult × PixelFormat)) : Harvest := ⟨[], none, [], ending⟩

/-- The result of a file that holds its levels itself. -/
def found (layers : List Layer) : LoadResult := if layers.isEmpty then .failed else .finished

/-- The block data of a level and those behind it, until one is not there. -/
def slices (format : PixelFormat) (f : OpenFile) (width height : Nat) :
    Nat → List Layer × Decode Unit
  | 0 => ([], .ok ())
  | count + 1 =>
      match Dds.readLevel f format width height with
      | (.ok bytes, f) =>
          let rest := slices format f (Chain.halve width) (Chain.halve height) count
          (⟨bytes, width, height⟩ :: rest.1, rest.2)
      | (.error (.format _), _) => ([], .ok ())
      | (.error (.defect d), _) => ([], .crash d)

def ofDds (h : FileHeader) (i width height : Nat) (f : OpenFile) : Harvest :=
  match h.dds with
  | none => nothing (.refuse (.invalidHeader .missingDdsHeader))
  | some info =>
      match f.seek (.start info.dataStart) with
      | .error _ => ⟨[], some .unknown, [], .refuse .io⟩
      | .ok f =>
          let cut := slices info.format f width height (min info.levels (maxLevels - i))
          ⟨cut.1, some .unknown, [], cut.2.map fun _ => (found cut.1, info.format)⟩

/-- The sizes of transcoded levels are those that the file gives them. -/
def transcodedLayers (file : Ktx2.File) (levels : List (Nat × Bytes)) : List Layer :=
  levels.filterMap fun (level, bytes) =>
    match file.geometry? level with
    | .ok (some g) => some ⟨bytes, g.width, g.height⟩
    | _ => none

def ofUniversal (t : Transcoder) (file : Ktx2.File) (p : Ktx2.Payload) (s : Support) (i : Nat) :
    Harvest :=
  let target := Chain.transcodeTarget t p s
  let run := t.transcode file (min file.levels (maxLevels - i)) target
  let layers := transcodedLayers file run.levels
  ⟨layers, some p.alpha, run.requests,
    match run.ending with
    | .error (.defect d) => .crash d
    | _ => .ok (found layers, target.format)⟩

def ofKtx2 (t : Option Transcoder) (r : Request) (i : Nat) (f : OpenFile) : Harvest :=
  match f.readAll f.size >>= Ktx2.File.parse with
  | .error e => nothing (.error e)
  | .ok file =>
      match file.payload?, t with
      | none, _ => nothing (.refuse (.unsupported .ktx2Payload))
      | some _, none => nothing (.refuse (.transcode .noTranscoder))
      | some p, some t => ofUniversal t file p r.support i

def ofImage (i width height : Nat) (f : OpenFile) (decode : Bytes → Nat → Nat → Decode Image) :
    Harvest :=
  match f.readAll f.size >>= fun bytes => decode bytes width height with
  | .error e => nothing (.error e)
  | .ok image =>
      ⟨[⟨image.pixels, width, height⟩],
        if i = 0 ∨ image.alpha = .transparent then some image.alpha else none, [],
        .ok (.more, .rgba8)⟩

def ofFile (t : Option Transcoder) (r : Request) (i : Nat) (kind : Container) (h : FileHeader)
    (width height : Nat) (f : OpenFile) : Harvest :=
  match kind with
  | .ktx2 => ofKtx2 t r i f
  | .dds => ofDds h i width height f
  | .zim => ofImage i width height f Zim.decode
  | .png => ofImage i width height f Png.decode
  | .basis | .invalid => nothing (.refuse (.unsupported (.container kind.name)))

/-- A file that is refused ends the chain in the format that its header promised. -/
def settled (g : Harvest) (promised : PixelFormat) : Harvest :=
  { g with
    ending := match g.ending with
      | .error (.format _) => .ok (.failed, promised)
      | ending => ending }

end Harvest

namespace Chain

/-- Lays down decoded levels from place `i` on. -/
def stack (c : Chain) (i : Nat) (layers : List Layer) : Chain :=
  { c with
    entry := c.entry.putAll i (layers.map Layer.bytes)
    levels := c.levels ++ layers.map Layer.record }

def gather (c : Chain) (i : Nat) (g : Harvest) : Chain :=
  { c.stack i g.layers with
    alpha := g.alpha.getD c.alpha
    requests := c.requests ++ g.requests }

/-- What an open file yields for level `i`, if the entry does not have it. -/
def harvest (c : Chain) (t : Option Transcoder) (r : Request) (i : Nat) (f : OpenFile) : Harvest :=
  match FileHeader.read f.identify.1 f.identify.2 r.support with
  | .error e => (Harvest.nothing (.error e)).settled .undefined
  | .ok h =>
      match c.levelSize? r h i, f.identify.2.rewind with
      | some (width, height), .ok f' =>
          (Harvest.ofFile t r i f.identify.1.container h width height f').settled h.format
      | _, _ => .nothing (.ok (.failed, h.format))

@[simp] theorem stack_nil (c : Chain) (i : Nat) : c.stack i [] = c := by
  simp [stack, LevelData.putAll]

theorem stack_cons (c : Chain) (i : Nat) (l : Layer) (ls : List Layer) :
    c.stack i (l :: ls) = (c.store i l.bytes l.width l.height).stack (i + 1) ls := by
  simp [stack, store, push, LevelData.putAll, Layer.record]

@[simp] theorem gather_nothing (c : Chain) (i : Nat) (e : Decode (LoadResult × PixelFormat)) :
    c.gather i (.nothing e) = c := by
  simp [gather, Harvest.nothing]

@[simp] theorem gather_settled (c : Chain) (i : Nat) (g : Harvest) (promised : PixelFormat) :
    c.gather i (g.settled promised) = c.gather i g := rfl

theorem settle_gather (c : Chain) (i : Nat) (g : Harvest) (promised : PixelFormat) :
    Attempt.settle (c.gather i g, g.ending) promised =
      (c.gather i (g.settled promised), (g.settled promised).ending) := by
  rcases g with ⟨layers, alpha, requests, (_ | _) | _⟩ <;> rfl

theorem storeSlices_eq (c : Chain) (format : PixelFormat) (f : OpenFile) (i width height n : Nat) :
    c.storeSlices format f i width height n =
      (c.stack i (Harvest.slices format f width height n).1,
        (Harvest.slices format f width height n).2) := by
  induction n generalizing c f i width height with
  | zero => simp [storeSlices, Harvest.slices]
  | succ n ih =>
    rw [storeSlices, Harvest.slices]
    rcases Dds.readLevel f format width height with ⟨_ | bytes, f'⟩
    next e => cases e <;> simp
    next => simp only [ih, stack_cons]

theorem loadDds_eq (c : Chain) (i : Nat) (h : FileHeader) (width height : Nat) (f : OpenFile) :
    c.loadDds h i width height f =
      (c.gather i (Harvest.ofDds h i width height f),
        (Harvest.ofDds h i width height f).ending) := by
  unfold loadDds Harvest.ofDds
  rcases h.dds with _ | info
  · rw [gather_nothing]
    rfl
  rcases hs : f.seek (.start info.dataStart) with _ | f'
  · simp [Attempt.refused, withAlpha, gather, hs]
  simp only [hs, storeSlices_eq]
  rcases Harvest.slices info.format f' width height (min info.levels (maxLevels - i)) with
    ⟨layers, _ | _⟩
  · simp [gather, withAlpha, stack, Except.map]
  · simp [gather, withAlpha, stack, Except.map, Attempt.ended, Harvest.found, List.isEmpty_iff]

/-- Levels come out of a transcoder one behind the other. -/
theorem storeTranscoded_levelsFrom (c : Chain) (t : Transcoder) (file : Ktx2.File)
    (target : Ktx2.Target) (i level count : Nat) :
    c.storeTranscoded file i (t.levelsFrom file target level count).levels =
      c.stack (i + level)
        (Harvest.transcodedLayers file (t.levelsFrom file target level count).levels) := by
  induction count generalizing c level with
  | zero => exact (stack_nil c _).symm
  | succ count ih =>
    rw [Transcoder.levelsFrom]
    rcases hg : file.geometry? level with _ | _ | g
    · exact (stack_nil c _).symm
    · exact (stack_nil c _).symm
    · simp only [Transcription.request]
      rcases t.level file target level (g.layout target) with byteAt | e | _
      · simp only [Transcription.deliver, storeTranscoded, List.foldl_cons, hg,
          Harvest.transcodedLayers, List.filterMap_cons, stack_cons]
        exact ih _ (level + 1)
      · exact (stack_nil c _).symm
      · exact (stack_nil c _).symm

theorem storeTranscoded_transcode (c : Chain) (t : Transcoder) (file : Ktx2.File)
    (target : Ktx2.Target) (i count : Nat) :
    c.storeTranscoded file i (t.transcode file count target).levels =
      c.stack i (Harvest.transcodedLayers file (t.transcode file count target).levels) := by
  unfold Transcoder.transcode
  split
  · exact (stack_nil c _).symm
  · exact storeTranscoded_levelsFrom c t file target i 0 count

theorem transcode_eq {c : Chain} {i : Nat} (hi : c.levels.length = i) (t : Transcoder)
    (file : Ktx2.File) (p : Ktx2.Payload) (s : Support) :
    c.transcode t file p s i =
      (c.gather i (Harvest.ofUniversal t file p s i),
        (Harvest.ofUniversal t file p s i).ending) := by
  simp only [transcode, Harvest.ofUniversal, storeTranscoded_transcode]
  generalize t.transcode file (min file.levels (maxLevels - i)) (transcodeTarget t p s) = run
  rcases run with ⟨levels, requests, (_ | _) | _⟩ <;>
    simp [gather, stack, withAlpha, Attempt.ended, Decode.crash, Harvest.found, hi,
      List.isEmpty_iff]

theorem loadKtx2_eq {c : Chain} {i : Nat} (hi : c.levels.length = i) (t : Option Transcoder)
    (r : Request) (f : OpenFile) :
    c.loadKtx2 t r i f =
      (c.gather i (Harvest.ofKtx2 t r i f), (Harvest.ofKtx2 t r i f).ending) := by
  unfold loadKtx2 Harvest.ofKtx2
  rcases f.readAll f.size >>= Ktx2.File.parse with _ | file
  · rw [gather_nothing]
    rfl
  rcases hp : file.payload? with _ | p
  · simp only [hp, gather_nothing]
    rfl
  rcases t with _ | t
  · simp only [hp, gather_nothing]
    rfl
  · simp only [hp, transcode_eq hi]

theorem loadImage_eq (c : Chain) (i width height : Nat) (f : OpenFile)
    (decode : Bytes → Nat → Nat → Decode Image) :
    c.loadImage i width height f decode =
      (c.gather i (Harvest.ofImage i width height f decode),
        (Harvest.ofImage i width height f decode).ending) := by
  unfold loadImage Harvest.ofImage
  rcases f.readAll f.size >>= fun bytes => decode bytes width height with _ | image
  · simp only [gather_nothing]
    rfl
  · simp only [Attempt.ended, storeImage]
    split <;>
      simp [gather, stack, store, push, withAlpha, LevelData.putAll, Layer.record]

theorem decodeFile_eq {c : Chain} {i : Nat} (hi : c.levels.length = i) (t : Option Transcoder)
    (r : Request) (kind : Container) (h : FileHeader) (width height : Nat) (f : OpenFile) :
    c.decodeFile t r i kind h width height f =
      (c.gather i (Harvest.ofFile t r i kind h width height f),
        (Harvest.ofFile t r i kind h width height f).ending) := by
  cases kind with
  | ktx2 => exact loadKtx2_eq hi t r f
  | dds => exact loadDds_eq c i h width height f
  | zim => exact loadImage_eq c i width height f Zim.decode
  | png => exact loadImage_eq c i width height f Png.decode
  | basis | invalid =>
    simp only [decodeFile, Harvest.ofFile, gather_nothing]
    rfl

/-- A level that the entry does not have is decoded: the chain lays down the harvest of
the file. -/
theorem loadFile_eq_gather {c : Chain} {i : Nat} (hi : c.levels.length = i)
    (hnew : c.entry.has i = false) (t : Option Transcoder) (r : Request) (f : OpenFile) :
    c.loadFile t r i f = (c.gather i (c.harvest t r i f), (c.harvest t r i f).ending) := by
  unfold loadFile harvest
  rcases f.identify with ⟨found, g⟩
  simp only
  rcases FileHeader.read found g r.support with e | h
  · simp only [gather_settled, gather_nothing]
    cases e <;> rfl
  simp only [hnew, Bool.false_eq_true, if_false]
  rcases c.levelSize? r h i with _ | ⟨width, height⟩
  · simp only [gather_nothing]
    rfl
  rcases g.rewind with _ | f'
  · simp only [gather_nothing]
    rfl
  · simp only [decodeFile_eq hi, settle_gather]

/-- Only the sizes of the levels before a file have a say in what it yields. -/
theorem harvest_congr {c c' : Chain} (h : c.levels = c'.levels) (t : Option Transcoder)
    (r : Request) (i : Nat) (f : OpenFile) : c.harvest t r i f = c'.harvest t r i f := by
  unfold harvest levelSize?
  rw [h]

end Chain
end TexturePack
