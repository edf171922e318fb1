import Mathlib
import TexturePack.Proofs.Image
import TexturePack.Proofs.Load.Harvest
import TexturePack.Proofs.Stream

/-! The sizes of decoded levels. All levels of a file form a pyramid below the first, and
the bytes of each fill its size. -/
namespace TexturePack

namespace Chain

/-- Sizes that are halved from level to level, at least 1. -/
def pyramid (width height : Nat) : Nat → List (Nat × Nat)
  | 0 => []
  | count + 1 => (width, height) :: pyramid (halve width) (halve height) count

theorem one_le_halve (d : Nat) : 1 ≤ halve d := Nat.le_max_right _ _

@[simp] theorem length_pyramid (width height count : Nat) :
    (pyramid width height count).length = count := by
  induction count generalizing width height with
  | zero => rfl
  | succ count ih => rw [pyramid, List.length_cons, ih]

theorem halve_shiftRight (d i : Nat) : halve (max (d >>> i) 1) = max (d >>> (i + 1)) 1 := by
  unfold halve
  rw [Nat.shiftRight_succ]
  omega

theorem halve_iterate_succ (d i : Nat) : halve^[i + 1] d = max (d >>> (i + 1)) 1 := by
  induction i with
  | zero => rfl
  | succ i ih => rw [Function.iterate_succ_apply', ih, halve_shiftRight]

/-- Only nothing is halved to something else than its shift. -/
theorem halve_iterate {d i : Nat} (h : 0 < d >>> i) : halve^[i] d = d >>> i := by
  rcases i with _ | i
  · rfl
  · rw [halve_iterate_succ]
    omega

theorem pyramid_add (width height m n : Nat) :
    pyramid width height (m + n) =
      pyramid width height m ++ pyramid (halve^[m] width) (halve^[m] height) n := by
  induction m generalizing width height with
  | zero => simp [pyramid]
  | succ m ih =>
    rw [Nat.succ_add, pyramid, ih, pyramid]
    rfl

/-- Nothing below a level with pixels is empty. -/
theorem pyramid_pos {width height : Nat} (hw : 0 < width) (hh : 0 < height) {count : Nat}
    {s : Nat × Nat} (hs : s ∈ pyramid width height count) : 0 < s.1 ∧ 0 < s.2 := by
  induction count generalizing width height with
  | zero => simp [pyramid] at hs
  | succ count ih =>
    rw [pyramid, List.mem_cons] at hs
    rcases hs with rfl | hs
    · exact ⟨hw, hh⟩
    · exact ih (one_le_halve width) (one_le_halve height) hs

/-- Nothing behind the first level is empty. -/
theorem pyramid_pos_of_pos {width height count k : Nat} {s : Nat × Nat}
    (hs : (pyramid width height count)[k]? = some s) (hk : 0 < k) : 0 < s.1 ∧ 0 < s.2 := by
  rcases count with _ | count
  · cases hs
  obtain ⟨n, rfl⟩ := Nat.exists_eq_succ_of_ne_zero hk.ne'
  rw [pyramid, List.getElem?_cons_succ] at hs
  exact pyramid_pos (one_le_halve width) (one_le_halve height) (List.mem_of_getElem? hs)

end Chain

open Chain

theorem blocksFor_pos {n : Nat} (h : 0 < n) : 0 < blocksFor n := by
  unfold blocksFor
  omega

theorem blocksFor_le {n : Nat} (h : n ≤ maxDimension) : blocksFor n ≤ maxDimension := by
  unfold blocksFor maxDimension at *
  omega

namespace PixelFormat

theorem packedSize_pos {f : PixelFormat} (hf : f ≠ .undefined) {width height : Nat}
    (hw : 0 < width) (hh : 0 < height) : 0 < f.packedSize width height := by
  have hblocks := Nat.mul_pos (blocksFor_pos hw) (blocksFor_pos hh)
  have hpixels := Nat.mul_pos hw hh
  cases f with
  | undefined => exact absurd rfl hf
  | rgba8 =>
    simp only [packedSize, blockSize?, if_true]
    omega
  | bc1 | bc2 | bc3 | bc7 | etc2 | astc =>
    simp only [packedSize, blockSize?]
    omega

theorem packedSize_of_nothing (f : PixelFormat) {width height : Nat}
    (h : width = 0 ∨ height = 0) : f.packedSize width height = 0 := by
  rcases h with rfl | rfl <;> cases f <;> simp [packedSize, blockSize?, blocksFor]

/-- No level of a size that containers may give overflows. -/
theorem packedSize_lt (f : PixelFormat) {width height : Nat} (hw : width ≤ maxDimension)
    (hh : height ≤ maxDimension) : f.packedSize width height < wordLimit := by
  have hpixels := Nat.mul_le_mul hw hh
  have hblocks := Nat.mul_le_mul (blocksFor_le hw) (blocksFor_le hh)
  simp only [maxDimension] at hpixels hblocks
  unfold wordLimit
  cases f with
  | undefined => simp [packedSize, blockSize?]
  | rgba8 =>
    simp only [packedSize, blockSize?, if_true]
    omega
  | bc1 | bc2 | bc3 | bc7 | etc2 | astc =>
    simp only [packedSize, blockSize?]
    omega

/-- The bytes are a whole level of some size. -/
def Filled (f : PixelFormat) (bytes : Bytes) (width height : Nat) : Prop :=
  f.checkedLevelSize? width height = some bytes.length

theorem filled_iff {f : PixelFormat} {bytes : Bytes} {width height : Nat} :
    f.Filled bytes width height ↔
      bytes.length = f.packedSize width height ∧ bytes.length < wordLimit := by
  unfold Filled checkedLevelSize?
  split
  next h =>
    rw [Option.some.injEq]
    constructor
    · intro heq
      exact ⟨heq.symm, heq ▸ h⟩
    · exact fun heq => heq.1.symm
  next h =>
    constructor
    · intro heq
      cases heq
    · rintro ⟨hlen, hlt⟩
      exact absurd (hlen ▸ hlt) h

theorem Filled.length_eq {f : PixelFormat} {bytes : Bytes} {width height : Nat}
    (h : f.Filled bytes width height) : bytes.length = f.levelSize width height := by
  unfold Filled at h
  rw [levelSize, h, Option.getD_some]

/-- A level has bytes if it has pixels. -/
theorem Filled.ne_nil_iff {f : PixelFormat} (hf : f ≠ .undefined) {bytes : Bytes}
    {width height : Nat} (h : f.Filled bytes width height) :
    bytes ≠ [] ↔ 0 < width ∧ 0 < height := by
  obtain ⟨hlen, -⟩ := filled_iff.mp h
  rw [← List.length_pos_iff, hlen]
  constructor
  · intro hpos
    by_contra hzero
    rw [f.packedSize_of_nothing (by omega)] at hpos
    exact absurd hpos (Nat.lt_irrefl 0)
  · rintro ⟨hw, hh⟩
    exact packedSize_pos hf hw hh

end PixelFormat

theorem Support.ne_undefined {s : Support} {format : PixelFormat} (h : s.allows format = true) :
    format ≠ .undefined := by
  rintro rfl
  cases h

namespace Dds

theorem filled_readLevel {f g : OpenFile} {format : PixelFormat} {width height : Nat}
    {bytes : Bytes} (h : readLevel f format width height = (.ok bytes, g)) :
    format.Filled bytes width height := by
  unfold readLevel at h
  split at h
  · cases h
  next size hsize =>
  split at h
  · cases h
  simp only [Prod.mk.injEq] at h
  rw [PixelFormat.Filled, hsize, (Delivery.record_eq_ok h.1).2]

theorem requireSupport_eq_ok {s : Support} {format : PixelFormat} {u : Unit}
    (h : requireSupport s format = .ok u) : s.allows format = true := by
  unfold requireSupport at h
  split at h
  · assumption
  · cases h

/-- A header has a size and a format that the device samples. -/
theorem readInfo_eq_ok {f g : OpenFile} {s : Support} {info : Info}
    (h : readInfo f s = .ok (info, g)) :
    0 < info.header.width ∧ 0 < info.header.height ∧ s.allows info.format = true := by
  unfold readInfo at h
  obtain ⟨⟨record, f'⟩, -, h⟩ := Decode.bind_eq_ok.mp h
  simp only at h
  split at h
  · cases h
  obtain ⟨_, hdim, h⟩ := Decode.bind_eq_ok.mp h
  have hsize := checkDimensions_eq_ok hdim
  split at h
  · cases h
  split at h
  · obtain ⟨⟨record', f''⟩, -, h⟩ := Decode.bind_eq_ok.mp h
    simp only at h
    split at h
    · cases h
    · obtain ⟨_, hs, h⟩ := Decode.bind_eq_ok.mp h
      cases h
      exact ⟨hsize.width_pos, hsize.height_pos, requireSupport_eq_ok hs⟩
  · split at h
    · cases h
    · obtain ⟨_, hs, h⟩ := Decode.bind_eq_ok.mp h
      cases h
      exact ⟨hsize.width_pos, hsize.height_pos, requireSupport_eq_ok hs⟩

end Dds

namespace Ktx2

theorem Header.validate_eq_ok {h : Header} {u : Unit} (hv : h.validate = .ok u) :
    Measured h.width h.height := by
  unfold validate at hv
  split at hv
  · cases hv
  split at hv
  · cases hv
  · exact checkDimensions_eq_ok hv

theorem File.parse_eq_ok {data : Bytes} {file : File} (h : File.parse data = .ok file) :
    file.header = .ofBytes data ∧ Measured file.header.width file.header.height := by
  unfold File.parse at h
  split at h
  · cases h
  obtain ⟨_, hv, h⟩ := Decode.bind_eq_ok.mp h
  have hsize := Header.validate_eq_ok hv
  simp only at h
  split at h
  · cases h
  split at h
  · cases h
  split at h
  · cases h
  · cases h
    exact ⟨rfl, hsize⟩

/-- The size of a file is told by the bytes that a look at its header reads. -/
theorem Header.ofBytes_take (data : Bytes) :
    (ofBytes (data.take byteSize)).width = (ofBytes data).width ∧
      (ofBytes (data.take byteSize)).height = (ofBytes data).height := by
  simp only [ofBytes, Bytes.word32, byteSize]
  rw [Bytes.slice_take (by omega), Bytes.slice_take (by omega)]
  exact ⟨rfl, rfl⟩

end Ktx2

namespace FileHeader

theorem read_eq_ok {found : Identified} {f : OpenFile} {s : Support} {h : FileHeader}
    (hr : read found f s = .ok h) : 0 < h.width ∧ 0 < h.height := by
  unfold read at hr
  split at hr
  · obtain ⟨⟨record, f'⟩, -, hr⟩ := Decode.bind_eq_ok.mp hr
    obtain ⟨_, hv, hr⟩ := Decode.bind_eq_ok.mp hr
    cases hr
    have hsize := Ktx2.Header.validate_eq_ok hv
    exact ⟨hsize.width_pos, hsize.height_pos⟩
  · cases hr
  · obtain ⟨⟨info, f'⟩, hi, hr⟩ := Decode.bind_eq_ok.mp hr
    cases hr
    obtain ⟨hw, hh, -⟩ := Dds.readInfo_eq_ok hi
    exact ⟨hw, hh⟩
  · obtain ⟨⟨record, f'⟩, -, hr⟩ := Decode.bind_eq_ok.mp hr
    obtain ⟨_, hv, hr⟩ := Decode.bind_eq_ok.mp hr
    cases hr
    have hsize := ZimHeader.validate_eq_ok hv
    exact ⟨hsize.width_pos, hsize.height_pos⟩
  · obtain ⟨⟨record, f'⟩, -, hr⟩ := Decode.bind_eq_ok.mp hr
    simp only at hr
    split at hr
    next hv =>
      cases hr
      simp only [Png.Peek.valid, Bool.and_eq_true, decide_eq_true_eq] at hv
      exact ⟨hv.1.1.1.2, hv.1.1.2⟩
    · cases hr
  · cases hr

theorem read_dds_allows {found : Identified} {f : OpenFile} {s : Support} {h : FileHeader}
    {info : Dds.Info} (hr : read found f s = .ok h) (hi : h.dds = some info) :
    s.allows info.format = true := by
  unfold read at hr
  split at hr
  · obtain ⟨⟨record, f'⟩, -, hr⟩ := Decode.bind_eq_ok.mp hr
    obtain ⟨_, hv, hr⟩ := Decode.bind_eq_ok.mp hr
    cases hr
    cases hi
  · cases hr
  · obtain ⟨⟨info', f'⟩, hinfo, hr⟩ := Decode.bind_eq_ok.mp hr
    cases hr
    cases hi
    exact (Dds.readInfo_eq_ok hinfo).2.2
  · obtain ⟨⟨record, f'⟩, -, hr⟩ := Decode.bind_eq_ok.mp hr
    obtain ⟨_, hv, hr⟩ := Decode.bind_eq_ok.mp hr
    cases hr
    cases hi
  · obtain ⟨⟨record, f'⟩, -, hr⟩ := Decode.bind_eq_ok.mp hr
    simp only at hr
    split at hr
    · cases hr
      cases hi
    · cases hr
  · cases hr

end FileHeader

namespace Harvest

/-- Levels that form a pyramid below a size and whose bytes fill their sizes. -/
def Stacked (layers : List Layer) (format : PixelFormat) (width height : Nat) : Prop :=
  layers.map Layer.size = pyramid width height layers.length ∧
    ∀ l ∈ layers, format.Filled l.bytes l.width l.height

theorem stacked_nil (format : PixelFormat) (width height : Nat) :
    Stacked [] format width height := ⟨rfl, by simp⟩

theorem stacked_cons {layers : List Layer} {format : PixelFormat} {bytes : Bytes}
    {width height : Nat} (hfilled : format.Filled bytes width height)
    (h : Stacked layers format (halve width) (halve height)) :
    Stacked (⟨bytes, width, height⟩ :: layers) format width height := by
  constructor
  · rw [List.map_cons, h.1]
    rfl
  · intro l hl
    rcases List.mem_cons.mp hl with rfl | hl
    · exact hfilled
    · exact h.2 l hl

/-- What can be relied on in a harvest whose first level has a given size. -/
structure Sound (g : Harvest) (width height : Nat) : Prop where
  sizes : g.layers.map Layer.size = pyramid width height g.layers.length
  filled : ∀ result format, g.ending = .ok (result, format) → ∀ l ∈ g.layers,
    format ≠ .undefined ∧ format.Filled l.bytes l.width l.height
  refused : ∀ e, g.ending = .error (.format e) → g.layers = []
  failed : ∀ format, g.ending = .ok (.failed, format) → g.layers = []
  finished : ∀ format, g.ending = .ok (.finished, format) → g.layers ≠ []
  more : ∀ format, g.ending = .ok (.more, format) →
    g.layers.length = 1 ∧ 0 < width ∧ 0 < height

theorem found_eq_failed {layers : List Layer} : found layers = .failed ↔ layers = [] := by
  cases layers <;> simp [found]

theorem found_eq_finished {layers : List Layer} : found layers = .finished ↔ layers ≠ [] := by
  cases layers <;> simp [found]

theorem found_ne_more (layers : List Layer) : found layers ≠ .more := by
  unfold found
  split <;> exact LoadResult.noConfusion

theorem sound_of_nil {g : Harvest} (width height : Nat) (hnil : g.layers = [])
    (h : ∀ result format, g.ending = .ok (result, format) → result = .failed) :
    g.Sound width height where
  sizes := by rw [hnil]; rfl
  filled _ _ _ l hl := by simp [hnil] at hl
  refused _ _ := hnil
  failed _ _ := hnil
  finished _ he := by cases h _ _ he
  more _ he := by cases h _ _ he

/-- A file that holds its levels itself and has been read to some point. -/
theorem sound_of_found {layers : List Layer} {alpha : Option Alpha} {requests : List LevelRequest}
    {format : PixelFormat} {width height : Nat} (hformat : format ≠ .undefined)
    (h : Stacked layers format width height) :
    Sound ⟨layers, alpha, requests, .ok (found layers, format)⟩ width height where
  sizes := h.1
  filled _ _ he l hl := by
    cases he
    exact ⟨hformat, h.2 l hl⟩
  refused _ he := by cases he
  failed _ he := by
    simp only [Except.ok.injEq, Prod.mk.injEq, found_eq_failed] at he
    exact he.1
  finished _ he := by
    simp only [Except.ok.injEq, Prod.mk.injEq, found_eq_finished] at he
    exact he.1
  more _ he := by
    simp only [Except.ok.injEq, Prod.mk.injEq] at he
    exact absurd he.1 (found_ne_more layers)

theorem sound_of_crash {layers : List Layer} {alpha : Option Alpha} {requests : List LevelRequest}
    {d : Defect} {width height : Nat}
    (hsizes : layers.map Layer.size = pyramid width height layers.length) :
    Sound ⟨layers, alpha, requests, .error (.defect d)⟩ width height :=
  ⟨hsizes, by simp, by simp, by simp, by simp, by simp⟩

theorem settled_sound {g : Harvest} {width height : Nat} (h : g.Sound width height)
    (promised : PixelFormat) : (g.settled promised).Sound width height := by
  rcases hg : g.ending with (e | d) | result
  · have hnil := h.refused e hg
    have hsettled : g.settled promised = ⟨[], g.alpha, g.requests, .ok (.failed, promised)⟩ := by
      simp [settled, hg, hnil]
    rw [hsettled]
    exact ⟨rfl, by simp, by simp, by simp, by simp, by simp⟩
  all_goals
    have hsettled : g.settled promised = g := by
      rcases g with ⟨layers, alpha, requests, ending⟩
      cases hg
      rfl
    rwa [hsettled]

theorem slices_stacked (format : PixelFormat) (f : OpenFile) (width height n : Nat) :
    Stacked (slices format f width height n).1 format width height := by
  induction n generalizing f width height with
  | zero => exact stacked_nil format width height
  | succ n ih =>
    rw [slices]
    rcases hr : Dds.readLevel f format width height with ⟨_ | bytes, f'⟩
    next e => cases e <;> exact stacked_nil format width height
    next => exact stacked_cons (Dds.filled_readLevel hr) (ih f' _ _)

theorem slices_ending (format : PixelFormat) (f : OpenFile) (width height n : Nat)
    (e : FormatError) : (slices format f width height n).2 ≠ .error (.format e) := by
  induction n generalizing f width height with
  | zero => simp [slices]
  | succ n ih =>
    rw [slices]
    rcases Dds.readLevel f format width height with ⟨_ | bytes, f'⟩
    next e' => cases e' <;> simp [Decode.crash]
    next => exact ih f' _ _

theorem ofDds_sound {h : FileHeader}
    (hformat : ∀ info, h.dds = some info → info.format ≠ .undefined) (i width height : Nat)
    (f : OpenFile) : (ofDds h i width height f).Sound width height := by
  unfold ofDds
  rcases hd : h.dds with _ | info
  · exact sound_of_nil width height rfl (by simp [nothing, Decode.refuse])
  simp only
  rcases f.seek (.start info.dataStart) with _ | f'
  · exact sound_of_nil width height rfl (by simp [Decode.refuse])
  simp only
  have hstacked := slices_stacked info.format f' width height (min info.levels (maxLevels - i))
  have hending := slices_ending info.format f' width height (min info.levels (maxLevels - i))
  generalize slices info.format f' width height (min info.levels (maxLevels - i)) = cut at *
  rcases cut with ⟨layers, (e | d) | u⟩
  · exact absurd rfl (hending e)
  · exact sound_of_crash hstacked.1
  · exact sound_of_found (hformat info hd) hstacked

theorem geometry?_eq_some {file : Ktx2.File} {level : Nat} {g : Ktx2.LevelGeometry}
    (h : file.geometry? level = .ok (some g)) :
    g = .ofSize (Ktx2.halved file.header.width level) (Ktx2.halved file.header.height level) := by
  unfold Ktx2.File.geometry? at h
  split at h
  · cases h
  split at h
  · cases h
  · cases h
    rfl

theorem layout_size_ofSize (width height : Nat) (target : Ktx2.Target) :
    ((Ktx2.LevelGeometry.ofSize width height).layout target).size =
      target.format.packedSize width height := by
  cases target <;> rfl

theorem target_format_ne_undefined (target : Ktx2.Target) : target.format ≠ .undefined := by
  cases target <;> exact PixelFormat.noConfusion

theorem halved_le {d : Nat} (h : d ≤ maxDimension) (level : Nat) :
    Ktx2.halved d level ≤ maxDimension := by
  have hshift : d >>> level ≤ d := Nat.shiftRight_le d level
  unfold Ktx2.halved maxDimension at *
  omega

theorem filled_buffer {width height : Nat} (hw : width ≤ maxDimension)
    (hh : height ≤ maxDimension) (target : Ktx2.Target) (byteAt : Nat → UInt8) :
    target.format.Filled
      (buffer ((Ktx2.LevelGeometry.ofSize width height).layout target).size byteAt)
      width height := by
  have hlen : (buffer ((Ktx2.LevelGeometry.ofSize width height).layout target).size byteAt).length =
      target.format.packedSize width height := by
    rw [buffer, List.length_map, List.length_range, layout_size_ofSize]
  rw [PixelFormat.filled_iff, hlen]
  exact ⟨rfl, target.format.packedSize_lt hw hh⟩

/-- Transcoded levels have the sizes of the file and fill them. -/
theorem transcodedLayers_levelsFrom (t : Transcoder) {file : Ktx2.File}
    (hsize : Measured file.header.width file.header.height) (target : Ktx2.Target)
    (level count : Nat) :
    Stacked (transcodedLayers file (t.levelsFrom file target level count).levels) target.format
      (Ktx2.halved file.header.width level) (Ktx2.halved file.header.height level) := by
  induction count generalizing level with
  | zero => exact stacked_nil _ _ _
  | succ count ih =>
    rw [Transcoder.levelsFrom]
    rcases hg : file.geometry? level with e | _ | g
    · exact stacked_nil _ _ _
    · exact stacked_nil _ _ _
    obtain rfl := geometry?_eq_some hg
    simp only [Transcription.request]
    rcases t.level file target level _ with byteAt | e | _
    · have hfilled := filled_buffer (halved_le hsize.width_le level)
        (halved_le hsize.height_le level) target byteAt
      have hw : halve (Ktx2.halved file.header.width level) =
          Ktx2.halved file.header.width (level + 1) := halve_shiftRight _ _
      have hh : halve (Ktx2.halved file.header.height level) =
          Ktx2.halved file.header.height (level + 1) := halve_shiftRight _ _
      have hrest := ih (level + 1)
      rw [← hw, ← hh] at hrest
      simp only [Transcription.deliver, transcodedLayers, List.filterMap_cons, hg]
      exact stacked_cons hfilled hrest
    · exact stacked_nil _ _ _
    · exact stacked_nil _ _ _

theorem transcodedLayers_transcode (t : Transcoder) {file : Ktx2.File}
    (hsize : Measured file.header.width file.header.height) (target : Ktx2.Target)
    (count : Nat) :
    Stacked (transcodedLayers file (t.transcode file count target).levels) target.format
      file.header.width file.header.height := by
  unfold Transcoder.transcode
  split
  · exact stacked_nil _ _ _
  · have h := transcodedLayers_levelsFrom t hsize target 0 count
    simpa only [Ktx2.halved, Nat.shiftRight_zero, Nat.max_eq_left hsize.width_pos,
      Nat.max_eq_left hsize.height_pos] using h

theorem ofUniversal_sound (t : Transcoder) {file : Ktx2.File}
    (hsize : Measured file.header.width file.header.height) (p : Ktx2.Payload) (s : Support)
    (i : Nat) : (ofUniversal t file p s i).Sound file.header.width file.header.height := by
  have hstacked := transcodedLayers_transcode t hsize (transcodeTarget t p s)
    (min file.levels (maxLevels - i))
  simp only [ofUniversal]
  generalize t.transcode file (min file.levels (maxLevels - i)) (transcodeTarget t p s) = run at *
  have hformat := target_format_ne_undefined (transcodeTarget t p s)
  rcases run with ⟨levels, requests, (e | d) | u⟩
  · exact sound_of_found hformat hstacked
  · exact sound_of_crash hstacked.1
  · exact sound_of_found hformat hstacked

theorem ofImage_sound {width height : Nat} {decode : Bytes → Nat → Nat → Decode Image}
    (hdecode : ∀ bytes image, decode bytes width height = .ok image → image.Fills width height)
    (i : Nat) (f : OpenFile) :
    (ofImage i width height f decode).Sound width height := by
  unfold ofImage
  rcases hd : f.readAll f.size >>= fun bytes => decode bytes width height with e | image
  · exact sound_of_nil width height rfl (by simp [nothing])
  obtain ⟨bytes, -, hd⟩ := Decode.bind_eq_ok.mp hd
  have hfills := hdecode bytes image hd
  refine ⟨rfl, ?_, by simp, by simp, by simp, fun _ _ => ⟨rfl, hfills.width_pos, hfills.height_pos⟩⟩
  intro result format he l hl
  cases he
  rw [List.mem_singleton] at hl
  subst hl
  refine ⟨PixelFormat.noConfusion, PixelFormat.filled_iff.mpr ⟨?_, ?_⟩⟩
  · rw [hfills.length]
    simp only [PixelFormat.packedSize, PixelFormat.blockSize?, if_true]
    rw [Nat.mul_comm 4, Nat.mul_assoc, Nat.mul_comm 4, Nat.mul_assoc]
  · exact hfills.length_lt.trans (by decide)

/-- The sizes of a universal texture are its own, whatever size its level calls for. -/
theorem ofKtx2_sound {t : Option Transcoder} {r : Request} {f : OpenFile} {file : Ktx2.File}
    (hparse : f.readAll f.size >>= Ktx2.File.parse = .ok file) (i : Nat) :
    (ofKtx2 t r i f).Sound file.header.width file.header.height := by
  obtain ⟨data, -, hfile⟩ := Decode.bind_eq_ok.mp hparse
  obtain ⟨-, hsize⟩ := Ktx2.File.parse_eq_ok hfile
  unfold ofKtx2
  rw [hparse]
  rcases hp : file.payload? with _ | p
  · exact sound_of_nil _ _ (by simp [nothing, hp]) (by simp [nothing, hp, Decode.refuse])
  rcases t with _ | t
  · exact sound_of_nil _ _ (by simp [nothing, hp]) (by simp [nothing, hp, Decode.refuse])
  · simp only [hp]
    exact ofUniversal_sound t hsize p r.support i

end Harvest

theorem OpenFile.rewind_eq_ok {f g : OpenFile} (h : f.rewind = .ok g) :
    g = { f with position := 0 } ∧ f.seekable = true := by
  unfold rewind seek at h
  split at h
  · cases h
  next hs =>
    simp only at h
    split at h
    · cases h
    · cases h
      exact ⟨rfl, by simpa using hs⟩

/-- A file that has been identified is at its start, if it can go back there. -/
theorem OpenFile.rewind_identify {f g : OpenFile} (hk : f.identify.1.container ≠ .invalid)
    (hr : f.identify.2.rewind = .ok g) : g = f.identify.2 := by
  unfold identify at hk hr ⊢
  simp only at hk hr ⊢
  split at hk
  · exact absurd rfl hk
  next hd =>
  rw [if_neg hd] at hr ⊢
  split at hr
  next rewound hrewound =>
    obtain ⟨rfl, -⟩ := OpenFile.rewind_eq_ok hrewound
    obtain ⟨rfl, -⟩ := OpenFile.rewind_eq_ok hr
    simp only
  next e herror =>
    simp only [herror] at hr
    cases hr

/-- The size in the header of a universal texture is the one that its levels have. -/
theorem FileHeader.read_ktx2 {found : Identified} {f : OpenFile} {s : Support} {h : FileHeader}
    {file : Ktx2.File} (hk : found.container = .ktx2) (hr : read found f s = .ok h)
    (hparse : f.readAll f.size >>= Ktx2.File.parse = .ok file) :
    h.width = file.header.width ∧ h.height = file.header.height := by
  obtain ⟨data, hdata, hfile⟩ := Decode.bind_eq_ok.mp hparse
  obtain ⟨hheader, -⟩ := Ktx2.File.parse_eq_ok hfile
  have htake := Script.readFully_of_untilEnd (OpenFile.readAll_eq_ok hdata) Ktx2.Header.byteSize
  unfold read at hr
  rw [hk] at hr
  obtain ⟨⟨record, f'⟩, hrecord, hr⟩ := Decode.bind_eq_ok.mp hr
  obtain ⟨_, -, hr⟩ := Decode.bind_eq_ok.mp hr
  have hbytes : record = data.take Ktx2.Header.byteSize :=
    (OpenFile.readRecord_eq_ok hrecord).1.symm.trans htake.1
  cases hr
  rw [hheader, hbytes]
  exact Ktx2.Header.ofBytes_take data

end TexturePack
