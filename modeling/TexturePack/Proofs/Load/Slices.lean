import Mathlib
import TexturePack.Proofs.OpenFile
import TexturePack.Proofs.Load.Residue

/-! The levels of a DDS file are slices of it that follow each other from the end of its header on.
A load lists as many as the file holds, and each has its slice. -/
namespace TexturePack

open Chain

namespace PixelFormat

/-- Bytes of level `k` below a first level of some size. -/
def mipSize (f : PixelFormat) (width height k : Nat) : Nat :=
  f.levelSize (halve^[k] width) (halve^[k] height)

/-- Bytes of the first `n` levels. -/
def mipTotal (f : PixelFormat) (width height n : Nat) : Nat :=
  ∑ k ∈ Finset.range n, f.mipSize width height k

@[simp] theorem mipTotal_zero (f : PixelFormat) (width height : Nat) :
    f.mipTotal width height 0 = 0 := rfl

theorem mipTotal_succ (f : PixelFormat) (width height n : Nat) :
    f.mipTotal width height (n + 1) = f.mipTotal width height n + f.mipSize width height n :=
  Finset.sum_range_succ ..

/-- The levels behind the first are those below half its size. -/
theorem mipTotal_succ_halve (f : PixelFormat) (width height n : Nat) :
    f.mipTotal width height (n + 1) =
      f.levelSize width height + f.mipTotal (halve width) (halve height) n := by
  rw [mipTotal, Finset.sum_range_succ', Nat.add_comm]
  rfl

theorem mipTotal_mono (f : PixelFormat) (width height : Nat) : Monotone (f.mipTotal width height) :=
  monotone_nat_of_le_succ fun n => by
    rw [mipTotal_succ]
    exact Nat.le_add_right _ _

/-- A level whose size fits a word, but of which no buffer can be made. -/
def Unbuffered (f : PixelFormat) (width height : Nat) : Prop :=
  bufferLimit ≤ f.packedSize width height ∧ f.packedSize width height < wordLimit

theorem checkedLevelSize?_of_lt {f : PixelFormat} {width height : Nat}
    (h : f.packedSize width height < bufferLimit) :
    f.checkedLevelSize? width height = some (f.levelSize width height) ∧
      f.levelSize width height < bufferLimit := by
  have hword : f.packedSize width height < wordLimit := h.trans (by decide)
  rw [levelSize, checkedLevelSize?, if_pos hword]
  exact ⟨rfl, h⟩

theorem checkedLevelSize?_of_le {f : PixelFormat} {width height : Nat}
    (h : wordLimit ≤ f.packedSize width height) :
    f.checkedLevelSize? width height = none ∧ bufferLimit ≤ f.levelSize width height := by
  rw [levelSize, checkedLevelSize?, if_neg (Nat.not_lt.mpr h)]
  exact ⟨rfl, by decide⟩

/-- Half of what fits 32 bits has few enough blocks for a buffer. -/
theorem not_unbuffered_of_lt {f : PixelFormat} (hf : f.blockCompressed = true) {width height : Nat}
    (hw : width < halfWordLimit / 2) (hh : height < halfWordLimit / 2) :
    ¬f.Unbuffered width height := by
  have hblocks : blocksFor width * blocksFor height ≤ 2 ^ 29 * 2 ^ 29 := by
    refine Nat.mul_le_mul ?_ ?_ <;> (unfold blocksFor; unfold halfWordLimit at *; omega)
  rintro ⟨hlarge, -⟩
  unfold bufferLimit at hlarge
  cases f with
  | undefined | rgba8 => cases hf
  | bc1 | bc2 | bc3 | bc7 | etc2 | astc =>
    simp only [packedSize, blockSize?] at hlarge
    omega

end PixelFormat

theorem Chain.halve_lt {d : Nat} (h : d < halfWordLimit) : halve d < halfWordLimit / 2 := by
  unfold halve
  unfold halfWordLimit at *
  omega

namespace Dds

variable {f rest : OpenFile} {format : PixelFormat} {width height : Nat} {s : Support} {info : Info}

/-- A level is read if its bytes are all there. -/
theorem readLevel_cases (hf : f.Reliable) (hlen : f.content.length < bufferLimit)
    (hpos : f.position ≤ f.content.length) (hsize : ¬format.Unbuffered width height) :
    (f.position + format.levelSize width height ≤ f.content.length ∧
        readLevel f format width height =
          (.ok (f.content.slice f.position (format.levelSize width height)),
            { f with position := f.position + format.levelSize width height })) ∨
      f.content.length < f.position + format.levelSize width height ∧
        ∃ e g, readLevel f format width height = (.refuse e, g) := by
  by_cases hword : wordLimit ≤ format.packedSize width height
  · obtain ⟨hchecked, hlarge⟩ := PixelFormat.checkedLevelSize?_of_le hword
    refine .inr ⟨by omega, .invalidHeader (.ddsLevelTooLarge width height), f, ?_⟩
    rw [readLevel, hchecked]
  have hbuffer : format.packedSize width height < bufferLimit := by
    by_contra hlarge
    exact hsize ⟨Nat.le_of_not_lt hlarge, Nat.lt_of_not_le hword⟩
  obtain ⟨hchecked, hsmall⟩ := PixelFormat.checkedLevelSize?_of_lt hbuffer
  have hread : readLevel f format width height =
      ((f.readFully (format.levelSize width height)).1.record (format.levelSize width height),
        (f.readFully (format.levelSize width height)).2) := by
    rw [readLevel, hchecked]
    exact if_neg (Nat.not_le.mpr hsmall)
  obtain ⟨-, -, hrest⟩ := hf.readFully_eq (format.levelSize width height)
  rw [hread, hf.record_eq, hrest]
  rw [Bytes.length_slice]
  by_cases hfits : f.position + format.levelSize width height ≤ f.content.length
  · have hwhole : min (format.levelSize width height) (f.content.length - f.position) =
        format.levelSize width height := by omega
    rw [if_pos hwhole, hwhole]
    exact .inl ⟨hfits, rfl⟩
  · rw [if_neg (by omega)]
    exact .inr ⟨Nat.lt_of_not_le hfits, _, _, rfl⟩

theorem readLevel_of_unbuffered (f : OpenFile) (h : format.Unbuffered width height) :
    readLevel f format width height = (.crash .sizeOverflow, f) := by
  rw [readLevel, PixelFormat.checkedLevelSize?, if_pos h.2]
  exact if_pos h.1

/-- What is known of a file whose header can be read. -/
structure Heads (info : Info) (content : Bytes) : Prop where
  mark : content.take 4 = Header.mark
  extended : info.extension.isSome ↔ info.header.layout.fourCC = dx10
  inside : info.dataStart ≤ content.length
  measured : Measured info.header.width info.header.height
  compressed : info.format.blockCompressed = true

theorem Heads.dataStart_eq {content : Bytes} (h : Heads info content) :
    info.dataStart = if info.header.layout.fourCC = dx10 then 148 else 128 := by
  rw [Info.dataStart, Header.byteSize, Extension.byteSize]
  simp only [h.extended]
  split <;> rfl

theorem compressed_of_fourCC {code : Nat} (h : formatOfFourCC? code = some format) :
    format.blockCompressed = true := by
  unfold formatOfFourCC? at h
  split at h
  · cases h
    rfl
  split at h
  · cases h
    rfl
  split at h <;> cases h
  rfl

theorem compressed_of_dxgi {code : Nat} (h : formatOfDxgi? code = some format) :
    format.blockCompressed = true := by
  unfold formatOfDxgi? at h
  split at h <;> cases h
  rfl

/-- Reading a header leaves the file where its block data begins. -/
theorem heads_of_readInfo (hf : f.Reliable) (hstart : f.position = 0)
    (h : readInfo f s = .ok (info, rest)) :
    Heads info f.content ∧ rest = { f with position := info.dataStart } := by
  unfold readInfo at h
  obtain ⟨⟨record, f₁⟩, hrecord, h⟩ := Decode.bind_eq_ok.mp h
  obtain ⟨rfl, hlen, rfl⟩ := hf.readRecord_eq_ok hrecord
  rw [hstart, Bytes.length_slice, Header.byteSize] at hlen
  simp only [hstart, Nat.zero_add] at h
  split at h
  · cases h
  next hmagic =>
  obtain ⟨_, hdim, h⟩ := Decode.bind_eq_ok.mp h
  have hmeasured := checkDimensions_eq_ok hdim
  have hmark : f.content.take 4 = Header.mark := by
    have hfront : Bytes.slice (f.content.take Header.byteSize) 0 4 = f.content.slice 0 4 :=
      Bytes.slice_take (by decide)
    exact hfront.symm.trans (not_not.mp hmagic)
  split at h
  · cases h
  split at h
  next hext =>
    obtain ⟨⟨record, f₂⟩, hrecord, h⟩ := Decode.bind_eq_ok.mp h
    obtain ⟨rfl, hlen', rfl⟩ := (hf.moved _).readRecord_eq_ok hrecord
    rw [Bytes.length_slice, Header.byteSize, Extension.byteSize] at hlen'
    simp only at h hlen'
    split at h
    · cases h
    next format hformat =>
      obtain ⟨_, -, h⟩ := Decode.bind_eq_ok.mp h
      cases h
      refine ⟨⟨hmark, iff_of_true rfl hext, ?_, hmeasured, compressed_of_dxgi hformat⟩, rfl⟩
      change 148 ≤ f.content.length
      omega
  next hplain =>
    split at h
    · cases h
    next format hformat =>
      obtain ⟨_, -, h⟩ := Decode.bind_eq_ok.mp h
      cases h
      refine ⟨⟨hmark, iff_of_false (by simp) hplain, ?_, hmeasured, compressed_of_fourCC hformat⟩,
        rfl⟩
      change 128 ≤ f.content.length
      omega

end Dds

/-- Level `k` of those that begin at some offset of a file. -/
def Layer.cut (content : Bytes) (format : PixelFormat) (start width height k : Nat) : Layer where
  bytes := content.slice (start + format.mipTotal width height k) (format.mipSize width height k)
  width := halve^[k] width
  height := halve^[k] height

theorem Layer.cut_succ (content : Bytes) (format : PixelFormat) (start width height k : Nat) :
    Layer.cut content format start width height (k + 1) =
      Layer.cut content format (start + format.levelSize width height) (halve width) (halve height)
        k := by
  unfold Layer.cut
  rw [PixelFormat.mipTotal_succ_halve, Nat.add_assoc]
  rfl

/-- How many levels a file holds from some offset on, of at most `count`. -/
def Held (content : Bytes) (format : PixelFormat) (start width height count n : Nat) : Prop :=
  IsGreatest {n | n ≤ count ∧ start + format.mipTotal width height n ≤ content.length} n

theorem held_zero {content : Bytes} {format : PixelFormat} {start width height count : Nat}
    (hstart : start ≤ content.length)
    (h : count = 0 ∨ content.length < start + format.levelSize width height) :
    Held content format start width height count 0 := by
  refine ⟨⟨Nat.zero_le _, hstart⟩, ?_⟩
  rintro (_ | n) ⟨hn, hfits⟩
  · exact le_rfl
  · rw [PixelFormat.mipTotal_succ_halve] at hfits
    omega

theorem Held.succ {content : Bytes} {format : PixelFormat} {start width height count n : Nat}
    (h : Held content format (start + format.levelSize width height) (halve width) (halve height)
      count n) : Held content format start width height (count + 1) (n + 1) := by
  obtain ⟨⟨hn, hfits⟩, hgreatest⟩ := h
  refine ⟨⟨Nat.succ_le_succ hn, ?_⟩, ?_⟩
  · rw [PixelFormat.mipTotal_succ_halve]
    omega
  · rintro (_ | m) ⟨hm, hfits'⟩
    · exact Nat.zero_le _
    · rw [PixelFormat.mipTotal_succ_halve] at hfits'
      exact Nat.succ_le_succ (hgreatest ⟨Nat.le_of_succ_le_succ hm, by omega⟩)

/-- The levels that are read are the consecutive slices that the file holds. -/
theorem Harvest.slices_eq {f : OpenFile} {format : PixelFormat} (hf : f.Reliable)
    (hlen : f.content.length < bufferLimit) (hpos : f.position ≤ f.content.length)
    (hformat : format.blockCompressed = true) {width height : Nat} (hw : width < halfWordLimit)
    (hh : height < halfWordLimit) (hsize : ¬format.Unbuffered width height) (count : Nat) :
    ∃ n, Held f.content format f.position width height count n ∧
      slices format f width height count =
        ((List.range n).map (Layer.cut f.content format f.position width height), .ok ()) := by
  induction count generalizing f width height with
  | zero => exact ⟨0, held_zero hpos (.inl rfl), rfl⟩
  | succ count ih =>
    rcases Dds.readLevel_cases hf hlen hpos hsize with ⟨hfits, hread⟩ | ⟨hshort, e, g, hread⟩
    · have hw' := halve_lt hw
      have hh' := halve_lt hh
      obtain ⟨n, hn, hslices⟩ := ih (hf.moved (f.position + format.levelSize width height)) hlen
        hfits (hw'.trans (by decide)) (hh'.trans (by decide))
        (PixelFormat.not_unbuffered_of_lt hformat hw' hh')
      refine ⟨n + 1, hn.succ, ?_⟩
      rw [slices, hread]
      simp only [hslices]
      rw [List.range_succ_eq_map, List.map_cons, List.map_map]
      congr 2
      exact List.map_congr_left fun k _ => (Layer.cut_succ ..).symm
    · refine ⟨0, held_zero hpos (.inr hshort), ?_⟩
      rw [slices, hread]
      rfl

theorem Harvest.slices_of_unbuffered {format : PixelFormat} {width height : Nat}
    (h : format.Unbuffered width height) (f : OpenFile) {count : Nat} (hcount : 0 < count) :
    slices format f width height count = ([], .crash .sizeOverflow) := by
  obtain ⟨count, rfl⟩ := Nat.exists_eq_succ_of_ne_zero hcount.ne'
  rw [slices, Dds.readLevel_of_unbuffered f h]
  rfl

theorem scaleTruncating_lt {value num den : Nat} (h : value < halfWordLimit) :
    scaleTruncating value num den < halfWordLimit := by
  unfold scaleTruncating
  split
  · exact h
  · exact Nat.lt_of_le_pred (by decide) (Nat.min_le_right ..)

/-- A load that lists the first levels below some size, all from one file, and has put their bytes
into the entry. -/
structure LoadRun.Holds (run : LoadRun) (entry : LevelData) (file : FileReference)
    (format : PixelFormat) (width height n : Nat) (bytes : Nat → Bytes) : Prop where
  outcome : run.outcome = some
    ⟨(List.range n).map fun k =>
        ⟨halve^[k] width, halve^[k] height, if k = 0 then some file else none⟩,
      if n = 0 then .undefined else format, .unknown, if n = 0 then .failed else .finished, false⟩
  bytes : ∀ k, run.entry.bytes k = if k < n then bytes k else []
  untouched : n = 0 → run.entry = entry

theorem LoadRun.Holds.congr {run : LoadRun} {entry : LevelData} {file : FileReference}
    {format : PixelFormat} {width height n : Nat} {bytes bytes' : Nat → Bytes}
    (h : run.Holds entry file format width height n bytes) (heq : ∀ k < n, bytes k = bytes' k) :
    run.Holds entry file format width height n bytes' where
  outcome := h.outcome
  bytes k := by
    rw [h.bytes k]
    split
    next hk => exact heq k hk
    next => rfl
  untouched := h.untouched

namespace Chain

variable {src : Sources} {r : Request} {cut : Option Nat} {entry : LevelData} {name : String}
  {file : FileReference} {f rest : OpenFile} {info : Dds.Info}

/-- The first file of a load is read from the end of its header on. -/
theorem harvest_of_heads (hf : f.Reliable) (hstart : f.position = 0)
    (hinfo : Dds.readInfo f r.support = .ok (info, rest)) (t : Option Transcoder)
    (c : Chain) {size : Nat × Nat}
    (hsize : r.rescaleTruncating info.header.width info.header.height = size)
    {layers : List Layer} {ending : Decode Unit}
    (hslices : Harvest.slices info.format rest size.1 size.2 (min info.levels maxLevels) =
      (layers, ending)) :
    c.harvest t r 0 f = Harvest.settled
      ⟨layers, some .unknown, [], ending.map fun _ => (Harvest.found layers, info.format)⟩
      info.format := by
  obtain ⟨hheads, hrest⟩ := Dds.heads_of_readInfo hf hstart hinfo
  have hlong : 4 ≤ f.content.length := by
    have h := hheads.inside
    rw [Dds.Info.dataStart, Dds.Header.byteSize] at h
    omega
  have hidentify := hf.identify_eq hstart hlong
  rw [hheads.mark] at hidentify
  have hread : FileHeader.read f.identify.1 f.identify.2 r.support =
      .ok ⟨info.header.width, info.header.height, info.format, some info⟩ := by
    rw [hidentify]
    change FileHeader.readDds f r.support = _
    rw [FileHeader.readDds, hinfo]
    rfl
  have hrewind : f.identify.2.rewind = .ok f := by
    rw [hidentify, OpenFile.rewind_of_seekable hf.seekable, ← hstart]
  have hseek : f.seek (.start info.dataStart) = .ok rest := by
    have hword : info.dataStart < wordLimit := by
      rw [hheads.dataStart_eq]
      split <;> decide
    unfold OpenFile.seek
    simp only [hf.seekable, Bool.not_true, Bool.false_eq_true, if_false]
    rw [if_neg (by omega), Int.toNat_natCast, hrest, hf.seekable]
  unfold harvest
  rw [hread]
  simp only [levelSize?_zero, hsize, hrewind]
  rw [hidentify]
  have hkind : Container.ofMagic Dds.Header.mark = .dds := rfl
  simp only [hkind, Harvest.ofFile, Harvest.ofDds, hseek, Nat.sub_zero, hslices]

/-- The first file of a load that begins with no level is decoded. -/
theorem walk_first_fresh (hname : r.names.head? = some name) (hcut : cut ≠ some 0)
    (ho : src.Opens name file f) (hnew : entry.has 0 = false) (w : Walk) :
    (start entry).walk src r cut 0 w (r.names.take maxLevels) =
      match ((start entry).harvest src.transcoder r 0 f).ending with
      | .error e =>
          (((start entry).opening name file).gather 0 ((start entry).harvest src.transcoder r 0 f),
            .error e)
      | .ok ended =>
          pursue src r cut 0 w (r.names.tail.take (maxLevels - 1))
            ((start entry).laid name file 0 ((start entry).harvest src.transcoder r 0 f),
              .ok ended) := by
  obtain ⟨names, hnames⟩ := List.head?_eq_some_iff.mp hname
  rw [hnames]
  exact walk_fresh (c := start entry) rfl hcut ho hnew w _

/-- A load whose first file crashes leaves the entry as it is, if nothing has been decoded. -/
theorem load_of_crash (hname : r.names.head? = some name) (hcut : cut ≠ some 0)
    (ho : src.Opens name file f) (hnew : entry.has 0 = false) {alpha : Option Alpha} {d : Defect}
    (hg : (start entry).harvest src.transcoder r 0 f = ⟨[], alpha, [], .crash d⟩) :
    (loadLevels src r cut entry).outcome = none ∧ (loadLevels src r cut entry).entry = entry := by
  rw [loadLevels, walk_first_fresh hname hcut ho hnew, hg]
  exact ⟨rfl, rfl⟩

/-- A load ends with a first file that holds its levels itself, whether it has any or not. -/
theorem walk_found (hname : r.names.head? = some name) (hcut : cut ≠ some 0)
    (ho : src.Opens name file f) (hnew : entry.has 0 = false) {g : Harvest} {format : PixelFormat}
    (hg : (start entry).harvest src.transcoder r 0 f = g)
    (hending : g.ending = .ok (Harvest.found g.layers, format)) :
    (start entry).walk src r cut 0 ⟨.undefined, firstResult r, false⟩ (r.names.take maxLevels) =
      ((start entry).laid name file 0 g,
        .ok ⟨if g.layers = [] then .undefined else format, Harvest.found g.layers, false⟩) := by
  rw [walk_first_fresh hname hcut ho hnew, hg]
  simp only [hending]
  rcases hlayers : g.layers with _ | ⟨l, ls⟩
  · rfl
  · exact pursue_finished rfl _

/-- The first level of a file keeps it. -/
theorem laid_levels_range {g : Harvest} {n width height : Nat} {layer : Nat → Layer}
    (hg : g.layers = (List.range n).map layer)
    (hlayer : ∀ k, (layer k).width = halve^[k] width ∧ (layer k).height = halve^[k] height) :
    ((start entry).laid name file 0 g).levels = (List.range n).map fun k =>
      ⟨halve^[k] width, halve^[k] height, if k = 0 then some file else none⟩ := by
  rw [laid_levels, hg]
  apply List.ext_getElem
  · simp [start]
  · intro k hk _
    simp only [start, List.nil_append, List.getElem_modify, List.getElem_map, List.getElem_range,
      Layer.record, (hlayer k).1, (hlayer k).2, eq_comm (a := 0)]
    split <;> rfl

/-- A load whose first file holds its levels itself ends with these. -/
theorem load_of_found (hempty : entry.isEmpty = true) (hname : r.names.head? = some name)
    (hcut : cut ≠ some 0) (ho : src.Opens name file f) {format : PixelFormat}
    {width height n : Nat} (layer : Nat → Layer)
    (hlayer : ∀ k, (layer k).width = halve^[k] width ∧ (layer k).height = halve^[k] height)
    (hg : (start entry).harvest src.transcoder r 0 f =
      ⟨(List.range n).map layer, some .unknown, [],
        .ok (Harvest.found ((List.range n).map layer), format)⟩) :
    (loadLevels src r cut entry).Holds entry file format width height n
      fun k => (layer k).bytes := by
  have hnew : entry.has 0 = false := LevelData.not_has_of_isEmpty hempty 0
  obtain ⟨houtcome, hrun⟩ := loadLevels_of_walk (walk_found hname hcut ho hnew hg rfl)
  refine ⟨?_, fun k => ?_, ?_⟩
  · rw [houtcome, outcome, laid_levels_range rfl hlayer, laid_alpha]
    rcases n with _ | n
    · rfl
    · rw [List.range_succ_eq_map]
      rfl
  · rw [hrun, commit_bytes, laid_entry, LevelData.bytes_putAll, List.map_map, List.length_map,
      List.length_range, Nat.zero_add, Nat.sub_zero]
    by_cases hk : k < n
    · rw [if_pos ⟨Nat.zero_le k, hk⟩, if_pos hk, List.getD_eq_getElem?_getD, List.getElem?_map,
        List.getElem?_range hk]
      rfl
    · rw [if_neg (fun h => hk h.2), if_neg hk]
      exact LevelData.isEmpty_iff.mp hempty k
  · rintro rfl
    rw [hrun, commit_eq_entry (.inl (laid_levels_eq_nil_iff.mpr ⟨rfl, rfl⟩)), laid_entry]
    rfl

end Chain

/-- The block data of the levels below some size. -/
def Blocks (format : PixelFormat) (width height : Nat) (blocks : List Bytes) : Prop :=
  ∀ k (hk : k < blocks.length), blocks[k].length = format.mipSize width height k

namespace Blocks

variable {format : PixelFormat} {width height n k t start : Nat} {blocks : List Bytes}
  {content : Bytes}

theorem mipTotal_eq (h : Blocks format width height blocks) (hn : n ≤ blocks.length) :
    format.mipTotal width height n = ((blocks.map List.length).take n).sum := by
  induction n with
  | zero => rfl
  | succ n ih =>
    have hlast : (blocks.map List.length)[n]? = some (format.mipSize width height n) := by
      rw [List.getElem?_map, List.getElem?_eq_getElem hn, Option.map_some, h n hn]
    rw [PixelFormat.mipTotal_succ, ih (Nat.le_of_succ_le hn), List.take_add_one, hlast,
      List.sum_append]
    simp

theorem length_flatten_take (h : Blocks format width height blocks) (hn : n ≤ blocks.length) :
    (blocks.take n).flatten.length = format.mipTotal width height n := by
  rw [h.mipTotal_eq hn, List.length_flatten, List.map_take]

/-- The slice of a level that is all there is its block data. -/
theorem slice_eq (h : Blocks format width height blocks) (hk : k < blocks.length)
    (hcontent : content.drop start = blocks.flatten.take t)
    (ht : format.mipTotal width height (k + 1) ≤ t) :
    content.slice (start + format.mipTotal width height k) (format.mipSize width height k) =
      blocks[k] := by
  have hnext := PixelFormat.mipTotal_succ format width height k
  have hlen : format.mipTotal width height (k + 1) - format.mipTotal width height k =
      format.mipSize width height k := by omega
  have hblock := List.drop_take_succ_flatten_eq_getElem blocks k hk
  rw [← h.mipTotal_eq hk, ← h.mipTotal_eq hk.le, List.drop_take, hlen] at hblock
  rw [Bytes.slice, ← List.drop_drop, hcontent, List.drop_take, List.take_take,
    Nat.min_eq_left (by omega), hblock]

/-- A file of blocks that is cut off somewhere holds the levels whose blocks end before the cut. -/
theorem held_iff (h : Blocks format width height blocks) {count : Nat}
    (hcount : count ≤ blocks.length) (hstart : start ≤ content.length)
    (hcontent : content.drop start = blocks.flatten.take t) :
    Held content format start width height count n ↔
      IsGreatest {n | n ≤ count ∧ (blocks.take n).flatten.length ≤ t} n := by
  have hset : {n | n ≤ count ∧ start + format.mipTotal width height n ≤ content.length} =
      {n | n ≤ count ∧ (blocks.take n).flatten.length ≤ t} := by
    ext m
    simp only [Set.mem_ofPred_eq]
    refine and_congr_right fun hm => ?_
    have hlen := congrArg List.length hcontent
    rw [List.length_drop, List.length_take] at hlen
    have hall : (blocks.take m).flatten.length ≤ blocks.flatten.length :=
      ((List.take_prefix m blocks).flatten).length_le
    rw [h.length_flatten_take (hm.trans hcount)] at hall ⊢
    omega
  rw [Held, hset]

end Blocks

open Chain in
/-- A DDS file whose header can be read and that is the first of a load into an empty entry is read
from the end of its header on. The load lists as many levels as the file holds, each with its slice,
and fails with nothing stored if it holds none. At its own size a header followed by the blocks of
its levels, cut off anywhere, is loaded as those whose blocks are all there. Only a first level
whose size fits a word, but no buffer, crashes the load. -/
theorem blocks_load_as_slices {src : Sources} {r : Request} {cut : Option Nat} {entry : LevelData}
    {name : String} {file : FileReference} {f rest : OpenFile} {info : Dds.Info}
    (hempty : entry.isEmpty = true) (hname : r.names.head? = some name) (hcut : cut ≠ some 0)
    (ho : src.Opens name file f) (hf : f.Reliable) (hstart : f.position = 0)
    (hlen : f.content.length < bufferLimit)
    (hinfo : Dds.readInfo f r.support = .ok (info, rest)) :
    let start := if info.header.layout.fourCC = Dds.dx10 then 148 else 128
    let size := r.rescaleTruncating info.header.width info.header.height
    let count := min (max info.header.mipMapCount 1) 8
    let run := loadLevels src r cut entry
    (info.dataStart = start ∧ rest = { f with position := start }) ∧
      (info.format.Unbuffered size.1 size.2 → run.outcome = none ∧ run.entry = entry) ∧
      (¬info.format.Unbuffered size.1 size.2 →
        ∃ n, IsGreatest {n | n ≤ count ∧
            start + info.format.mipTotal size.1 size.2 n ≤ f.content.length} n ∧
          run.Holds entry file info.format size.1 size.2 n fun k =>
            f.content.slice (start + info.format.mipTotal size.1 size.2 k)
              (info.format.mipSize size.1 size.2 k)) ∧
      (size = (info.header.width, info.header.height) → ∀ blocks t, count ≤ blocks.length →
        Blocks info.format size.1 size.2 blocks → f.content.drop start = blocks.flatten.take t →
        ∃ n, IsGreatest {n | n ≤ count ∧ (blocks.take n).flatten.length ≤ t} n ∧
          run.Holds entry file info.format size.1 size.2 n fun k => blocks.getD k []) := by
  intro start size count run
  obtain ⟨hheads, hrest⟩ := Dds.heads_of_readInfo hf hstart hinfo
  have hdata : info.dataStart = start := hheads.dataStart_eq
  have hinside : start ≤ f.content.length := hdata ▸ hheads.inside
  rw [hdata] at hrest
  subst hrest
  have hfile : ∀ {d}, d ≤ maxDimension → d < halfWordLimit := fun h => h.trans_lt (by decide)
  have hw : size.1 < halfWordLimit := scaleTruncating_lt (hfile hheads.measured.width_le)
  have hh : size.2 < halfWordLimit := scaleTruncating_lt (hfile hheads.measured.height_le)
  have hcount : 0 < count := lt_min (Nat.zero_lt_one.trans_le (Nat.le_max_right ..)) (by decide)
  have hcrash : info.format.Unbuffered size.1 size.2 → run.outcome = none ∧ run.entry = entry := by
    intro hlarge
    apply load_of_crash hname hcut ho (LevelData.not_has_of_isEmpty hempty 0)
    exact harvest_of_heads hf hstart hinfo src.transcoder _ rfl
      (Harvest.slices_of_unbuffered hlarge _ hcount)
  have hslices : ¬info.format.Unbuffered size.1 size.2 →
      ∃ n, Held f.content info.format start size.1 size.2 count n ∧
        run.Holds entry file info.format size.1 size.2 n fun k =>
          f.content.slice (start + info.format.mipTotal size.1 size.2 k)
            (info.format.mipSize size.1 size.2 k) := by
    intro hsmall
    obtain ⟨n, hheld, hlayers⟩ := Harvest.slices_eq (hf.moved start) hlen hinside
      hheads.compressed hw hh hsmall count
    refine ⟨n, hheld, load_of_found hempty hname hcut ho
      (Layer.cut f.content info.format start size.1 size.2) (fun k => ⟨rfl, rfl⟩) ?_⟩
    exact harvest_of_heads hf hstart hinfo src.transcoder _ rfl hlayers
  refine ⟨⟨hdata, rfl⟩, hcrash, hslices, fun hown blocks t hmany hblocks hcontent => ?_⟩
  have hsmall : ¬info.format.Unbuffered size.1 size.2 := by
    rw [hown]
    have hhalf : ∀ {d}, d ≤ maxDimension → d < halfWordLimit / 2 := fun h => h.trans_lt (by decide)
    exact PixelFormat.not_unbuffered_of_lt hheads.compressed (hhalf hheads.measured.width_le)
      (hhalf hheads.measured.height_le)
  obtain ⟨n, hheld, hholds⟩ := hslices hsmall
  have hgreatest := (hblocks.held_iff hmany hinside hcontent).mp hheld
  obtain ⟨hn, hfits⟩ := hgreatest.1
  rw [hblocks.length_flatten_take (hn.trans hmany)] at hfits
  refine ⟨n, hgreatest, hholds.congr fun k hk => ?_⟩
  have hblock : k < blocks.length := (hk.trans_le hn).trans_le hmany
  rw [List.getD_eq_getElem _ _ hblock]
  exact hblocks.slice_eq hblock hcontent ((info.format.mipTotal_mono size.1 size.2 hk).trans hfits)

/-- The blocks of levels of 4x4, 2x2 and 1x1 pixels. -/
def threeBlocks : List Bytes :=
  [[1, 1, 1, 1, 1, 1, 1, 1], [2, 2, 2, 2, 2, 2, 2, 2], [3, 3, 3, 3, 3, 3, 3, 3]]

/-- A file of these levels that breaks off within the last. -/
def brokenBlocks : Bytes := (blockLevels 4 3).take 128 ++ threeBlocks.flatten.take 20

/-- The first two levels are loaded. -/
theorem blocks_load_as_slices_brokenBlocks :
    (loadLevels (.single brokenBlocks) fullSize none .empty).Holds .empty ⟨"a.dds", 0⟩ .bc1 4 4 2
      fun k => threeBlocks.getD k [] := by
  have ho : (Sources.single brokenBlocks).Opens "a.dds" ⟨"a.dds", 0⟩ (.ofBytes brokenBlocks) :=
    ⟨by decide, rfl, rfl⟩
  have hinfo : Dds.readInfo (.ofBytes brokenBlocks) fullSize.support =
      .ok (⟨.ofBytes (brokenBlocks.take 128), none, .bc1⟩,
        { OpenFile.ofBytes brokenBlocks with position := 128 }) := by
    decide +kernel
  have hblocks : Blocks .bc1 4 4 threeBlocks := by
    unfold Blocks
    decide
  have hempty : LevelData.empty.isEmpty = true := rfl
  have hcut : none ≠ some 0 := nofun
  have hlen : (OpenFile.ofBytes brokenBlocks).content.length < bufferLimit := by decide +kernel
  obtain ⟨-, -, -, hown⟩ := blocks_load_as_slices hempty rfl hcut ho
    (OpenFile.reliable_ofBytes brokenBlocks) rfl hlen hinfo
  obtain ⟨n, hn, hholds⟩ := hown (by decide) threeBlocks 20 (by decide) hblocks (by decide)
  have htwo : IsGreatest {n | n ≤ 3 ∧ (threeBlocks.take n).flatten.length ≤ 20} 2 := by
    refine ⟨by decide, fun m hm => ?_⟩
    by_contra hlarge
    obtain rfl : m = 3 := by
      have := hm.1
      omega
    exact absurd hm.2 (by decide)
  rwa [hn.unique htwo] at hholds

/-- A texture as large as sizes can be, whatever size its file was made for. -/
def largestSize : Request := fullSize.scaled (halfWordLimit - 1) (halfWordLimit - 1) 1 1

/-- No level fits the file, but the load does not fail: it crashes. -/
theorem largest_level_crashes :
    let size := largestSize.rescaleTruncating 4 4
    (∃ rest, Dds.readInfo (.ofBytes blockFile) largestSize.support =
        .ok (⟨.ofBytes (blockFile.take 128), none, .bc1⟩, rest)) ∧
      IsGreatest {n | n ≤ 1 ∧
        128 + PixelFormat.bc1.mipTotal size.1 size.2 n ≤ blockFile.length} 0 ∧
      (loadLevels (.single blockFile) largestSize none .empty).outcome = none := by
  have hinfo : Dds.readInfo (.ofBytes blockFile) largestSize.support =
      .ok (⟨.ofBytes (blockFile.take 128), none, .bc1⟩,
        { OpenFile.ofBytes blockFile with position := 128 }) := by
    decide +kernel
  exact ⟨⟨_, hinfo⟩, held_zero (by decide +kernel) (.inr (by decide +kernel)), by decide +kernel⟩

end TexturePack
