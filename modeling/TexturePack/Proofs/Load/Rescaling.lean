import Mathlib
import TexturePack.Proofs.Image.Padding
import TexturePack.Proofs.Load.ImageChain
import TexturePack.Proofs.Readback.Verdict

/-! Images in the levels that a request scales their files to. A level takes its image or fails, and
what it takes is a whole level and can be read back. Only a level of which no buffer can be made
crashes the load of a sound image. -/
namespace TexturePack

open Image

theorem OpenFile.readAll_error {f : OpenFile} {n : Nat} {e : Fault} (h : f.readAll n = .error e) :
    e = .format .io := by
  unfold readAll Script.readAll Script.collect at h
  rcases hu : f.script.untilEnd? with _ | bytes <;> (rw [hu] at h; cases h)
  rfl

/-- A file that cannot be read to its end has no image at any size. -/
theorem OpenFile.pads_readAll {f : OpenFile} {decode : Bytes → Nat → Nat → Decode Image}
    {width height : Nat}
    (h : ∀ data, f.readAll f.size = .ok data → Pads (decode data) width height) :
    Pads (fun levelWidth levelHeight =>
      f.readAll f.size >>= fun data => decode data levelWidth levelHeight) width height := by
  rcases hall : f.readAll f.size with e | data
  · obtain rfl := OpenFile.readAll_error hall
    exact .inl ⟨.format .io, by simp, fun _ _ => rfl⟩
  · exact h data hall

namespace FileHeader

variable {found : Identified} {f : OpenFile} {s : Support} {h : FileHeader}

/-- Header and decode see the same size. -/
theorem read_zim (hk : found.container = .zim) (hr : read found f s = .ok h) :
    Measured h.width h.height ∧ h.format = .rgba8 ∧ ∀ data, f.readAll f.size = .ok data →
      h.width = (ZimHeader.ofBytes data).width ∧ h.height = (ZimHeader.ofBytes data).height := by
  unfold read at hr
  rw [hk] at hr
  obtain ⟨⟨record, f'⟩, hrecord, hr⟩ := Decode.bind_eq_ok.mp hr
  obtain ⟨_, hv, hr⟩ := Decode.bind_eq_ok.mp hr
  cases hr
  refine ⟨ZimHeader.validate_eq_ok hv, rfl, fun data hdata => ?_⟩
  have htake := Script.readFully_of_untilEnd (OpenFile.readAll_eq_ok hdata) ZimHeader.size
  have hbytes : record = data.take ZimHeader.size :=
    (OpenFile.readRecord_eq_ok hrecord).1.symm.trans htake.1
  simp only [ZimHeader.ofBytes, Bytes.word32, hbytes, ZimHeader.size]
  rw [Bytes.slice_take (by omega), Bytes.slice_take (by omega)]
  exact ⟨rfl, rfl⟩

theorem read_png (hk : found.container = .png) (hr : read found f s = .ok h) :
    Measured h.width h.height ∧ h.format = .rgba8 ∧ ∀ data, f.readAll f.size = .ok data →
      h.width = (data.slice 16 4).toNatBE ∧ h.height = (data.slice 20 4).toNatBE := by
  unfold read at hr
  rw [hk] at hr
  obtain ⟨⟨record, f'⟩, hrecord, hr⟩ := Decode.bind_eq_ok.mp hr
  simp only at hr
  split at hr
  case isFalse => cases hr
  next hv =>
    cases hr
    simp only [Png.Peek.valid, Bool.and_eq_true, decide_eq_true_eq] at hv
    obtain ⟨⟨⟨⟨-, hw⟩, hh⟩, hw'⟩, hh'⟩ := hv
    refine ⟨⟨hw, hh, hw', hh'⟩, rfl, fun data hdata => ?_⟩
    have htake := Script.readFully_of_untilEnd (OpenFile.readAll_eq_ok hdata) Png.Peek.size
    have hbytes : record = data.take Png.Peek.size :=
      (OpenFile.readRecord_eq_ok hrecord).1.symm.trans htake.1
    simp only [Png.Peek.ofBytes, hbytes, Png.Peek.size]
    rw [Bytes.slice_take (by omega), Bytes.slice_take (by omega)]
    exact ⟨rfl, rfl⟩

/-- A file whose header can be read has one image, in its own size, or none. -/
theorem read_image (hkind : found.container = .png ∨ found.container = .zim)
    (hr : read found f s = .ok h) :
    Measured h.width h.height ∧ h.format = .rgba8 ∧
      Pads (f.image found.container) h.width h.height := by
  rcases hkind with hk | hk
  · obtain ⟨hm, hformat, hsize⟩ := read_png hk hr
    refine ⟨hm, hformat, ?_⟩
    rw [hk]
    refine OpenFile.pads_readAll fun data hdata => ?_
    rw [(hsize data hdata).1, (hsize data hdata).2]
    exact Png.pads data
  · obtain ⟨hm, hformat, hsize⟩ := read_zim hk hr
    refine ⟨hm, hformat, ?_⟩
    rw [hk]
    refine OpenFile.pads_readAll fun data hdata => ?_
    rw [(hsize data hdata).1, (hsize data hdata).2]
    exact Zim.pads data

end FileHeader

/-- The image of a file in the size that its header says. -/
def OpenFile.ownImage (f : OpenFile) (h : FileHeader) : Decode Image :=
  match f.identify.2.rewind with
  | .ok f' => f'.image f.identify.1.container h.width h.height
  | .error _ => .refuse .io

/-- A file of one image is at its start again when its header has been read, or it cannot go
back. -/
theorem OpenFile.ownImage_cases {f : OpenFile}
    (hkind : f.identify.1.container = .png ∨ f.identify.1.container = .zim) (h : FileHeader) :
    (f.identify.2.rewind.toOption = none ∧ f.ownImage h = .refuse .io) ∨
      f.identify.2.rewind = .ok f.identify.2 ∧
        f.ownImage h = f.identify.2.image f.identify.1.container h.width h.height := by
  unfold ownImage
  rcases hrewind : f.identify.2.rewind with e | f'
  · exact .inl ⟨rfl, rfl⟩
  have hvalid : f.identify.1.container ≠ .invalid := by
    rcases hkind with hk | hk <;> simp [hk]
  obtain rfl := OpenFile.rewind_identify hvalid hrewind
  exact .inr ⟨rfl, rfl⟩

/-- How a level ends that is loaded from a file of one image, from the image in its own size and the
size of the level, if it has one. -/
def Image.verdict (width height : Nat) (own : Decode Image) :
    Option (Nat × Nat) → Decode (LoadResult × PixelFormat)
  | none => .ok (.failed, .rgba8)
  | some (levelWidth, levelHeight) =>
      match own with
      | .error (.defect d) => .crash d
      | .error (.format _) => .ok (.failed, .rgba8)
      | .ok _ =>
          if levelWidth < width ∨ levelHeight < height then .ok (.failed, .rgba8)
          else if bufferLimit ≤ 4 * levelWidth * levelHeight then .crash .sizeOverflow
          else .ok (.more, .rgba8)

theorem Image.Rescaled.verdict_eq {width height levelWidth levelHeight : Nat}
    {own result : Decode Image} (h : Rescaled width height levelWidth levelHeight own result) :
    verdict width height own (some (levelWidth, levelHeight)) =
      match result with
      | .error (.format _) => .ok (.failed, .rgba8)
      | .error (.defect d) => .crash d
      | .ok _ => .ok (.more, .rgba8) := by
  cases h with
  | refused | broken => rfl
  | small own h => exact if_pos h
  | large own hw hh hbuffer =>
    rw [verdict, if_neg (by omega)]
    exact if_pos hbuffer
  | filled own image hw hh hfills =>
    have hroom : 4 * levelWidth * levelHeight < bufferLimit := hfills.length ▸ hfills.length_lt
    rw [verdict, if_neg (by omega)]
    exact if_neg (Nat.not_le.mpr hroom)

theorem Image.large_of_verdict {width height : Nat} {own : Decode Image} {size : Option (Nat × Nat)}
    (hown : own ≠ .crash .sizeOverflow) (h : verdict width height own size = .crash .sizeOverflow) :
    ∃ levelWidth levelHeight, size = some (levelWidth, levelHeight) ∧
      bufferLimit ≤ 4 * levelWidth * levelHeight := by
  rcases size with _ | ⟨levelWidth, levelHeight⟩
  · cases h
  rcases own with (e | d) | image
  · cases h
  · cases h
    exact absurd rfl hown
  refine ⟨levelWidth, levelHeight, rfl, ?_⟩
  by_contra hsmall
  rw [verdict, if_neg hsmall] at h
  split at h <;> cases h

namespace Chain

/-- The chain has taken up a level at place `i`: it lists it with its file, the entry has the bytes
of all its pixels, and they can be read back at any distance between rows with which the buffer
itself fits a word. -/
structure Stores (c c' : Chain) (i width height : Nat) (file : FileReference) : Prop where
  levels : c'.levels = c.levels ++ [⟨width, height, some file⟩]
  length : (c'.entry.bytes i).length = 4 * width * height
  buffer : 4 * width * height < bufferLimit
  has : c'.entry.has i = true
  others : ∀ k, k ≠ i → c'.entry.bytes k = c.entry.bytes k
  readback : ∀ out pitch piecesFrom,
    (∃ d, Readback.copyLevel c'.entry i width height .rgba8 out pitch piecesFrom = .error d) ↔
      4 * width ≤ pitch ∧ wordLimit ≤ pitch * (height - 1) + 4 * width

variable {src : Sources} {r : Request} {c : Chain} {i : Nat} {name : String} {file : FileReference}
  {f : OpenFile} {h : FileHeader} {width height : Nat}

theorem loadCandidate_fresh (hlen : c.levels.length = i) (hnew : c.entry.has i = false)
    (ho : src.Opens name file f) :
    (c.note [.lookedUp name true]).loadCandidate src r i file =
      shelve i file ((c.opening name file).gather i (c.harvest src.transcoder r i f),
        (c.harvest src.transcoder r i f).ending) := by
  have hbefore : ((c.note [.lookedUp name true]).note [.opened file.name]).levels.length = i := hlen
  have hload := loadFile_eq_gather (c := c.opening name file) hlen hnew src.transcoder r f
  simp only [loadCandidate, ho.openFile, hbefore]
  rw [← opening, hload]
  change _ = shelve i file ((c.opening name file).gather i
    ((c.opening name file).harvest src.transcoder r i f),
    ((c.opening name file).harvest src.transcoder r i f).ending)
  rcases ((c.opening name file).harvest src.transcoder r i f).ending with e | ended <;> rfl

/-- No level behind the first has more pixels than it. -/
theorem levelSize?_le (hi : 0 < i) (hs : c.levelSize? r h i = some (width, height)) :
    ∃ base, c.levels.head? = some base ∧ 4 * width * height ≤ 4 * base.width * base.height := by
  obtain ⟨-, base, hbase, hsize⟩ := levelSize?_eq_some hi hs
  cases hsize
  exact ⟨base, hbase, Nat.mul_le_mul (Nat.mul_le_mul_left 4 (Nat.shiftRight_le ..))
    (Nat.shiftRight_le ..)⟩

/-- A file that yields nothing leaves the levels and the entry as they are. -/
theorem loadCandidate_nothing (hlen : c.levels.length = i) (hnew : c.entry.has i = false)
    (ho : src.Opens name file f) {ending : Decode (LoadResult × PixelFormat)}
    (hg : c.harvest src.transcoder r i f = .nothing ending) :
    ∃ c', (c.note [.lookedUp name true]).loadCandidate src r i file = (c', ending) ∧
      c'.levels = c.levels ∧ c'.entry = c.entry := by
  rw [loadCandidate_fresh hlen hnew ho, hg, gather_nothing]
  rcases ending with e | ended
  · exact ⟨_, rfl, rfl, rfl⟩
  · have halike := alike_shut hlen name file
    exact ⟨_, rfl, halike.levels, halike.entry⟩

/-- A file of one image yields nothing, or its image as it is in the size of the level. -/
theorem harvest_verdict (hkind : f.identify.1.container = .png ∨ f.identify.1.container = .zim)
    (hread : FileHeader.read f.identify.1 f.identify.2 r.support = .ok h) (c : Chain)
    (t : Option Transcoder) (i : Nat) :
    let ending := verdict h.width h.height (f.ownImage h) (c.levelSize? r h i)
    (ending ≠ .ok (.more, .rgba8) ∧ c.harvest t r i f = .nothing ending) ∨
      ∃ width height image, c.levelSize? r h i = some (width, height) ∧
        image.Fills width height ∧ ending = .ok (.more, .rgba8) ∧
        c.harvest t r i f = .ofPicture i width height image := by
  obtain ⟨hm, hformat, hpads⟩ := FileHeader.read_image hkind hread
  unfold harvest
  simp only [hread, hformat]
  rcases c.levelSize? r h i with _ | ⟨width, height⟩
  · exact .inl ⟨nofun, rfl⟩
  rcases f.ownImage_cases hkind h with ⟨hrewind, hown⟩ | ⟨hrewind, hown⟩
  · rw [hown]
    rcases hback : f.identify.2.rewind with e | f'
    · exact .inl ⟨nofun, rfl⟩
    · rw [hback] at hrewind
      cases hrewind
  simp only [hrewind, Harvest.ofFile_image hkind, hown]
  have hrescaled := hpads.rescaled hm width height
  rw [hrescaled.verdict_eq]
  generalize f.identify.2.image f.identify.1.container h.width h.height = own,
    f.identify.2.image f.identify.1.container width height = result at hrescaled
  rcases hrescaled with _ | _ | _ | _ | ⟨own, image, -, -, hfills⟩
  · exact .inl ⟨nofun, rfl⟩
  · exact .inl ⟨nofun, rfl⟩
  · exact .inl ⟨nofun, rfl⟩
  · exact .inl ⟨nofun, rfl⟩
  · exact .inr ⟨width, height, image, rfl, hfills, rfl, rfl⟩

theorem stores_laid (hlen : c.levels.length = i) (name : String) (file : FileReference)
    {image : Image} (hfills : image.Fills width height) :
    c.Stores (c.laid name file i (.ofPicture i width height image)) i width height file := by
  have hroom : 4 * width * height < bufferLimit := hfills.length ▸ hfills.length_lt
  have hbytes : (c.laid name file i (.ofPicture i width height image)).entry.bytes i =
      image.pixels := by
    rw [laid_entry, LevelData.bytes_putAll, if_pos ⟨le_rfl, Nat.lt_succ_self i⟩, Nat.sub_self]
    rfl
  have hne : image.pixels ≠ [] := by
    apply List.ne_nil_of_length_pos
    rw [hfills.length]
    exact Nat.mul_pos (Nat.mul_pos (by decide) hfills.width_pos) hfills.height_pos
  refine ⟨?_, by rw [hbytes, hfills.length], hroom, ?_, fun k hk => ?_, fun out pitch from' => ?_⟩
  · rw [laid_levels_cons hlen name file rfl]
    rfl
  · rwa [LevelData.has_iff, hbytes]
  · rw [laid_entry, LevelData.bytes_putAll, if_neg]
    simp only [Harvest.ofPicture, List.map_cons, List.map_nil, List.length_singleton]
    omega
  · have hover : Readback.Overflows .rgba8 image.pixels width height pitch ↔
        4 * width ≤ pitch ∧ wordLimit ≤ pitch * (height - 1) + 4 * width := by
      have hword : 4 * width * height < wordLimit := hroom.trans (by decide)
      simp [Readback.Overflows, hfills.length, Nat.not_le.mpr hword]
    rw [Readback.copyLevel_eq (LevelData.level?_eq_some_iff.mpr ⟨hbytes, hne⟩), ← hover]
    split
    next h => exact iff_of_true ⟨_, rfl⟩ h
    next h =>
      refine iff_of_false ?_ h
      rintro ⟨d, hd⟩
      split at hd <;> cases hd

end Chain

open Chain in
/-- A level that is loaded from a file of one image ends as the image in its own size and the size
of the level call for. It is taken up whole, or the levels and the entry stay as they are. A sound
image crashes the load only where its level has no buffer, and only as the first level. -/
theorem scaled_image_load {src : Sources} {r : Request} {c : Chain} {i : Nat} {name : String}
    {file : FileReference} {f : OpenFile} {h : FileHeader} (hlen : c.levels.length = i)
    (hnew : c.entry.has i = false) (ho : src.Opens name file f)
    (hkind : f.identify.1.container = .png ∨ f.identify.1.container = .zim)
    (hread : FileHeader.read f.identify.1 f.identify.2 r.support = .ok h) :
    let own := f.ownImage h
    let attempt := (c.note [.lookedUp name true]).loadCandidate src r i file
    Measured h.width h.height ∧ (∀ d, own = .crash d → d = .partialColor) ∧
      attempt.2 = verdict h.width h.height own (c.levelSize? r h i) ∧
      (attempt.2 = .ok (.more, .rgba8) → ∃ width height,
        c.levelSize? r h i = some (width, height) ∧ c.Stores attempt.1 i width height file) ∧
      (attempt.2 ≠ .ok (.more, .rgba8) →
        attempt.1.levels = c.levels ∧ attempt.1.entry = c.entry) ∧
      (0 < i → (∀ base, c.levels.head? = some base → 4 * base.width * base.height < bufferLimit) →
        attempt.2 ≠ .crash .sizeOverflow) := by
  intro own attempt
  obtain ⟨hm, -, hpads⟩ := FileHeader.read_image hkind hread
  have hdefect : ∀ d, own = .crash d → d = .partialColor := by
    intro d hd
    rcases f.ownImage_cases hkind h with ⟨-, hown⟩ | ⟨-, hown⟩
    · cases hown.symm.trans hd
    · exact hpads.own_defect hm (hown.symm.trans hd)
  have hbehind : 0 < i →
      (∀ base, c.levels.head? = some base → 4 * base.width * base.height < bufferLimit) →
      verdict h.width h.height own (c.levelSize? r h i) ≠ .crash .sizeOverflow := by
    intro hi hbase hcrash
    have hown : own ≠ .crash .sizeOverflow := fun hown => by cases hdefect _ hown
    obtain ⟨width, height, hsize, hlarge⟩ := large_of_verdict hown hcrash
    obtain ⟨base, hhead, hle⟩ := levelSize?_le hi hsize
    exact absurd (hlarge.trans hle) (Nat.not_le.mpr (hbase base hhead))
  rcases harvest_verdict hkind hread c src.transcoder i with
    ⟨hmore, hg⟩ | ⟨width, height, image, hsize, hfills, hending, hg⟩
  · obtain ⟨c', hattempt, hlevels, hentry⟩ := loadCandidate_nothing hlen hnew ho hg
    simp only [attempt, hattempt]
    exact ⟨hm, hdefect, rfl, fun hstored => absurd hstored hmore, fun _ => ⟨hlevels, hentry⟩,
      hbehind⟩
  · have hattempt : attempt = (c.laid name file i (.ofPicture i width height image),
        .ok (.more, .rgba8)) := by
      simp only [attempt, loadCandidate_fresh hlen hnew ho, hg]
      rfl
    rw [hattempt]
    exact ⟨hm, hdefect, hending.symm,
      fun _ => ⟨width, height, hsize, stores_laid hlen name file hfills⟩,
      fun hne => absurd rfl hne, fun _ _ => nofun⟩

/-- A texture of twice the size that its file was made for. -/
def doubleSize : Request := (Request.unscaled ["a.zim"] .none "").scaled 2 2 1 1

/-- A single pixel is taken into a level of four. -/
theorem scaled_image_load_doubleSize :
    let c := Chain.start .empty
    let attempt := (c.note [.lookedUp "a.zim" true]).loadCandidate (.single (square 1)) doubleSize 0
      ⟨"a.zim", 0⟩
    attempt.2 = .ok (.more, .rgba8) ∧ c.Stores attempt.1 0 2 2 ⟨"a.zim", 0⟩ := by
  intro c attempt
  have hnew : c.entry.has 0 = false := rfl
  have ho : (Sources.single (square 1)).Opens "a.zim" ⟨"a.zim", 0⟩ (.ofBytes (square 1)) :=
    ⟨by decide, rfl, rfl⟩
  have hread : FileHeader.read (OpenFile.ofBytes (square 1)).identify.1
      (OpenFile.ofBytes (square 1)).identify.2 doubleSize.support = .ok ⟨1, 1, .rgba8, none⟩ := by
    decide +kernel
  have hmore : attempt.2 = .ok (.more, .rgba8) := by decide +kernel
  obtain ⟨-, -, -, hstored, -⟩ := scaled_image_load (c := c) (i := 0) rfl hnew ho
    (.inr (by decide +kernel)) hread
  obtain ⟨width, height, hsize, hstores⟩ := hstored hmore
  obtain ⟨rfl, rfl⟩ : 2 = width ∧ 2 = height := Prod.mk.inj (Option.some.inj hsize)
  exact ⟨hmore, hstores⟩

/-- As large as sizes can be. -/
def widestSize : Request :=
  (Request.unscaled ["a.zim"] .none "").scaled (halfWordLimit - 1) (halfWordLimit - 1) 1 1

/-- A single pixel is a sound image, and its level has more bytes than a word can count. -/
theorem widest_level_crashes :
    let size := widestSize.rescaleTruncating 1 1
    FileHeader.read (OpenFile.ofBytes (square 1)).identify.1
        (OpenFile.ofBytes (square 1)).identify.2 widestSize.support = .ok ⟨1, 1, .rgba8, none⟩ ∧
      (OpenFile.ownImage (.ofBytes (square 1)) ⟨1, 1, .rgba8, none⟩).isOk = true ∧
      wordLimit ≤ 4 * size.1 * size.2 ∧
      ((Chain.start .empty).loadCandidate (.single (square 1)) widestSize 0 ⟨"a.zim", 0⟩).2 =
        .crash .sizeOverflow ∧
      (loadLevels (.single (square 1)) widestSize none .empty).outcome = none := by
  decide +kernel

end TexturePack
