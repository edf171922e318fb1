import Mathlib
import TexturePack.Proofs.Load.Filling
import TexturePack.Proofs.Load.Interruption

/-! How a load begins, and the course of one into an empty entry: images one after the other, and
at the end no further candidate, or one that has no image for the next level. -/
namespace TexturePack

/-- The file that a request names for level `i`, if a load comes to it and can open it. -/
def Sources.candidate? (src : Sources) (r : Request) (cut : Option Nat) (i : Nat) :
    Option OpenFile := do
  let name ← (r.names.take maxLevels)[i]?
  if cut = some i ∨ name.isEmpty then none
  else
    let file ← src.files.lookup name
    (src.files.openFile file).toOption

namespace OpenFile

/-- What the whole of a file reads as. -/
def contents? {α : Type} (f : OpenFile) (decode : Bytes → Decode α) : Option α :=
  (f.identify.2.readAll f.identify.2.size >>= decode).toOption

theorem contents?_of_ok {α : Type} {f : OpenFile} {decode : Bytes → Decode α} {a : α}
    (h : f.identify.2.readAll f.identify.2.size >>= decode = .ok a) :
    f.contents? decode = some a := by
  rw [contents?, h]
  rfl

theorem rewind_of_seekable {f : OpenFile} (h : f.seekable = true) :
    f.rewind = .ok { f with position := 0 } := by
  unfold rewind seek
  simp [h, wordLimit]

/-- The image in a file for a level of some size. -/
def image? (f : OpenFile) (width height : Nat) : Option Image :=
  match f.identify.1.container with
  | .zim => f.contents? fun bytes => Zim.decode bytes width height
  | .png => f.contents? fun bytes => Png.decode bytes width height
  | _ => none

end OpenFile

namespace Sources

variable {src : Sources}

/-- The file of a level, if it can be opened. -/
def openFile? (src : Sources) (l : LevelRecord) : Option OpenFile :=
  l.file.bind fun file => (src.files.openFile file).toOption

/-- The image that a listed level comes from. -/
def image? (src : Sources) (l : LevelRecord) : Option Image :=
  (src.openFile? l).bind fun f => f.image? l.width l.height

/-- The images among the levels of a texture. -/
def images (src : Sources) (levels : List LevelRecord) : List Image := levels.filterMap src.image?

theorem candidate?_eq_some {r : Request} {cut : Option Nat} {i : Nat} {f : OpenFile} :
    src.candidate? r cut i = some f ↔
      cut ≠ some i ∧ ∃ name file, (r.names.take maxLevels)[i]? = some name ∧
        src.Opens name file f := by
  unfold candidate?
  rw [Option.bind_eq_bind, Option.bind_eq_some_iff]
  constructor
  · rintro ⟨name, hname, h⟩
    split at h
    · cases h
    next hnot =>
      rw [not_or, Bool.not_eq_true] at hnot
      obtain ⟨file, hlookup, hopen⟩ := Option.bind_eq_some_iff.mp h
      rcases hf : src.files.openFile file with e | g
      · rw [hf] at hopen
        cases hopen
      · rw [hf] at hopen
        cases hopen
        exact ⟨hnot.1, name, file, hname, hnot.2, hlookup, hf⟩
  · rintro ⟨hcut, name, file, hname, ho⟩
    refine ⟨name, hname, ?_⟩
    rw [if_neg (by simp [hcut, ho.named])]
    rw [Option.bind_eq_bind, ho.lookup, Option.bind_some, ho.openFile]
    rfl

theorem openFile?_of_opens {name : String} {file : FileReference} {f : OpenFile}
    (ho : src.Opens name file f) (width height : Nat) :
    src.openFile? ⟨width, height, some file⟩ = some f := by
  rw [openFile?, Option.bind_some, ho.openFile]
  rfl

end Sources

namespace LevelData

/-- Levels that are stored are there beside those that were there before. -/
theorem has_putAll_iff {d : LevelData} {i : Nat} {bs : List Bytes} (hbs : ∀ b ∈ bs, b ≠ [])
    {k : Nat} : (d.putAll i bs).has k = true ↔ d.has k = true ∨ i ≤ k ∧ k < i + bs.length := by
  rw [has_iff, has_iff, bytes_putAll]
  split
  next hk =>
    rw [List.getD_eq_getElem _ _ (by omega)]
    exact iff_of_true (hbs _ (List.getElem_mem _)) (.inr hk)
  next hk => simp [hk]

end LevelData

namespace Harvest

variable {t : Option Transcoder} {r : Request} {i width height : Nat} {f : OpenFile}
  {h : FileHeader} {found : PixelFormat}

/-- What one image yields. -/
def ofPicture (i width height : Nat) (image : Image) : Harvest :=
  ⟨[⟨image.pixels, width, height⟩],
    if i = 0 ∨ image.alpha = .transparent then some image.alpha else none, [], .ok (.more, .rgba8)⟩

theorem ofImage_more {decode : Bytes → Nat → Nat → Decode Image}
    (he : (ofImage i width height f decode).ending = .ok (.more, found)) :
    ∃ image, (f.readAll f.size >>= fun bytes => decode bytes width height) = .ok image ∧
      ofImage i width height f decode = ofPicture i width height image := by
  unfold ofImage at he ⊢
  rcases hd : f.readAll f.size >>= fun bytes => decode bytes width height with e | image
  · simp [hd, nothing] at he
  · exact ⟨image, rfl, rfl⟩

/-- Only images lead on to the next file. -/
theorem ofFile_more
    (he : (ofFile t r i f.identify.1.container h width height f.identify.2).ending =
      .ok (.more, found)) :
    ∃ image, f.image? width height = some image ∧
      ofFile t r i f.identify.1.container h width height f.identify.2 =
        ofPicture i width height image := by
  unfold OpenFile.image?
  cases hk : f.identify.1.container with
  | ktx2 =>
    rw [hk] at he
    exact absurd he (ofKtx2_ne_more t r i _ found)
  | dds =>
    rw [hk, ofFile, ofDds] at he
    rcases hd : h.dds with _ | info
    · simp [hd, nothing, Decode.refuse] at he
    simp only [hd] at he
    rcases hs : f.identify.2.seek (.start info.dataStart) with _ | f'
    · simp [hs, Decode.refuse] at he
    simp only [hs] at he
    rcases hcut : slices info.format f' width height (min info.levels (maxLevels - i)) with
      ⟨layers, e | u⟩
    · simp [hcut, Except.map] at he
    · simp only [hcut, Except.map, Except.ok.injEq, Prod.mk.injEq] at he
      exact absurd he.1 (found_ne_more layers)
  | zim =>
    rw [hk] at he
    obtain ⟨image, hd, heq⟩ := ofImage_more he
    exact ⟨image, OpenFile.contents?_of_ok hd, heq⟩
  | png =>
    rw [hk] at he
    obtain ⟨image, hd, heq⟩ := ofImage_more he
    exact ⟨image, OpenFile.contents?_of_ok hd, heq⟩
  | basis | invalid =>
    rw [hk] at he
    cases he

end Harvest

namespace Chain

variable {src : Sources} {r : Request} {cut : Option Nat} {i : Nat} {name : String}
  {file : FileReference} {f : OpenFile} {found : PixelFormat} {entry : LevelData}

theorem of_foreign {c : Chain} {format : PixelFormat} (h : c.foreign i format found = true) :
    0 < i ∧ format ≠ found := by
  simp only [foreign, Bool.and_eq_true, decide_eq_true_eq] at h
  exact ⟨Nat.pos_of_ne_zero h.1.1, h.2⟩

/-- A file is decoded if its header can be read, its size is the one that the level calls for,
and it can be read from its start. -/
theorem harvest_cases (c : Chain) (t : Option Transcoder) (r : Request) (i : Nat) (f : OpenFile) :
    (∃ ending, c.harvest t r i f = .nothing ending ∧
        (∀ result found, ending = .ok (result, found) → result = .failed) ∧
        ∀ h size, FileHeader.read f.identify.1 f.identify.2 r.support = .ok h →
          c.levelSize? r h i = some size → f.identify.2.seekable = false) ∨
      ∃ h size, FileHeader.read f.identify.1 f.identify.2 r.support = .ok h ∧
        c.levelSize? r h i = some size ∧ f.identify.2.seekable = true ∧
        c.harvest t r i f = (Harvest.ofFile t r i f.identify.1.container h size.1 size.2
          f.identify.2).settled h.format := by
  unfold harvest
  rcases hread : FileHeader.read f.identify.1 f.identify.2 r.support with (e | d) | h
  · exact .inl ⟨_, rfl, by simp [Harvest.nothing], by simp⟩
  · exact .inl ⟨_, rfl, by simp [Harvest.nothing], by simp⟩
  simp only
  rcases hs : c.levelSize? r h i with _ | ⟨width, height⟩
  · refine .inl ⟨_, rfl, by simp, ?_⟩
    rintro _ _ ⟨⟩ hsize
    rw [hs] at hsize
    cases hsize
  rcases hw : f.identify.2.rewind with e | f'
  · refine .inl ⟨_, rfl, by simp, ?_⟩
    rintro _ _ ⟨⟩ -
    rw [← Bool.not_eq_true]
    intro hseek
    rw [OpenFile.rewind_of_seekable hseek] at hw
    cases hw
  right
  have hvalid : f.identify.1.container ≠ .invalid := by
    intro hk
    rw [FileHeader.read, hk] at hread
    cases hread
  have hseek := (OpenFile.rewind_eq_ok hw).2
  obtain rfl := OpenFile.rewind_identify hvalid hw
  exact ⟨h, (width, height), rfl, hs, hseek, rfl⟩

/-- A file behind which the walk goes on has an image for the level. -/
theorem harvest_picture {c : Chain} {t : Option Transcoder}
    (he : (c.harvest t r i f).ending = .ok (.more, found)) :
    ∃ width height image, f.image? width height = some image ∧
      c.harvest t r i f = Harvest.ofPicture i width height image := by
  rcases c.harvest_cases t r i f with ⟨ending, heq, hfailed, -⟩ | ⟨h, size, -, -, -, heq⟩
  · rw [heq] at he
    cases hfailed _ _ he
  · rw [heq] at he
    obtain ⟨image, himage, hfile⟩ :=
      Harvest.ofFile_more (Harvest.ending_of_settled LoadResult.noConfusion he)
    refine ⟨size.1, size.2, image, himage, ?_⟩
    rw [heq, hfile]
    rfl

/-- How a walk has begun that has come to some chain and format: with no level, with the first level
of a file, or with that of the entry. -/
inductive Begun (src : Sources) (r : Request) (entry : LevelData) (names : List String) (c : Chain)
    (format : PixelFormat) : Prop
  | nothing (h : c.Alike (start entry))
  | fresh {name : String} {file : FileReference} {f : OpenFile} {result : LoadResult}
      {found : PixelFormat} (hname : names.head? = some name) (ho : src.Opens name file f)
      (hnew : entry.has 0 = false)
      (he : ((start entry).harvest src.transcoder r 0 f).ending = .ok (result, found))
      (hformat : result ≠ .failed → format = found)
      (hlast : result ≠ .more →
        c = (start entry).laid name file 0 ((start entry).harvest src.transcoder r 0 f))
      (hmore : result = .more → c.levels ≠ [])
  | cached (hhas : entry.has 0 = true) (hlevels : c.levels ≠ []) (hformat : format = entry.format)

/-- A walk that does not crash begins in one of these ways. -/
theorem walk_begun {c : Chain} {w w' : Walk} {names : List String}
    (hw : (start entry).walk src r cut 0 w names = (c, .ok w')) :
    Begun src r entry names c w'.format := by
  rcases names with _ | ⟨name, names⟩
  · cases hw
    exact .nothing ⟨rfl, rfl, rfl, rfl⟩
  rcases walk_cons (c := start entry) (i := 0) rfl src r cut w name names with
    ⟨c₁, result, hwalk, halike⟩ | ⟨file, f, ho, hcut, hnew | ⟨hhas, h, hread⟩⟩
  · rw [hwalk] at hw
    cases hw
    exact .nothing halike
  · rw [walk_fresh (c := start entry) (i := 0) rfl hcut ho hnew] at hw
    rcases he : ((start entry).harvest src.transcoder r 0 f).ending with e | ⟨result, found⟩
    · simp [he] at hw
    simp only [he] at hw
    rcases pursue_cases hw with
      ⟨rfl, rfl, -⟩ | ⟨-, hforeign, -⟩ | ⟨-, ⟨rfl, rfl, rfl⟩ | ⟨rfl, hnext⟩⟩
    · exact .fresh rfl ho hnew he (by simp) (fun _ => rfl) (by simp)
    · exact absurd (of_foreign hforeign).1 (Nat.lt_irrefl 0)
    · exact .fresh rfl ho hnew he (fun _ => rfl) (fun _ => rfl) (by simp)
    · have hlong := length_le_of_walk (by rw [laid_length, harvest_more he]; rfl) hnext
      refine .fresh rfl ho hnew he (fun _ => walk_format Nat.zero_lt_one hnext) (by simp) ?_
      rintro - hnone
      rw [hnone] at hlong
      cases hlong
  · have hhas' : entry.has 0 = true := hhas
    rw [walk_cached (c := start entry) (i := 0) rfl hcut ho hhas hread, shelve,
      pursue_finished rfl] at hw
    cases hw
    refine .cached hhas' ?_ rfl
    intro hnone
    have hlen := congrArg List.length hnone
    rw [keepFile_length, taken, List.length_append, List.length_map, length_pyramid] at hlen
    have hrun : (start entry).entry.run 0 (maxLevels - 0) = _ + 1 := if_pos hhas
    exact absurd (hrun.symm.trans ((Nat.zero_add _).symm.trans hlen)) (Nat.succ_ne_zero _)

/-- A chain that a load into `entry` has put together from `i` images. -/
inductive Pictured (src : Sources) (r : Request) (entry : LevelData) : Nat → Chain → Prop
  | start : Pictured src r entry 0 (start entry)
  | next {i : Nat} {c : Chain} {name : String} {file : FileReference} {f : OpenFile}
      {found : PixelFormat} (hc : Pictured src r entry i c) (ho : src.Opens name file f)
      (he : (c.harvest src.transcoder r i f).ending = .ok (.more, found)) :
      Pictured src r entry (i + 1) (c.laid name file i (c.harvest src.transcoder r i f))

/-- How a load ends behind `i` images. -/
inductive Ended (src : Sources) (r : Request) (cut : Option Nat) (i : Nat) (c : Chain) :
    Chain → Prop
  | short {c' : Chain} (hnone : src.candidate? r cut i = none) (h : c'.Alike c) :
      Ended src r cut i c c'
  /-- The last file has levels of its own, or none at all. -/
  | last {name : String} {file : FileReference} {f : OpenFile} {result : LoadResult}
      {found : PixelFormat} (hf : src.candidate? r cut i = some f) (ho : src.Opens name file f)
      (he : (c.harvest src.transcoder r i f).ending = .ok (result, found))
      (hresult : result ≠ .more) :
      Ended src r cut i c (c.laid name file i (c.harvest src.transcoder r i f))
  /-- The levels of the last file do not go with the images. -/
  | foreign {name : String} {file : FileReference} {f : OpenFile} {found : PixelFormat}
      (hf : src.candidate? r cut i = some f) (ho : src.Opens name file f) (hi : 0 < i)
      (he : (c.harvest src.transcoder r i f).ending = .ok (.finished, found))
      (hfound : found ≠ .rgba8) :
      Ended src r cut i c ((c.laid name file i (c.harvest src.transcoder r i f)).discardFrom i)

namespace Pictured

variable {c : Chain}

theorem length (hc : c.Pictured src r entry i) : c.levels.length = i := by
  induction hc with
  | start => rfl
  | next _ _ he ih => rw [laid_length, ih, harvest_more he]

theorem keeps (hc : c.Pictured src r entry i) : 0 < i → r.Keeps := by
  induction hc with
  | start => exact fun h => absurd h (Nat.lt_irrefl 0)
  | next _ _ he ih => exact fun _ => harvest_keeps ih he

/-- Each image fills one level. -/
theorem levels_eq (hc : c.Pictured src r entry i) (ho : src.Opens name file f)
    (he : (c.harvest src.transcoder r i f).ending = .ok (.more, found)) :
    ∃ width height image,
      c.harvest src.transcoder r i f = Harvest.ofPicture i width height image ∧
      (c.laid name file i (c.harvest src.transcoder r i f)).levels =
        c.levels ++ [⟨width, height, some file⟩] ∧
      src.image? ⟨width, height, some file⟩ = some image := by
  obtain ⟨width, height, image, himage, heq⟩ := harvest_picture he
  refine ⟨width, height, image, heq, ?_, ?_⟩
  · rw [heq, laid_levels_cons hc.length name file rfl]
    rfl
  · rw [Sources.image?, Sources.openFile?_of_opens ho, Option.bind_some, himage]

/-- All levels are images. -/
theorem images_length (hc : c.Pictured src r entry i) : (src.images c.levels).length = i := by
  induction hc with
  | start => rfl
  | next hc ho he ih =>
    obtain ⟨width, height, image, -, hlevels, himage⟩ := hc.levels_eq ho he
    rw [hlevels, Sources.images, List.filterMap_append, List.length_append]
    rw [Sources.images] at ih
    simp [ih, himage]

/-- The entry has the images and nothing else. -/
theorem has_iff (hempty : entry.isEmpty = true) (hc : c.Pictured src r entry i) {k : Nat} :
    c.entry.has k = true ↔ k < i := by
  induction hc with
  | start =>
    simp [Chain.start, LevelData.not_has_of_isEmpty hempty k]
  | @next i d name file f found hc ho he ih =>
    have hone := harvest_more he
    have hfilled : ∀ l ∈ (d.harvest src.transcoder r i f).layers, l.bytes ≠ [] := by
      rcases harvest_filled hc.keeps he with h | ⟨-, hmore, -⟩
      · exact h
      · exact absurd rfl hmore
    rw [laid_entry, LevelData.has_putAll_iff (by simpa using hfilled), ih, List.length_map, hone]
    omega

end Pictured

/-- A load into an empty entry is a number of images and the way in which it ends behind them. -/
theorem walk_course (hempty : entry.isEmpty = true) {c c' : Chain} {w w' : Walk}
    (hc : c.Pictured src r entry i) (hformat : 0 < i → w.format = .rgba8)
    (hw : c.walk src r cut i w ((r.names.take maxLevels).drop i) = (c', .ok w')) :
    ∃ n d, d.Pictured src r entry n ∧ Ended src r cut n d c' := by
  generalize hnames : (r.names.take maxLevels).drop i = names at hw
  induction names generalizing c i w with
  | nil =>
    cases hw
    have hnone : src.candidate? r cut i = none := by
      rw [← Option.not_isSome_iff_eq_none, Option.isSome_iff_exists]
      rintro ⟨f, hf⟩
      obtain ⟨-, name, -, hname, -⟩ := Sources.candidate?_eq_some.mp hf
      rw [List.drop_eq_nil_iff] at hnames
      rw [List.getElem?_eq_none hnames] at hname
      cases hname
    exact ⟨i, _, hc, .short hnone ⟨rfl, rfl, rfl, rfl⟩⟩
  | cons name names ih =>
    obtain ⟨hname, hrest⟩ : (r.names.take maxLevels)[i]? = some name ∧
        (r.names.take maxLevels).drop (i + 1) = names := by
      constructor
      · rw [← List.head?_drop, hnames]
        rfl
      · rw [← List.drop_drop, hnames]
        rfl
    have hfresh : c.entry.has i = false := by
      rw [← Bool.not_eq_true, hc.has_iff hempty]
      exact Nat.lt_irrefl i
    rcases hcand : src.candidate? r cut i with _ | f
    · rcases walk_cons hc.length src r cut w name names with
        ⟨c₁, result, hwalk, halike⟩ | ⟨file, f, ho, hcut, -⟩
      · rw [hwalk] at hw
        cases hw
        exact ⟨i, c, hc, .short hcand halike⟩
      · rw [Sources.candidate?_eq_some.mpr ⟨hcut, name, file, hname, ho⟩] at hcand
        cases hcand
    obtain ⟨hcut, name', file, hname', ho⟩ := Sources.candidate?_eq_some.mp hcand
    obtain rfl := Option.some.inj (hname'.symm.trans hname)
    rw [walk_fresh hc.length hcut ho hfresh] at hw
    rcases he : (c.harvest src.transcoder r i f).ending with e | ⟨result, found⟩
    · simp [he] at hw
    simp only [he] at hw
    rcases pursue_cases hw with
      ⟨rfl, rfl, -⟩ | ⟨hfailed, hforeign, rfl, -⟩ | ⟨-, ⟨rfl, rfl, -⟩ | ⟨rfl, hnext⟩⟩
    · exact ⟨i, c, hc, .last hcand ho he LoadResult.noConfusion⟩
    · obtain ⟨hi, hne⟩ := of_foreign hforeign
      rw [hformat hi] at hne
      cases result with
      | failed => exact absurd rfl hfailed
      | finished => exact ⟨i, c, hc, .foreign hcand ho hi he hne.symm⟩
      | more =>
        obtain ⟨_, _, _, -, heq⟩ := harvest_picture he
        rw [heq] at he
        cases he
        exact absurd rfl hne
    · exact ⟨i, c, hc, .last hcand ho he LoadResult.noConfusion⟩
    · refine ih (hc.next ho he) ?_ hrest hnext
      intro _
      obtain ⟨_, _, _, -, heq⟩ := harvest_picture he
      rw [heq] at he
      cases he
      split
      · rfl
      next hi => exact hformat (Nat.pos_of_ne_zero hi)

/-- What a file behind the images adds to the levels: nothing, or levels that are no images. -/
theorem Pictured.last_levels {c : Chain} (hc : c.Pictured src r entry i)
    (ho : src.Opens name file f) {result : LoadResult}
    (he : (c.harvest src.transcoder r i f).ending = .ok (result, found))
    (hresult : result ≠ .more) :
    (c.harvest src.transcoder r i f).layers = [] ∧
        (c.laid name file i (c.harvest src.transcoder r i f)).levels = c.levels ∨
      ∃ l ls, (c.harvest src.transcoder r i f).layers = l :: ls ∧ result = .finished ∧
        (c.laid name file i (c.harvest src.transcoder r i f)).levels =
          c.levels ++ ⟨l.width, l.height, some file⟩ :: ls.map Layer.record ∧
        src.images (⟨l.width, l.height, some file⟩ :: ls.map Layer.record) = [] := by
  rcases hlayers : (c.harvest src.transcoder r i f).layers with _ | ⟨l, ls⟩
  · left
    rw [laid_levels, hlayers, List.map_nil, List.append_nil, List.modify_eq_self hc.length.le]
    exact ⟨rfl, rfl⟩
  right
  have hfinished : result = .finished := by
    cases result with
    | finished => rfl
    | more => exact absurd rfl hresult
    | failed =>
      rw [layers_of_failed he] at hlayers
      cases hlayers
  subst hfinished
  refine ⟨l, ls, rfl, rfl, laid_levels_cons hc.length name file hlayers, ?_⟩
  have hfile : src.image? ⟨l.width, l.height, some file⟩ = none := by
    rw [Sources.image?, Sources.openFile?_of_opens ho, Option.bind_some, OpenFile.image?]
    rcases harvest_finished_container he with hk | hk
    · rw [hk]
    · rw [hk]
  rw [Sources.images, List.filterMap_cons, hfile, List.filterMap_eq_nil_iff]
  rintro l' hl'
  obtain ⟨layer, -, rfl⟩ := List.mem_map.mp hl'
  rfl

/-- The images that a load lists are those that it has put together. -/
theorem Ended.images_length {c d : Chain} (hd : d.Pictured src r entry i)
    (he : Ended src r cut i d c) : (src.images c.levels).length = i := by
  cases he with
  | short _ halike => rw [halike.levels, hd.images_length]
  | foreign => rw [discardFrom_laid_levels d _ hd.length, hd.images_length]
  | last _ ho he hresult =>
    rcases hd.last_levels ho he hresult with ⟨-, hlevels⟩ | ⟨l, ls, -, -, hlevels, hnone⟩
    · rw [hlevels, hd.images_length]
    · rw [hlevels, Sources.images, List.filterMap_append, List.length_append]
      rw [Sources.images] at hnone
      rw [hnone, ← Sources.images, hd.images_length]
      rfl

end Chain

/-- A load into an empty entry that does not crash is such a course. -/
theorem loadLevels_course {src : Sources} {r : Request} {cut : Option Nat} {entry : LevelData}
    {o : LoadOutcome} (hempty : entry.isEmpty = true)
    (hload : (loadLevels src r cut entry).outcome = some o) :
    ∃ n d c w, d.Pictured src r entry n ∧ Chain.Ended src r cut n d c ∧ c.outcome w = o ∧
      (loadLevels src r cut entry).entry = c.commit w.format := by
  obtain ⟨c, w, hw, ho, hentry⟩ := Chain.walk_of_loadLevels hload
  obtain ⟨n, d, hd, hc⟩ := Chain.walk_course hempty .start (by simp) hw
  exact ⟨n, d, c, w, hd, hc, ho, hentry⟩

end TexturePack
