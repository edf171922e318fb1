import Mathlib
import TexturePack.Proofs.Load.Presence

/-! A second load of the same request, on the entry that a first one filled. It reads the
header of the first file only and reckons the sizes of all levels from it. -/
namespace TexturePack

/-- A file whose levels keep the size that it gives them. -/
def Sources.Universal (src : Sources) (file : FileReference) : Prop :=
  ∃ f, src.files.openFile file = .ok f ∧ f.identify.1.container = .ktx2

/-- No level comes from a universal texture that its request scales. -/
def Sources.Unscaled (src : Sources) (r : Request) (levels : List LevelRecord) : Prop :=
  ∀ l ∈ levels, ∀ file, l.file = some file → src.Universal file →
    r.rescaleTruncating l.width l.height = l.size

namespace Harvest

theorem length_slices_le (format : PixelFormat) (f : OpenFile) (width height n : Nat) :
    (slices format f width height n).1.length ≤ n := by
  induction n generalizing f width height with
  | zero => exact le_rfl
  | succ n ih =>
    rw [slices]
    rcases Dds.readLevel f format width height with ⟨_ | bytes, f'⟩
    next e => cases e <;> exact Nat.zero_le _
    next => exact Nat.succ_le_succ (ih f' _ _)

theorem length_levelsFrom_le (t : Transcoder) (file : Ktx2.File) (target : Ktx2.Target)
    (level count : Nat) : (t.levelsFrom file target level count).levels.length ≤ count := by
  induction count generalizing level with
  | zero => exact le_rfl
  | succ count ih =>
    rw [Transcoder.levelsFrom]
    rcases file.geometry? level with e | _ | g
    · exact Nat.zero_le _
    · exact Nat.zero_le _
    simp only [Transcription.request]
    rcases t.level file target level _ with byteAt | e | _
    · exact Nat.succ_le_succ (ih (level + 1))
    · exact Nat.zero_le _
    · exact Nat.zero_le _

theorem length_ofUniversal_le (t : Transcoder) (file : Ktx2.File) (p : Ktx2.Payload) (s : Support)
    (i : Nat) : (ofUniversal t file p s i).layers.length ≤ maxLevels - i := by
  refine (List.length_filterMap_le _ _).trans ?_
  unfold Transcoder.transcode
  split
  · exact Nat.zero_le _
  · exact (length_levelsFrom_le ..).trans (Nat.min_le_right _ _)

theorem length_ofImage_le {i : Nat} (hi : i < maxLevels) (width height : Nat) (f : OpenFile)
    (decode : Bytes → Nat → Nat → Decode Image) :
    (ofImage i width height f decode).layers.length ≤ maxLevels - i := by
  unfold ofImage
  rcases f.readAll f.size >>= fun bytes => decode bytes width height with e | image
  · exact Nat.zero_le _
  · exact Nat.le_sub_of_add_le (by rw [List.length_singleton]; omega)

theorem length_ofFile_le {i : Nat} (hi : i < maxLevels) (t : Option Transcoder) (r : Request)
    (kind : Container) (h : FileHeader) (width height : Nat) (f : OpenFile) :
    (ofFile t r i kind h width height f).layers.length ≤ maxLevels - i := by
  cases kind with
  | ktx2 =>
    rw [ofFile, ofKtx2]
    rcases f.readAll f.size >>= Ktx2.File.parse with e | file
    · exact Nat.zero_le _
    rcases hp : file.payload? with _ | p
    · simp only [hp]
      exact Nat.zero_le _
    rcases t with _ | t
    · simp only [hp]
      exact Nat.zero_le _
    · simp only [hp]
      exact length_ofUniversal_le t file p r.support i
  | dds =>
    rw [ofFile, ofDds]
    rcases h.dds with _ | info
    · exact Nat.zero_le _
    simp only
    rcases f.seek (.start info.dataStart) with _ | f'
    · exact Nat.zero_le _
    · exact (length_slices_le ..).trans (Nat.min_le_right _ _)
  | zim => exact length_ofImage_le hi width height f Zim.decode
  | png => exact length_ofImage_le hi width height f Png.decode
  | basis | invalid => exact Nat.zero_le _

end Harvest

namespace Chain

variable {src : Sources} {r : Request} {cut : Option Nat} {i : Nat} {base : Nat × Nat}

/-- A file never has levels beyond the last. -/
theorem length_harvest_le (c : Chain) (hi : i < maxLevels) (t : Option Transcoder) (r : Request)
    (f : OpenFile) : (c.harvest t r i f).layers.length ≤ maxLevels - i := by
  unfold harvest
  rcases FileHeader.read f.identify.1 f.identify.2 r.support with e | h
  · exact Nat.zero_le _
  simp only
  rcases c.levelSize? r h i with _ | ⟨width, height⟩
  · exact Nat.zero_le _
  rcases f.identify.2.rewind with _ | f'
  · exact Nat.zero_le _
  · exact Harvest.length_ofFile_le hi t r f.identify.1.container h width height f'

theorem laid_levels_cons {c : Chain} (hlen : c.levels.length = i) (name : String)
    (file : FileReference) {g : Harvest} {l : Layer} {ls : List Layer} (hg : g.layers = l :: ls) :
    (c.laid name file i g).levels =
      c.levels ++ ⟨l.width, l.height, some file⟩ :: ls.map Layer.record := by
  rw [laid_levels, hg, List.modify_eq_take_drop, List.take_left' hlen, List.drop_left' hlen]
  rfl

/-- What a first load has put together from images, up to level `i`. -/
structure Imaged (src : Sources) (r : Request) (base : Nat × Nat) (i : Nat) (c : Chain) :
    Prop where
  length : c.levels.length = i
  decoded : c.reused = false
  above : ∀ j, i ≤ j → c.entry.bytes j = []
  sizes : c.levels.map LevelRecord.size = pyramid base.1 base.2 i
  keeps : 0 < i → r.Keeps
  images : ∀ l ∈ c.levels, ∀ file, l.file = some file → ¬ src.Universal file

/-- What a first load has decoded in the end: levels of a pyramid, unless a universal
texture has been scaled, and nothing behind them. -/
structure Decoded (src : Sources) (r : Request) (base : Nat × Nat) (c : Chain) : Prop where
  length : c.levels.length ≤ maxLevels
  decoded : c.reused = false
  above : c.entry.has c.levels.length = false
  sizes : c.levels.map LevelRecord.size = pyramid base.1 base.2 c.levels.length ↔
    src.Unscaled r c.levels

theorem imaged_start {entry : LevelData} (hempty : entry.isEmpty = true) (src : Sources)
    (r : Request) (base : Nat × Nat) : (start entry).Imaged src r base 0 :=
  ⟨rfl, rfl, fun j _ => LevelData.isEmpty_iff.mp hempty j, rfl, by simp, by simp [start]⟩

namespace Imaged

theorem has_eq_false {c : Chain} (hc : c.Imaged src r base i) {j : Nat} (hj : i ≤ j) :
    c.entry.has j = false := by
  rw [← Bool.not_eq_true, LevelData.has_iff, not_not]
  exact hc.above j hj

/-- A level of a chain of images has the size of the first, halved once for each level
before it. -/
theorem levelSize? {c : Chain} (hc : c.Imaged src r base i) {h : FileHeader} {size : Nat × Nat}
    (hbase : i = 0 → base = r.rescaleTruncating h.width h.height) (hw : 0 < h.width)
    (hh : 0 < h.height) (hsize : c.levelSize? r h i = some size) :
    r.rescaleTruncating h.width h.height = size ∧ size = (halve^[i] base.1, halve^[i] base.2) := by
  rcases Nat.eq_zero_or_pos i with rfl | hi
  · rw [levelSize?_zero, Option.some.injEq] at hsize
    rw [hbase rfl, hsize]
    exact ⟨rfl, rfl⟩
  obtain ⟨hscaled, first, hfirst, hshift⟩ := levelSize?_eq_some hi hsize
  obtain ⟨width, height, hrw, hrh⟩ := hc.keeps hi
  have hpos := Request.rescale?_pos hscaled hw hh hrw hrh
  have hhead : first.size = base := by
    obtain ⟨ls, hls⟩ := List.head?_eq_some_iff.mp hfirst
    obtain ⟨n, rfl⟩ := Nat.exists_eq_succ_of_ne_zero hi.ne'
    have hsizes := hc.sizes
    rw [hls, List.map_cons, pyramid, List.cons.injEq] at hsizes
    exact hsizes.1
  refine ⟨Request.rescaleTruncating_of_rescale? hscaled, ?_⟩
  subst hhead
  rw [hshift] at hpos ⊢
  exact Prod.ext (halve_iterate hpos.1).symm (halve_iterate hpos.2).symm

theorem unscaled {c : Chain} (hc : c.Imaged src r base i) : src.Unscaled r c.levels := by
  intro l hl file hfile huniversal
  exact absurd huniversal (hc.images l hl file hfile)

/-- The load ends with the images that it has. -/
theorem ended {c c' : Chain} (hc : c.Imaged src r base i) (hi : i ≤ maxLevels)
    (hlevels : c'.levels = c.levels) (hreused : c'.reused = c.reused)
    (habove : c'.entry.has i = false) : c'.Decoded src r base where
  length := by rw [hlevels, hc.length]; exact hi
  decoded := hreused.trans hc.decoded
  above := by rw [hlevels, hc.length]; exact habove
  sizes := by
    rw [hlevels, hc.sizes, hc.length]
    exact iff_of_true rfl hc.unscaled

theorem laid_has_above {c : Chain} (hc : c.Imaged src r base i) (name : String)
    (file : FileReference) (g : Harvest) {j : Nat} (hj : i + g.layers.length ≤ j) :
    (c.laid name file i g).entry.bytes j = [] := by
  rw [laid_entry, LevelData.bytes_putAll, List.length_map, if_neg (by omega)]
  exact hc.above j (by omega)

/-- An image is the next level of the chain. -/
theorem next {c : Chain} (hc : c.Imaged src r base i) {name : String} {file : FileReference}
    {f : OpenFile} (ho : src.Opens name file f)
    (hbase : i = 0 → ∀ h, FileHeader.read f.identify.1 f.identify.2 r.support = .ok h →
      base = r.rescaleTruncating h.width h.height) {found : PixelFormat}
    (he : (c.harvest src.transcoder r i f).ending = .ok (.more, found)) :
    (c.laid name file i (c.harvest src.transcoder r i f)).Imaged src r base (i + 1) := by
  have hone := harvest_more he
  have hkind : f.identify.1.container ≠ .ktx2 := fun hk =>
    harvest_ne_more hk c src.transcoder r i found he
  have hkeeps := harvest_keeps hc.keeps he
  rcases c.harvest_sound src.transcoder r i f with ⟨hnil, -⟩ | ⟨h, size, hread, hsize, hs⟩
  · simp [hnil] at hone
  obtain ⟨hw, hh⟩ := FileHeader.read_eq_ok hread
  obtain ⟨-, hhalved⟩ := hc.levelSize? (fun hi => hbase hi h hread) hw hh hsize
  generalize c.harvest src.transcoder r i f = g at *
  obtain ⟨l, hl⟩ := List.length_eq_one_iff.mp hone
  have hlevels := laid_levels_cons hc.length name file hl
  have hlsize : l.size = size := by
    have := hs.head?_size (l := l) (by rw [hl]; rfl)
    rwa [topSize, if_neg hkind] at this
  refine ⟨by rw [laid_length, hc.length, hone], by rw [laid_reused, hc.decoded], ?_, ?_,
    fun _ => hkeeps, ?_⟩
  · intro j hj
    exact hc.laid_has_above name file g (by omega)
  · rw [laid_sizes, hc.sizes, hl, pyramid_add, List.map_singleton, hlsize, hhalved]
    rfl
  · rintro l' hl' file' hfile' ⟨f', hopen, hk⟩
    rw [hlevels, List.mem_append, List.map_nil, List.mem_singleton] at hl'
    rcases hl' with hl' | rfl
    · exact hc.images l' hl' file' hfile' ⟨f', hopen, hk⟩
    · cases hfile'
      rw [ho.openFile, Except.ok.injEq] at hopen
      exact hkind (hopen ▸ hk)

/-- The levels of a file go on where the chain stands if the first of them does. -/
theorem sizes_laid_iff {c : Chain} (hc : c.Imaged src r base i) (name : String)
    (file : FileReference) {g : Harvest} {width height : Nat} (hs : g.Sound width height)
    {l : Layer} {ls : List Layer} (hlayers : g.layers = l :: ls) :
    ((c.laid name file i g).levels.map LevelRecord.size =
        pyramid base.1 base.2 (c.laid name file i g).levels.length) ↔
      (width, height) = (halve^[i] base.1, halve^[i] base.2) := by
  rw [laid_sizes, laid_length, hc.sizes, hc.length, pyramid_add, List.append_cancel_left_eq,
    hs.sizes, hlayers, List.length_cons, pyramid, pyramid, List.cons.injEq]
  constructor
  · exact And.left
  · intro h
    rw [Prod.mk.injEq] at h
    exact ⟨by rw [h.1, h.2], by rw [h.1, h.2]⟩

/-- Behind the images, only the first level of a file refers to one. -/
theorem unscaled_laid_iff {c : Chain} (hc : c.Imaged src r base i) (name : String)
    {file : FileReference} {g : Harvest} {l : Layer} {ls : List Layer}
    (hlayers : g.layers = l :: ls) :
    src.Unscaled r (c.laid name file i g).levels ↔
      (src.Universal file → r.rescaleTruncating l.width l.height = l.size) := by
  unfold Sources.Unscaled
  rw [laid_levels_cons hc.length _ _ hlayers]
  constructor
  · intro h huniversal
    exact h ⟨l.width, l.height, some file⟩ (by simp) file rfl huniversal
  · intro h l' hl' file' hfile' huniversal
    rcases List.mem_append.mp hl' with hl' | hl'
    · exact absurd huniversal (hc.images l' hl' file' hfile')
    rcases List.mem_cons.mp hl' with rfl | hl'
    · cases hfile'
      exact h huniversal
    · obtain ⟨l'', -, rfl⟩ := List.mem_map.mp hl'
      cases hfile'

/-- A file of many levels ends the load. Its levels go on where the chain stands, unless it
is a universal texture that the request scales. -/
theorem laid {c : Chain} (hc : c.Imaged src r base i) (hi : i < maxLevels) {name : String}
    {file : FileReference} {f : OpenFile} (ho : src.Opens name file f)
    (hbase : i = 0 → ∀ h, FileHeader.read f.identify.1 f.identify.2 r.support = .ok h →
      base = r.rescaleTruncating h.width h.height) :
    (c.laid name file i (c.harvest src.transcoder r i f)).Decoded src r base := by
  have hle := c.length_harvest_le hi src.transcoder r f
  have habove : (c.laid name file i (c.harvest src.transcoder r i f)).entry.has
      (c.laid name file i (c.harvest src.transcoder r i f)).levels.length = false := by
    rw [← Bool.not_eq_true, LevelData.has_iff, not_not, laid_length, hc.length]
    exact hc.laid_has_above name file _ le_rfl
  refine ⟨by rw [laid_length, hc.length]; omega, by rw [laid_reused, hc.decoded], habove, ?_⟩
  rcases hlayers : (c.harvest src.transcoder r i f).layers with _ | ⟨l, ls⟩
  · have hlevels : (c.laid name file i (c.harvest src.transcoder r i f)).levels = c.levels := by
      rw [laid_levels, hlayers, List.map_nil, List.append_nil, List.modify_eq_self hc.length.le]
    rw [hlevels, hc.sizes, hc.length]
    exact iff_of_true rfl hc.unscaled
  rcases c.harvest_sound src.transcoder r i f with ⟨hnil, -⟩ | ⟨h, size, hread, hsize, hs⟩
  · simp [hnil] at hlayers
  obtain ⟨hw, hh⟩ := FileHeader.read_eq_ok hread
  obtain ⟨hscaled, hhalved⟩ := hc.levelSize? (fun hi => hbase hi h hread) hw hh hsize
  generalize c.harvest src.transcoder r i f = g at *
  have hlsize := hs.head?_size (l := l) (by rw [hlayers]; rfl)
  rw [hc.sizes_laid_iff name file hs hlayers, ← hhalved, hc.unscaled_laid_iff name hlayers]
  constructor
  · rintro htop ⟨f', hopen, hk⟩
    rw [ho.openFile, Except.ok.injEq] at hopen
    rw [topSize, if_pos (hopen ▸ hk)] at htop hlsize
    have hlw : l.width = h.width := congrArg Prod.fst hlsize
    have hlh : l.height = h.height := congrArg Prod.snd hlsize
    rw [hlw, hlh, hscaled, hlsize, ← htop]
  · intro huniversal
    unfold topSize
    split
    next hk =>
      have hself := huniversal ⟨f, ho.openFile, hk⟩
      rw [topSize, if_pos hk] at hlsize
      have hlw : l.width = h.width := congrArg Prod.fst hlsize
      have hlh : l.height = h.height := congrArg Prod.snd hlsize
      rw [← hlsize, ← hself, hlw, hlh, hscaled]
    · rfl

end Imaged

/-- A walk that starts with nothing behind the images ends with all that it has decoded. -/
theorem walk_decoded {c c' : Chain} (hc : c.Imaged src r base i) {names : List String}
    (hmax : i + names.length ≤ maxLevels)
    (hbase : i = 0 → ∀ name, names.head? = some name → ∀ file f h, src.Opens name file f →
      FileHeader.read f.identify.1 f.identify.2 r.support = .ok h →
      base = r.rescaleTruncating h.width h.height) {w w' : Walk}
    (hw : c.walk src r cut i w names = (c', .ok w')) : c'.Decoded src r base := by
  induction names generalizing c i w with
  | nil =>
    cases hw
    exact hc.ended (Nat.le_of_add_right_le hmax) rfl rfl (hc.has_eq_false le_rfl)
  | cons name names ih =>
    have hi : i < maxLevels := by
      rw [List.length_cons] at hmax
      omega
    rcases walk_cons hc.length src r cut w name names with
      ⟨c₁, result, hwalk, halike⟩ | ⟨file, f, ho, hcut, hnew | ⟨hhas, h, hread⟩⟩
    · rw [hwalk] at hw
      cases hw
      exact hc.ended hi.le halike.levels halike.reused
        (halike.entry ▸ hc.has_eq_false le_rfl)
    · obtain ⟨result, found, he, hends⟩ := walk_fresh_ok hc.length hcut ho hnew hw
      have hfirst (h0 : i = 0) := fun h hr => hbase h0 name rfl file f h ho hr
      rcases hends with rfl | rfl | ⟨rfl, u, hw⟩
      · exact hc.laid hi ho hfirst
      · have hreused :
            ((c.laid name file i (c.harvest src.transcoder r i f)).discardFrom i).reused =
              c.reused := laid_reused ..
        apply hc.ended hi.le _ hreused
        · rw [← Bool.not_eq_true, LevelData.has_iff, not_not, discardFrom, LevelData.bytes_clear,
            if_pos rfl]
        · exact discardFrom_laid_levels c _ hc.length
      · exact ih (hc.next ho hfirst he) (by rw [List.length_cons] at hmax; omega) (by simp) hw
    · rw [hc.has_eq_false le_rfl] at hhas
      cases hhas

/-- Levels of a first load come from a file whose header can be read. -/
theorem walk_first {entry : LevelData} (hempty : entry.isEmpty = true) {names : List String}
    (hmax : names.length ≤ maxLevels) {c : Chain} {w w' : Walk}
    (hw : (start entry).walk src r cut 0 w names = (c, .ok w')) (hlevels : c.levels ≠ []) :
    ∃ name rest file f h, names = name :: rest ∧ src.Opens name file f ∧
      FileHeader.read f.identify.1 f.identify.2 r.support = .ok h ∧
      c.Decoded src r (r.rescaleTruncating h.width h.height) := by
  rcases names with _ | ⟨name, rest⟩
  · cases hw
    exact absurd rfl hlevels
  rcases walk_cons (c := start entry) (i := 0) rfl src r cut w name rest with
    ⟨c₁, result, hwalk, halike⟩ | ⟨file, f, ho, hcut, hnew | ⟨hhas, -⟩⟩
  · rw [hwalk] at hw
    cases hw
    exact absurd halike.levels hlevels
  · rcases hread : FileHeader.read f.identify.1 f.identify.2 r.support with e | h
    · have hharvest : (start entry).harvest src.transcoder r 0 f =
          (Harvest.nothing (.error e)).settled .undefined := by
        rw [harvest, hread]
      rw [walk_fresh (c := start entry) (i := 0) rfl hcut ho hnew, hharvest] at hw
      rcases e with e | d
      · cases hw
        exact absurd (laid_levels_eq_nil_iff.mpr ⟨rfl, rfl⟩) hlevels
      · cases hw
    · refine ⟨name, rest, file, f, h, rfl, ho, hread, ?_⟩
      refine walk_decoded (imaged_start hempty src r _) (by rwa [Nat.zero_add]) ?_ hw
      intro _ name' hname file' f' h' ho' hread'
      rw [List.head?_cons, Option.some.injEq] at hname
      subst hname
      obtain rfl : file = file' := Option.some.inj (ho.lookup.symm.trans ho'.lookup)
      obtain rfl : f = f' := Except.ok.inj (ho.openFile.symm.trans ho'.openFile)
      rw [Except.ok.inj (hread.symm.trans hread')]
  · rw [(imaged_start hempty src r (0, 0)).has_eq_false le_rfl] at hhas
    cases hhas

theorem commit_of_decoded {c : Chain} (hc : c.reused = false) (hlevels : c.levels ≠ [])
    (format : PixelFormat) :
    c.commit format = { c.entry with format := format, alpha := c.alpha } := by
  unfold commit
  rw [if_neg]
  simp [hc, hlevels]

theorem outcome_format {c : Chain} (hlevels : c.levels ≠ []) (w : Walk) :
    (c.outcome w).format = w.format := by
  unfold outcome
  exact if_neg (by simp [hlevels])

/-- A reload from an entry with the first level reckons all sizes from the header of the
first file. -/
theorem walk_reload {entry : LevelData} (hhas : entry.has 0 = true) (ho : src.Opens name file f)
    {h : FileHeader} (hread : FileHeader.read f.identify.1 f.identify.2 r.support = .ok h)
    (w : Walk) (names : List String) :
    ∃ c, (start entry).walk src r none 0 w (name :: names) =
        (c, .ok ⟨entry.format, .finished, w.cancelled⟩) ∧
      c.alpha = entry.alpha ∧
      c.levels.map LevelRecord.size =
        pyramid (r.rescaleTruncating h.width h.height).1 (r.rescaleTruncating h.width h.height).2
          (entry.run 0 maxLevels) := by
  refine ⟨((((start entry).opening name file).taken r h 0).keepFile 0 file), ?_, ?_, ?_⟩
  · rw [walk_cached (c := start entry) (i := 0) rfl (by simp) ho hhas hread, shelve,
      pursue_finished rfl]
    rfl
  · rw [keepFile_alpha]
    rfl
  · rw [keepFile_sizes]
    change List.map LevelRecord.size (List.map _ (pyramid _ _ _)) = _
    rw [List.map_map]
    exact List.map_id _

/-- A first file that brings levels is one of many levels, or an image behind which the walk
goes on. -/
theorem walk_begins {entry : LevelData} (hempty : entry.isEmpty = true)
    (ho : src.Opens name file f) {names : List String} {c : Chain} {w w' : Walk}
    (hw : (start entry).walk src r cut 0 w (name :: names) = (c, .ok w'))
    (hlevels : c.levels ≠ []) :
    ∃ found,
      ((start entry).harvest src.transcoder r 0 f).ending = .ok (.finished, found) ∧
          c = (start entry).laid name file 0 ((start entry).harvest src.transcoder r 0 f) ∧
          w' = ⟨found, .finished, w.cancelled⟩ ∨
        ((start entry).harvest src.transcoder r 0 f).ending = .ok (.more, found) ∧
          ((start entry).laid name file 0 ((start entry).harvest src.transcoder r 0 f)).walk src r
            cut 1 ⟨found, .more, w.cancelled⟩ names = (c, .ok w') := by
  have hnew := (imaged_start hempty src r (0, 0)).has_eq_false le_rfl
  have hcut : cut ≠ some 0 := by
    rintro rfl
    cases hw
    exact hlevels rfl
  rw [walk_fresh (c := start entry) (i := 0) rfl hcut ho hnew] at hw
  rcases he : ((start entry).harvest src.transcoder r 0 f).ending with e | ⟨result, found⟩
  · simp [he] at hw
  simp only [he] at hw
  refine ⟨found, ?_⟩
  rcases pursue_cases hw with
    ⟨rfl, rfl, -⟩ | ⟨-, hforeign, -⟩ | ⟨-, ⟨rfl, rfl, rfl⟩ | ⟨rfl, hnext⟩⟩
  · exact absurd (laid_levels_eq_nil_iff.mpr ⟨rfl, layers_of_failed he⟩) hlevels
  · cases hforeign
  · exact .inl ⟨rfl, rfl, rfl⟩
  · exact .inr ⟨rfl, hnext⟩

/-- Only a first file of many levels leaves nothing for the first level. -/
theorem walk_nothing {entry : LevelData} (hempty : entry.isEmpty = true)
    (ho : src.Opens name file f) {names : List String} {c : Chain} {w w' : Walk}
    (hw : (start entry).walk src r cut 0 w (name :: names) = (c, .ok w')) (hlevels : c.levels ≠ [])
    (hnone : c.entry.has 0 = false) :
    ∃ found, ((start entry).harvest src.transcoder r 0 f).ending = .ok (.finished, found) ∧
      c = (start entry).laid name file 0 ((start entry).harvest src.transcoder r 0 f) ∧
      w' = ⟨found, .finished, w.cancelled⟩ := by
  obtain ⟨found, hlast | ⟨he, hnext⟩⟩ := walk_begins hempty ho hw hlevels
  · exact ⟨found, hlast⟩
  obtain ⟨l, hl⟩ := List.length_eq_one_iff.mp (harvest_more he)
  have hfilled : l.bytes ≠ [] := by
    rcases harvest_filled (by simp) he with h | ⟨-, h, -⟩
    · exact h l (by simp [hl])
    · exact absurd rfl h
  have hkept := walk_bytes_of_lt src r cut
    (c := (start entry).laid name file 0 ((start entry).harvest src.transcoder r 0 f))
    (by rw [laid_length, hl]; rfl) Nat.zero_lt_one ⟨found, .more, w.cancelled⟩ names
  have hfirst : c.entry.bytes 0 = l.bytes := by
    have hc : c = (walk _ src r cut 1 ⟨found, .more, w.cancelled⟩ names).1 :=
      (congrArg Prod.fst hnext).symm
    rw [hc, hkept, laid_entry, LevelData.bytes_putAll, hl]
    rfl
  rw [← Bool.not_eq_true, LevelData.has_iff, not_not, hfirst] at hnone
  exact absurd hnone hfilled

/-- A universal texture has a first level with pixels. -/
theorem unscaled_of_nothing {entry : LevelData} (hempty : entry.isEmpty = true)
    (ho : src.Opens name file f) {first : LevelRecord}
    (hfirst : ((start entry).laid name file 0
      ((start entry).harvest src.transcoder r 0 f)).levels.head? = some first)
    (hzero : first.width = 0 ∨ first.height = 0) :
    src.Unscaled r ((start entry).laid name file 0
      ((start entry).harvest src.transcoder r 0 f)).levels := by
  rcases hlayers : ((start entry).harvest src.transcoder r 0 f).layers with _ | ⟨l, ls⟩
  · rw [laid_levels, hlayers] at hfirst
    cases hfirst
  rw [(imaged_start hempty src r (0, 0)).unscaled_laid_iff name hlayers]
  rintro ⟨f', hopen, hk⟩
  obtain rfl : f = f' := Except.ok.inj (ho.openFile.symm.trans hopen)
  rw [laid_levels_cons (c := start entry) (i := 0) rfl _ _ hlayers] at hfirst
  cases hfirst
  rcases (start entry).harvest_sound src.transcoder r 0 f with ⟨hnil, -⟩ | ⟨h, size, hread, -, hs⟩
  · rw [hlayers] at hnil
    cases hnil
  · obtain ⟨hw, hh⟩ := FileHeader.read_eq_ok hread
    have hlsize := hs.head?_size (l := l) (by rw [hlayers]; rfl)
    rw [topSize, if_pos hk] at hlsize
    have hlw : l.width = h.width := congrArg Prod.fst hlsize
    have hlh : l.height = h.height := congrArg Prod.snd hlsize
    simp only at hzero
    omega

theorem commit_relaid {entry : LevelData} {g : Harvest} (hg : g.layers ≠ [])
    (found : PixelFormat) :
    let e := ((start entry).laid name file 0 g).commit found
    ((start e).laid name file 0 g).commit found = e := by
  have hne (d : LevelData) : ((start d).laid name file 0 g).levels ≠ [] := by
    rw [← List.length_pos_iff, laid_length]
    exact Nat.add_pos_right _ (List.length_pos_iff.mpr hg)
  intro e
  have he : e = { entry.putAll 0 (g.layers.map Layer.bytes) with
      format := found, alpha := g.alpha.getD .unknown } := by
    simp only [e]
    rw [commit_of_decoded (laid_reused ..) (hne entry), laid_entry, laid_alpha]
    rfl
  have hagain : e.putAll 0 (g.layers.map Layer.bytes) = e := by
    apply LevelData.putAll_eq_self
    intro k hk
    rw [he]
    exact LevelData.getElem?_putAll entry 0 hk
  rw [commit_of_decoded (laid_reused ..) (hne e), laid_entry, laid_alpha]
  change { e.putAll 0 (g.layers.map Layer.bytes) with
    format := found, alpha := g.alpha.getD .unknown } = e
  rw [hagain, he]

/-- The entry keeps exactly the levels that the load has listed. -/
theorem Decoded.run_commit {c : Chain} (hc : c.Decoded src r base)
    (hall : ∀ k < c.levels.length, c.entry.has k = true) (found : PixelFormat) :
    (c.commit found).run 0 maxLevels = c.levels.length := by
  apply LevelData.run_eq hc.length
  · intro k hk
    rw [Nat.zero_add, commit_has]
    exact hall k hk
  · rw [Nat.zero_add, commit_has, hc.above]

/-- Where nothing of the first level could be kept, the same file is decoded once more. -/
theorem walk_again {entry : LevelData} (hempty : entry.isEmpty = true)
    (ho : src.Opens name file f) {names : List String} {c : Chain} {w w' : Walk}
    (hw : (start entry).walk src r cut 0 w (name :: names) = (c, .ok w')) (hlevels : c.levels ≠ [])
    (hnone : c.entry.has 0 = false) :
    src.Unscaled r c.levels ∧
      ∃ c', (start (c.commit w'.format)).walk src r none 0 w (name :: names) = (c', .ok w') ∧
        c'.levels = c.levels ∧ c'.alpha = c.alpha ∧ c'.commit w'.format = c.commit w'.format := by
  obtain ⟨first, hfirst, hzero⟩ : ∃ first, c.levels.head? = some first ∧
      (first.width = 0 ∨ first.height = 0) := by
    rcases walk_backs (c := start entry) (i := 0) rfl (by simp) (by simp) hw with
      hhas | ⟨-, hhead⟩
    · rw [hhas 0 (List.length_pos_of_ne_nil hlevels)] at hnone
      cases hnone
    · exact hhead
  obtain ⟨found, he, rfl, rfl⟩ := walk_nothing hempty ho hw hlevels hnone
  refine ⟨unscaled_of_nothing hempty ho hfirst hzero, ?_⟩
  have hlayers : ((start entry).harvest src.transcoder r 0 f).layers ≠ [] := by
    intro hnil
    exact hlevels (laid_levels_eq_nil_iff.mpr ⟨rfl, hnil⟩)
  generalize hfilled : Chain.commit _ found = filled at *
  have hnew : filled.has 0 = false := by rw [← hfilled, commit_has, hnone]
  have hsame : (start filled).harvest src.transcoder r 0 f =
      (start entry).harvest src.transcoder r 0 f := harvest_congr rfl ..
  refine ⟨(start filled).laid name file 0 ((start entry).harvest src.transcoder r 0 f), ?_, ?_, ?_,
    ?_⟩
  · rw [walk_fresh (c := start filled) (i := 0) rfl (by simp) ho hnew, hsame, he]
    exact pursue_finished rfl names
  · rw [laid_levels, laid_levels]
    rfl
  · rw [laid_alpha, laid_alpha]
    rfl
  · rw [← hfilled]
    exact commit_relaid hlayers found

end Chain

open Chain

/-- A second load leaves the entry as it is and finds as many levels as the first, in the same
format and with the same transparency. It also finds them in the same sizes, unless the first
level of some file comes from a universal texture that the request scales. -/
theorem reload_agrees {src : Sources} {r : Request} {entry : LevelData} {o : LoadOutcome}
    (hempty : entry.isEmpty = true) (hload : (loadLevels src r none entry).outcome = some o)
    (hlevels : o.levels ≠ []) :
    let filled := (loadLevels src r none entry).entry
    (loadLevels src r none filled).entry = filled ∧
      ∃ o', (loadLevels src r none filled).outcome = some o' ∧
        o'.levels.length = o.levels.length ∧ o'.format = o.format ∧ o'.alpha = o.alpha ∧
        (o'.levels.map LevelRecord.size = o.levels.map LevelRecord.size ↔
          src.Unscaled r o.levels) := by
  obtain ⟨c, w, hw, rfl, hfilled⟩ := walk_of_loadLevels hload
  have hc : c.levels ≠ [] := hlevels
  obtain ⟨name, names, file, f, h, hnames, ho, hread, hdecoded⟩ :=
    walk_first hempty (List.length_take_le _ _) hw hc
  intro filled
  change filled = _ at hfilled
  have hbacks := walk_backs (c := start entry) (i := 0) rfl (by simp) (by simp) hw
  rw [hnames] at hw
  rcases hhas : c.entry.has 0 with _ | _
  · -- Nothing of the first level could be kept: the same file is decoded once more.
    obtain ⟨hunscaled, c', hw', hsame, halpha, hcommit⟩ := walk_again hempty ho hw hc hhas
    rw [← hfilled, ← hnames] at hw'
    obtain ⟨houtcome, hentry⟩ := loadLevels_of_walk hw'
    have ho' : c'.outcome w = c.outcome w := by simp only [outcome, hsame, halpha]
    refine ⟨by rw [hentry, hcommit, hfilled], c.outcome w, ho' ▸ houtcome, rfl, rfl, rfl, ?_⟩
    exact iff_of_true rfl hunscaled
  · have hfirst : filled.has 0 = true := by rw [hfilled, commit_has, hhas]
    obtain ⟨c', hw', halpha, hsizes⟩ :=
      walk_reload hfirst ho hread ⟨.undefined, firstResult r, false⟩ names
    have hall : ∀ k < c.levels.length, c.entry.has k = true := by
      rcases hbacks with hall | ⟨hnone, -⟩
      · exact hall
      · rw [hhas] at hnone
        cases hnone
    rw [hfilled, hdecoded.run_commit hall] at hsizes
    have hlength : c'.levels.length = c.levels.length := by
      simpa using congrArg List.length hsizes
    have hc' : c'.levels ≠ [] := by
      rw [← List.length_pos_iff, hlength]
      exact List.length_pos_of_ne_nil hc
    have hcommit : filled = { c.entry with format := w.format, alpha := c.alpha } :=
      hfilled.trans (commit_of_decoded hdecoded.decoded hc w.format)
    rw [← hnames] at hw'
    refine ⟨loadLevels_of_has src r none hfirst, _, (loadLevels_of_walk hw').1, hlength, ?_, ?_, ?_⟩
    · rw [outcome_format hc', outcome_format hc, hcommit]
    · change c'.alpha = c.alpha
      rw [halpha, hcommit]
    · change c'.levels.map LevelRecord.size = c.levels.map LevelRecord.size ↔
        src.Unscaled r c.levels
      rw [hsizes, ← hdecoded.sizes]
      exact eq_comm

/-- A universal texture of 8x8 pixels with two levels. -/
def universalFile : Bytes :=
  Ktx2.identifier ++
    [0, 0, 0, 0, 1, 0, 0, 0, 8, 0, 0, 0, 8, 0, 0, 0, 0, 0, 0, 0, 0, 0, 0, 0, 1, 0, 0, 0,
      2, 0, 0, 0, 1, 0, 0, 0] ++ Bytes.zeros 80

/-- A texture of half the size that its file was made for. -/
def halfSize : Request := (Request.unscaled ["a.ktx2"] .desktop "").scaled 1 1 2 2

/-- A second load finds both levels again, in half of their sizes, as the texture is scaled. -/
theorem reload_agrees_halfSize :
    let filled := (loadLevels (.single universalFile) halfSize none .empty).entry
    (loadLevels (.single universalFile) halfSize none filled).entry = filled ∧
      (∃ o', (loadLevels (.single universalFile) halfSize none filled).outcome = some o' ∧
        o'.levels.length = 2 ∧ o'.format = .bc1 ∧ o'.alpha = .solid ∧
        o'.levels.map LevelRecord.size = [(4, 4), (2, 2)]) ∧
      ¬(Sources.single universalFile).Unscaled halfSize
        [⟨8, 8, some ⟨"a.ktx2", 0⟩⟩, ⟨4, 4, none⟩] := by
  intro filled
  have hload : (loadLevels (.single universalFile) halfSize none .empty).outcome =
      some ⟨[⟨8, 8, some ⟨"a.ktx2", 0⟩⟩, ⟨4, 4, none⟩], .bc1, .solid, .finished, false⟩ := by
    decide +kernel
  have hnext : (loadLevels (.single universalFile) halfSize none filled).outcome.map
      (fun o => o.levels.map LevelRecord.size) = some [(4, 4), (2, 2)] := by
    decide +kernel
  obtain ⟨hentry, o', ho', hlength, hformat, halpha, hsizes⟩ :=
    reload_agrees rfl hload (List.cons_ne_nil _ _)
  rw [ho', Option.map_some, Option.some.injEq] at hnext
  refine ⟨hentry, ⟨o', ho', hlength, hformat, halpha, hnext⟩, fun hunscaled => ?_⟩
  have hsame := hnext.symm.trans (hsizes.mpr hunscaled)
  exact absurd hsame (by decide)

/-- The sizes of a universal texture change when it is loaded again. -/
theorem reload_resizes_universal :
    (loadLevels (.single universalFile) halfSize none .empty).outcome.map
        (fun o => o.levels.map LevelRecord.size) = some [(8, 8), (4, 4)] ∧
      (loadLevels (.single universalFile) halfSize none
          (loadLevels (.single universalFile) halfSize none .empty).entry).outcome.map
        (fun o => o.levels.map LevelRecord.size) = some [(4, 4), (2, 2)] := by
  decide +kernel

end TexturePack
