import Mathlib
import TexturePack.Proofs.Load.Formats

/-! The sizes of the levels that a load lists, beside the size of the first of them. Images and
what ends their chain follow it, whichever way a size comes about, but for a universal texture
whose request scales it. -/
namespace TexturePack

/-- The event is a load of one request, or drops the bytes. -/
def EntryEvent.Of (src : Sources) (r : Request) : EntryEvent → Prop
  | load src' r' _ => src' = src ∧ r' = r
  | drop => True

/-- Each level has the size of the first, halved once for each level before it, at least 1. -/
def Halves (levels : List LevelRecord) (base : LevelRecord) : Prop :=
  ∀ k l, levels[k]? = some l →
    l.width = max (base.width >>> k) 1 ∧ l.height = max (base.height >>> k) 1

namespace Chain

variable {src : Sources} {r : Request} {cut : Option Nat} {i : Nat} {name : String}
  {file : FileReference} {f : OpenFile} {entry : LevelData}

theorem getElem?_pyramid (width height count k : Nat) :
    (pyramid width height count)[k]? =
      if k < count then some (halve^[k] width, halve^[k] height) else none := by
  induction count generalizing width height k with
  | zero => rfl
  | succ count ih =>
    rcases k with _ | k
    · rfl
    · rw [pyramid, List.getElem?_cons_succ, ih]
      simp only [Nat.succ_lt_succ_iff, Function.iterate_succ_apply]

theorem halve_iterate_pos {d : Nat} (hd : 0 < d) (k : Nat) : halve^[k] d = max (d >>> k) 1 := by
  rcases k with _ | k
  · exact (Nat.max_eq_left hd).symm
  · exact halve_iterate_succ d k

/-- The levels follow the size of the first if that size is not empty and they are a pyramid. -/
theorem halves_iff {levels : List LevelRecord} {base : LevelRecord}
    (hbase : levels.head? = some base) :
    Halves levels base ↔ 0 < base.width ∧ 0 < base.height ∧
      levels.map LevelRecord.size = pyramid base.width base.height levels.length := by
  constructor
  · intro h
    obtain ⟨hw, hh⟩ := h 0 base (by rw [← List.head?_eq_getElem?, hbase])
    rw [Nat.shiftRight_zero] at hw hh
    have hw : 0 < base.width := by omega
    have hh : 0 < base.height := by omega
    refine ⟨hw, hh, List.ext_getElem? fun k => ?_⟩
    rw [List.getElem?_map, getElem?_pyramid, halve_iterate_pos hw, halve_iterate_pos hh]
    rcases hl : levels[k]? with _ | l
    · rw [if_neg (Nat.not_lt.mpr (List.getElem?_eq_none_iff.mp hl))]
      rfl
    · rw [if_pos (List.getElem?_eq_some_iff.mp hl).1]
      exact congrArg some (Prod.ext (h k l hl).1 (h k l hl).2)
  · rintro ⟨hw, hh, hsizes⟩ k l hl
    have hk := congrArg (·[k]?) hsizes
    simp only [List.getElem?_map, hl, getElem?_pyramid, (List.getElem?_eq_some_iff.mp hl).1,
      if_true, Option.map_some, Option.some.injEq] at hk
    rw [halve_iterate_pos hw, halve_iterate_pos hh] at hk
    exact ⟨congrArg Prod.fst hk, congrArg Prod.snd hk⟩

end Chain

namespace Harvest

variable {t : Option Transcoder} {r : Request} {i width height : Nat} {kind : Container}
  {h : FileHeader} {f : OpenFile} {l : Layer} {ls : List Layer}

/-- The first of some levels has bytes if the size below which they form a pyramid has pixels. -/
theorem Stacked.first_ne_nil {format : PixelFormat} (hs : Stacked (l :: ls) format width height)
    (hformat : format ≠ .undefined) (hw : 0 < width) (hh : 0 < height) : l.bytes ≠ [] := by
  have hsize : l.size = (width, height) := (List.cons.inj hs.1).1
  have hlw : l.width = width := congrArg Prod.fst hsize
  have hlh : l.height = height := congrArg Prod.snd hsize
  exact ((hs.2 l (by simp)).ne_nil_iff hformat).mpr ⟨hlw ▸ hw, hlh ▸ hh⟩

theorem ofKtx2_first (hl : (ofKtx2 t r i f).layers = l :: ls) : l.bytes ≠ [] := by
  unfold ofKtx2 at hl
  rcases hparse : f.readAll f.size >>= Ktx2.File.parse with e | file
  · simp [hparse, nothing] at hl
  obtain ⟨data, -, hfile⟩ := Decode.bind_eq_ok.mp hparse
  obtain ⟨-, hsize⟩ := Ktx2.File.parse_eq_ok hfile
  rcases hp : file.payload? with _ | p
  · simp [hparse, hp, nothing] at hl
  rcases t with _ | t
  · simp [hparse, hp, nothing] at hl
  simp only [hparse, hp, ofUniversal] at hl
  have hs := transcodedLayers_transcode t hsize (Chain.transcodeTarget t p r.support)
    (min file.levels (maxLevels - i))
  rw [hl] at hs
  exact hs.first_ne_nil (target_format_ne_undefined _) hsize.width_pos hsize.height_pos

theorem ofDds_first (hdds : ∀ info, h.dds = some info → info.format ≠ .undefined)
    (hl : (ofDds h i width height f).layers = l :: ls) :
    l.bytes ≠ [] ∨ width = 0 ∨ height = 0 := by
  unfold ofDds at hl
  rcases hd : h.dds with _ | info
  · simp [hd, nothing] at hl
  rcases hseek : f.seek (.start info.dataStart) with _ | f'
  · simp [hd, hseek] at hl
  simp only [hd, hseek] at hl
  have hs := slices_stacked info.format f' width height (min info.levels (maxLevels - i))
  rw [hl] at hs
  by_cases hpos : 0 < width ∧ 0 < height
  · exact .inl (hs.first_ne_nil (hdds info hd) hpos.1 hpos.2)
  · right
    omega

theorem ofImage_first {decode : Bytes → Nat → Nat → Decode Image}
    (hdecode : ∀ bytes image, decode bytes width height = .ok image → image.Fills width height)
    (hl : (ofImage i width height f decode).layers = l :: ls) : l.bytes ≠ [] := by
  have hs := ofImage_sound hdecode i f
  have hmore : (ofImage i width height f decode).ending = .ok (.more, .rgba8) := by
    unfold ofImage at hl ⊢
    split at hl
    · cases hl
    next hd => rfl
  obtain ⟨hone, hw, hh⟩ := hs.more _ hmore
  exact hs.bytes_ne_nil hw hh hmore (by rw [hl]; simp)

/-- The first level of a file has bytes, unless the file brings its own and is scaled to nothing. -/
theorem ofFile_first (hdds : ∀ info, h.dds = some info → info.format ≠ .undefined)
    (hl : (ofFile t r i kind h width height f).layers = l :: ls) :
    l.bytes ≠ [] ∨ kind = .dds ∧ (width = 0 ∨ height = 0) := by
  cases kind with
  | ktx2 => exact .inl (ofKtx2_first hl)
  | dds => exact (ofDds_first hdds hl).imp_right fun hzero => ⟨rfl, hzero⟩
  | zim => exact .inl (ofImage_first (fun _ _ h => Zim.fills_decode h) hl)
  | png => exact .inl (ofImage_first (fun _ _ h => Png.fills_decode h) hl)
  | basis | invalid => cases hl

end Harvest

namespace Chain

variable {src : Sources} {r : Request} {cut : Option Nat} {i : Nat} {name : String}
  {file : FileReference} {f : OpenFile} {entry : LevelData}

/-- A first level that is laid down has bytes, unless its file is scaled to nothing. -/
theorem first_has_or_vanishes (hname : r.names.head? = some name) (ho : src.Opens name file f)
    {l : Layer} {ls : List Layer}
    (hl : ((start entry).harvest src.transcoder r 0 f).layers = l :: ls) :
    l.bytes ≠ [] ∨ src.Vanishing r := by
  rcases (start entry).harvest_cases src.transcoder r 0 f with
    ⟨ending, heq, -⟩ | ⟨h, size, hread, hsize, -, heq⟩
  · rw [heq] at hl
    cases hl
  rw [levelSize?_zero, Option.some.injEq] at hsize
  subst hsize
  rw [heq] at hl
  refine (Harvest.ofFile_first (fun info hinfo => ?_) hl).imp_right fun ⟨hkind, hzero⟩ => ?_
  · exact Support.ne_undefined (FileHeader.read_dds_allows hread hinfo)
  · exact ⟨name, file, f, h, hname, ho, hkind, hread, hzero⟩

/-- Levels of one pyramid, all of one file or of none. -/
structure Uniform (levels : List LevelRecord) : Prop where
  sizes : ∃ width height, levels.map LevelRecord.size = pyramid width height levels.length
  files : ∀ l ∈ levels.tail, l.file = none

theorem Uniform.halves_iff {levels : List LevelRecord} (h : Uniform levels) {base : LevelRecord}
    (hbase : levels.head? = some base) :
    Halves levels base ↔
      0 < base.width ∧ 0 < base.height ∧ src.Unscaled r levels.tail := by
  obtain ⟨width, height, hsizes⟩ := h.sizes
  obtain ⟨rest, rfl⟩ := List.head?_eq_some_iff.mp hbase
  have hfirst : base.size = (width, height) := (List.cons.inj hsizes).1
  obtain rfl : base.width = width := congrArg Prod.fst hfirst
  obtain rfl : base.height = height := congrArg Prod.snd hfirst
  have hunscaled : src.Unscaled r (base :: rest).tail := by
    intro l hl file hfile
    rw [h.files l hl] at hfile
    cases hfile
  rw [Chain.halves_iff hbase]
  exact and_congr_right' (and_congr_right' (iff_of_true hsizes hunscaled))

/-- The levels of a first file are one pyramid. -/
theorem laid_uniform (hlevels : ((start entry).laid name file 0
      ((start entry).harvest src.transcoder r 0 f)).levels ≠ []) :
    Uniform ((start entry).laid name file 0
      ((start entry).harvest src.transcoder r 0 f)).levels := by
  rcases hl : ((start entry).harvest src.transcoder r 0 f).layers with _ | ⟨l, ls⟩
  · exact absurd (laid_levels_eq_nil_iff.mpr ⟨rfl, hl⟩) hlevels
  rcases (start entry).harvest_sound src.transcoder r 0 f with ⟨hnil, -⟩ | ⟨h, size, -, -, hs⟩
  · rw [hl] at hnil
    cases hnil
  constructor
  · refine ⟨(topSize f.identify.1.container h size).1,
      (topSize f.identify.1.container h size).2, ?_⟩
    rw [laid_sizes, laid_length, hs.sizes]
    simp [start]
  · rw [laid_levels_cons (c := start entry) (i := 0) rfl _ _ hl]
    intro l' hl'
    obtain ⟨layer, -, rfl⟩ := List.mem_map.mp hl'
    rfl

/-- So are the levels that come from the entry. -/
theorem taken_uniform (h : FileHeader) :
    Uniform ((((start entry).opening name file).taken r h 0).keepFile 0 file).levels := by
  constructor
  · refine ⟨(((start entry).opening name file).cachedSize r h 0).1,
      (((start entry).opening name file).cachedSize r h 0).2, ?_⟩
    rw [keepFile_sizes, keepFile_length]
    simp [taken, opening, note, start, Function.comp_def, LevelRecord.size]
  · intro l hl
    rw [keepFile_levels] at hl
    rcases hlevels : (((start entry).opening name file).taken r h 0).levels with _ | ⟨first, rest⟩
    · simp [hlevels] at hl
    have hrest : l ∈ rest := by simpa [hlevels] using hl
    have hmem : l ∈ (((start entry).opening name file).taken r h 0).levels := by
      rw [hlevels]
      exact List.mem_cons_of_mem _ hrest
    obtain ⟨s, -, rfl⟩ := List.mem_map.mp hmem
    rfl

/-- The entry has no levels or has the first, or the request scales its first file to nothing. -/
def Fit (src : Sources) (r : Request) (entry : LevelData) : Prop :=
  entry.isEmpty = true ∨ entry.has 0 = true ∨ src.Vanishing r

theorem fit_putAll (hempty : entry.isEmpty = true) (hname : r.names.head? = some name)
    (ho : src.Opens name file f) :
    Fit src r (entry.putAll 0
      (((start entry).harvest src.transcoder r 0 f).layers.map Layer.bytes)) := by
  rcases hl : ((start entry).harvest src.transcoder r 0 f).layers with _ | ⟨l, ls⟩
  · exact .inl hempty
  rcases first_has_or_vanishes hname ho hl with hbytes | hvanishes
  · refine .inr (.inl (LevelData.has_iff.mpr ?_))
    rw [LevelData.bytes_putAll]
    simpa using hbytes
  · exact .inr (.inr hvanishes)

/-- Whatever becomes of a walk, it leaves an entry that had no levels fit for the next one. -/
theorem walk_fit (cut : Option Nat) (hempty : entry.isEmpty = true) {names : List String}
    (hnames : names.head? = r.names.head?) (w : Walk) :
    Fit src r ((start entry).walk src r cut 0 w names).1.entry := by
  rcases names with _ | ⟨name, names⟩
  · exact .inl hempty
  have hname : r.names.head? = some name := hnames.symm
  rcases walk_cons (c := start entry) (i := 0) rfl src r cut w name names with
    ⟨c₁, result, hwalk, halike⟩ | ⟨file, f, ho, hcut, hnew | ⟨hhas, -⟩⟩
  · rw [hwalk]
    exact .inl (halike.entry ▸ hempty)
  · have hput := fit_putAll hempty hname ho
    rw [walk_fresh (c := start entry) (i := 0) rfl hcut ho hnew]
    rcases he : ((start entry).harvest src.transcoder r 0 f).ending with e | ⟨result, found⟩
    · exact hput
    cases result with
    | failed => exact (laid_entry ..).symm ▸ hput
    | finished => exact (laid_entry ..).symm ▸ hput
    | more =>
      change Fit src r (pursue src r cut 0 w names (_, .ok (.more, found))).1.entry
      rw [pursue_more (by rfl)]
      obtain ⟨l, hl⟩ := List.length_eq_one_iff.mp (harvest_more he)
      refine (first_has_or_vanishes hname ho hl).elim (fun hbytes => .inr (.inl ?_))
        fun hvanishes => .inr (.inr hvanishes)
      rw [LevelData.has_iff, walk_bytes_of_lt src r cut (by rw [laid_length, hl]; rfl)
        Nat.zero_lt_one, laid_entry, hl, LevelData.bytes_putAll]
      simpa using hbytes
  · have hfilled : entry.isEmpty = false := LevelData.isEmpty_of_has hhas
    rw [hempty] at hfilled
    cases hfilled

end Chain

open Chain

theorem fit_loadLevels {src : Sources} {r : Request} {entry : LevelData} (h : Fit src r entry)
    (cut : Option Nat) : Fit src r (loadLevels src r cut entry).entry := by
  rcases h with hempty | hhas | hvanishes
  · have hnames : (r.names.take maxLevels).head? = r.names.head? := by
      rw [List.head?_take, if_neg (by decide)]
    refine (walk_fit cut hempty hnames ⟨.undefined, firstResult r, false⟩).imp ?_
      (Or.imp_left ?_)
    · intro hwalk
      rw [LevelData.isEmpty_iff] at hwalk ⊢
      exact fun i => (loadLevels_bytes src r cut entry i).trans (hwalk i)
    · intro hwalk
      rw [LevelData.has_iff] at hwalk ⊢
      rwa [loadLevels_bytes]
  · exact .inr (.inl ((loadLevels_of_has src r cut hhas).symm ▸ hhas))
  · exact .inr (.inr hvanishes)

theorem fit_after {src : Sources} {r : Request} {events : List EntryEvent}
    (h : ∀ e ∈ events, e.Of src r) : Fit src r (LevelData.after events) := by
  induction events using List.reverseRecOn with
  | nil => exact .inl rfl
  | append_singleton events e ih =>
    rw [LevelData.after_concat]
    have hbefore := ih fun e' he' => h e' (List.mem_append_left _ he')
    have he := h e (by simp)
    cases e with
    | load src' r' cut =>
      obtain ⟨rfl, rfl⟩ := he
      exact fit_loadLevels hbefore cut
    | drop => exact .inl rfl

namespace Chain

variable {src : Sources} {r : Request} {cut : Option Nat} {i : Nat} {name : String}
  {file : FileReference} {f : OpenFile} {entry : LevelData}

/-- An image that begins a chain is scaled to something. -/
theorem first_image_pos {h : FileHeader} {found : PixelFormat}
    (hread : FileHeader.read f.identify.1 f.identify.2 r.support = .ok h)
    (he : ((start entry).harvest src.transcoder r 0 f).ending = .ok (.more, found)) :
    0 < (r.rescaleTruncating h.width h.height).1 ∧
      0 < (r.rescaleTruncating h.width h.height).2 := by
  rcases (start entry).harvest_sound src.transcoder r 0 f with
    ⟨-, _, h' | ⟨_, h'⟩⟩ | ⟨h', size, hread', hsize, hs⟩
  · rw [he] at h'
    cases h'
  · rw [he] at h'
    cases h'
  · obtain rfl : h' = h := Except.ok.inj (hread'.symm.trans hread)
    have hkind : f.identify.1.container ≠ .ktx2 := fun hk => harvest_ne_more hk _ _ r 0 found he
    have hpos := (hs.more found he).2
    rw [levelSize?_zero, Option.some.injEq] at hsize
    rwa [topSize, if_neg hkind, ← hsize] at hpos

/-- A load that finds its first level in the entry, or nothing of it, has the levels of one file
only. -/
theorem walk_uniform (hentry : entry.has 0 = true ∨ src.Vanishing r) {names : List String}
    (hnames : names.head? = r.names.head?) {c : Chain} {w w' : Walk}
    (hw : (start entry).walk src r cut 0 w names = (c, .ok w')) (hlevels : c.levels ≠ []) :
    Uniform c.levels := by
  rcases names with _ | ⟨name, names⟩
  · cases hw
    exact absurd rfl hlevels
  rcases walk_cons (c := start entry) (i := 0) rfl src r cut w name names with
    ⟨c₁, result, hwalk, halike⟩ | ⟨file, f, ho, hcut, hnew | ⟨hhas, h, hread⟩⟩
  · rw [hwalk] at hw
    cases hw
    exact absurd halike.levels hlevels
  · obtain ⟨name', file', f', h, hname', ho', hkind, hread, hzero⟩ : src.Vanishing r := by
      refine hentry.resolve_left ?_
      rw [Bool.not_eq_true]
      exact hnew
    obtain rfl : name = name' := Option.some.inj (hnames.trans hname')
    obtain rfl : file = file' := Option.some.inj (ho.lookup.symm.trans ho'.lookup)
    obtain rfl : f = f' := Except.ok.inj (ho.openFile.symm.trans ho'.openFile)
    obtain ⟨result, found, he, rfl | rfl | ⟨rfl, -⟩⟩ :=
      walk_fresh_ok (c := start entry) (i := 0) rfl hcut ho hnew hw
    · exact laid_uniform hlevels
    · exact absurd (discardFrom_laid_levels (start entry) _ rfl) hlevels
    · have hpos := first_image_pos hread he
      omega
  · rw [walk_cached (c := start entry) (i := 0) rfl hcut ho hhas hread, shelve,
      pursue_finished (by rfl)] at hw
    cases hw
    exact taken_uniform h

/-- A load into an entry without levels has the levels of one file only, or it begins with an
image. Then its levels follow that image, unless a universal texture is scaled. -/
theorem walk_halves (hempty : entry.isEmpty = true) {names : List String}
    (hmax : names.length ≤ maxLevels) {c : Chain} {w w' : Walk}
    (hw : (start entry).walk src r cut 0 w names = (c, .ok w')) {base : LevelRecord}
    (hbase : c.levels.head? = some base) :
    Uniform c.levels ∨
      0 < base.width ∧ 0 < base.height ∧
        (c.levels.map LevelRecord.size = pyramid base.width base.height c.levels.length ↔
          src.Unscaled r c.levels.tail) := by
  have hlevels : c.levels ≠ [] := by
    rintro hnil
    simp [hnil] at hbase
  obtain ⟨name, rest, file, f, h, rfl, ho, hread, -⟩ := walk_first hempty hmax hw hlevels
  obtain ⟨found, ⟨-, rfl, -⟩ | ⟨he, hnext⟩⟩ := walk_begins hempty ho hw hlevels
  · exact .inl (laid_uniform hlevels)
  right
  have hpos := first_image_pos hread he
  have himaged := (imaged_start hempty src r (r.rescaleTruncating h.width h.height)).next
    ho (fun _ h' hread' => by rw [Except.ok.inj (hread.symm.trans hread')]) he
  have hkept := walk_prefix himaged.length hnext
  have hdecoded := walk_decoded himaged (by rw [List.length_cons] at hmax; omega) (by simp) hnext
  obtain ⟨first, hfirst⟩ := List.length_eq_one_iff.mp himaged.length
  have hsize : first.size = r.rescaleTruncating h.width h.height := by
    simpa [hfirst, pyramid] using himaged.sizes
  have himage := himaged.images first (by simp [hfirst])
  obtain ⟨levels, hlevels⟩ := hkept
  rw [hfirst, List.singleton_append] at hlevels
  rw [← hlevels, List.head?_cons, Option.some.injEq] at hbase
  subst hbase
  have hw : first.width = (r.rescaleTruncating h.width h.height).1 := congrArg Prod.fst hsize
  have hh : first.height = (r.rescaleTruncating h.width h.height).2 := congrArg Prod.snd hsize
  rw [hw, hh]
  refine ⟨hpos.1, hpos.2, hdecoded.sizes.trans ?_⟩
  rw [← hlevels, List.tail_cons]
  refine ⟨fun hall l hl => hall l (List.mem_cons_of_mem _ hl), fun hrest l hl => ?_⟩
  rcases List.mem_cons.mp hl with rfl | hl
  · exact fun file hfile huniversal => absurd huniversal (himage file hfile)
  · exact hrest l hl

end Chain

open Chain

/-- The levels of a load have the size of the first, halved once for each level before it, if the
first has pixels and no later level is the first of a universal texture that the request scales.
It does not matter what loads of the same request have left in the entry. -/
theorem levels_halve_iff {src : Sources} {r : Request} {cut : Option Nat}
    {events : List EntryEvent} {o : LoadOutcome} {base : LevelRecord}
    (hevents : ∀ e ∈ events, e.Of src r)
    (hload : (loadLevels src r cut (LevelData.after events)).outcome = some o)
    (hbase : o.levels.head? = some base) :
    (∀ k l, o.levels[k]? = some l →
        l.width = max (base.width >>> k) 1 ∧ l.height = max (base.height >>> k) 1) ↔
      0 < base.width ∧ 0 < base.height ∧ src.Unscaled r o.levels.tail := by
  obtain ⟨c, w, hw, rfl, -⟩ := walk_of_loadLevels hload
  have hnames : (r.names.take maxLevels).head? = r.names.head? := by
    rw [List.head?_take, if_neg (by decide)]
  change c.levels.head? = some base at hbase
  have hlevels : c.levels ≠ [] := by
    rintro hnil
    simp [hnil] at hbase
  change Halves c.levels base ↔ 0 < base.width ∧ 0 < base.height ∧ src.Unscaled r c.levels.tail
  rcases fit_after hevents with hempty | hentry
  · rcases walk_halves hempty (List.length_take_le _ _) hw hbase with huniform | ⟨hbw, hbh, hsizes⟩
    · exact huniform.halves_iff hbase
    · rw [halves_iff hbase, hsizes]
  · exact (walk_uniform hentry hnames hw hlevels).halves_iff hbase

/-- A universal texture of 2x2 pixels with one level. -/
def smallUniversal : Bytes :=
  Ktx2.identifier ++
    [0, 0, 0, 0, 1, 0, 0, 0, 2, 0, 0, 0, 2, 0, 0, 0, 0, 0, 0, 0, 0, 0, 0, 0, 1, 0, 0, 0,
      1, 0, 0, 0, 1, 0, 0, 0] ++ Bytes.zeros 80

/-- An image, and a universal texture for the level behind it. -/
def imageThenUniversal : Sources where
  files := (Files.Memory.mk
    [("a.zim", some (.ofBytes (square 4))),
      ("b.ktx2", some (.ofBytes smallUniversal))]).fileSystem
  transcoder := some (.ofLevels (fun _ => true) fun _ _ _ _ => .filled fun _ => 0)

def imageAndUniversal : Request := .unscaled ["a.zim", "b.ktx2"] .none ""

/-- The universal texture is not scaled, and has half the size of the image. -/
theorem levels_halve_iff_imageThenUniversal :
    let levels : List LevelRecord :=
      [⟨4, 4, some ⟨"a.zim", 0⟩⟩, ⟨2, 2, some ⟨"b.ktx2", 0⟩⟩]
    (∀ k l, levels[k]? = some l → l.width = max (4 >>> k) 1 ∧ l.height = max (4 >>> k) 1) ∧
      imageThenUniversal.Unscaled imageAndUniversal levels.tail := by
  intro levels
  have hload : (loadLevels imageThenUniversal imageAndUniversal none (LevelData.after [])).outcome =
      some ⟨levels, .rgba8, .solid, .finished, false⟩ := by
    decide +kernel
  have hhalve : ∀ k l, levels[k]? = some l →
      l.width = max (4 >>> k) 1 ∧ l.height = max (4 >>> k) 1 := by
    rintro (_ | _ | k) l hl
    · cases hl
      exact ⟨rfl, rfl⟩
    · cases hl
      exact ⟨rfl, rfl⟩
    · cases hl
  exact ⟨hhalve, ((levels_halve_iff (by simp) hload rfl).mp hhalve).2.2⟩

/-- A universal texture stays as it is where the image before it is scaled to twice its size, and
a first level of nothing is not followed by levels of at least 1. -/
theorem scaled_universal_keeps_size :
    (loadLevels imageThenUniversal (imageAndUniversal.scaled 2 2 1 1) none .empty).outcome.map
        (fun o => o.levels.map LevelRecord.size) = some [(8, 8), (2, 2)] ∧
      (loadLevels (.single blockFile) eighthSize none .empty).outcome.map
        (fun o => o.levels.map LevelRecord.size) = some [(0, 0)] := by
  decide +kernel

end TexturePack
