import Mathlib
import TexturePack.Proofs.Load.Reload

/-! What a load lists fills its place in the cache entry: the bytes of each level are exactly
as many as its size calls for. Nothing else can be listed, but for a file of many levels whose
request scales it to nothing. -/
namespace TexturePack

/-- The first file of a request brings levels of its own and is scaled to nothing. -/
def Sources.Vanishing (src : Sources) (r : Request) : Prop :=
  ∃ name file f h, r.names.head? = some name ∧ src.Opens name file f ∧
    f.identify.1.container = .dds ∧
    FileHeader.read f.identify.1 f.identify.2 r.support = .ok h ∧
    ((r.rescaleTruncating h.width h.height).1 = 0 ∨ (r.rescaleTruncating h.width h.height).2 = 0)

namespace Chain

variable {src : Sources} {r : Request} {cut : Option Nat} {i : Nat} {name : String}
  {file : FileReference} {f : OpenFile} {format : PixelFormat}

/-- The entry has every listed level as a whole level of one format. -/
structure Filled (c : Chain) (format : PixelFormat) : Prop where
  format_ne : c.levels ≠ [] → format ≠ .undefined
  bytes : ∀ k s, (c.levels.map LevelRecord.size)[k]? = some s →
    format.Filled (c.entry.bytes k) s.1 s.2

theorem filled_of_nil {c : Chain} (h : c.levels = []) (format : PixelFormat) : c.Filled format where
  format_ne hne := absurd h hne
  bytes k s hs := by
    rw [h] at hs
    cases hs

theorem Filled.alike {c c' : Chain} (hc : c.Filled format) (h : c'.Alike c) : c'.Filled format where
  format_ne := by
    rw [h.levels]
    exact hc.format_ne
  bytes := by
    rw [h.levels, h.entry]
    exact hc.bytes

theorem layers_filled {c : Chain} {t : Option Transcoder} {result : LoadResult}
    (he : (c.harvest t r i f).ending = .ok (result, format)) :
    ∀ l ∈ (c.harvest t r i f).layers,
      format ≠ .undefined ∧ format.Filled l.bytes l.width l.height := by
  rcases c.harvest_sound t r i f with ⟨hnil, -⟩ | ⟨_, _, -, -, hs⟩
  · simp [hnil]
  · exact hs.filled result format he

theorem Filled.laid {c : Chain} (hc : c.Filled format) (hlen : c.levels.length = i)
    (name : String) (file : FileReference) {g : Harvest}
    (hg : ∀ l ∈ g.layers, format ≠ .undefined ∧ format.Filled l.bytes l.width l.height) :
    (c.laid name file i g).Filled format where
  format_ne hne := by
    rcases hlayers : g.layers with _ | ⟨l, ls⟩
    · apply hc.format_ne
      intro hnil
      exact hne (laid_levels_eq_nil_iff.mpr ⟨hnil, hlayers⟩)
    · exact (hg l (by simp [hlayers])).1
  bytes k s hs := by
    rw [laid_sizes] at hs
    rw [laid_entry]
    rcases Nat.lt_or_ge k i with hk | hk
    · rw [LevelData.bytes_putAll_of_lt _ _ hk]
      rw [List.getElem?_append_left (by rwa [List.length_map, hlen])] at hs
      exact hc.bytes k s hs
    · rw [List.getElem?_append_right (by rwa [List.length_map, hlen]), List.length_map, hlen,
        List.getElem?_map, Option.map_eq_some_iff] at hs
      obtain ⟨l, hl, rfl⟩ := hs
      obtain ⟨hlt, rfl⟩ := List.getElem?_eq_some_iff.mp hl
      rw [LevelData.bytes_putAll, List.length_map, if_pos ⟨hk, by omega⟩,
        List.getD_eq_getElem _ _ (by rwa [List.length_map]), List.getElem_map]
      exact (hg _ (List.getElem_mem hlt)).2

theorem Filled.discardFrom_laid {c : Chain} (hc : c.Filled format) (hlen : c.levels.length = i)
    (name : String) (file : FileReference) (g : Harvest) :
    ((c.laid name file i g).discardFrom i).Filled format where
  format_ne := by
    rw [discardFrom_laid_levels c g hlen]
    exact hc.format_ne
  bytes k s hs := by
    rw [discardFrom_laid_levels c g hlen] at hs
    have hk : k < i := by
      have h := (List.getElem?_eq_some_iff.mp hs).1
      rwa [List.length_map, hlen] at h
    have hbytes : ((c.laid name file i g).discardFrom i).entry.bytes k = c.entry.bytes k := by
      rw [discardFrom, LevelData.bytes_clear, if_neg hk.ne, laid_entry,
        LevelData.bytes_putAll_of_lt _ _ hk]
    rw [hbytes]
    exact hc.bytes k s hs

/-- A file that belongs to the chain has its format, if it brings levels. -/
theorem eq_of_not_foreign {c : Chain} {found : PixelFormat} (h : c.foreign i format found = false) :
    i = 0 ∨ c.levels.length ≤ i ∨ format = found := by
  unfold foreign at h
  simp only [Bool.and_eq_false_iff, decide_eq_false_iff_not, not_lt, ne_eq,
    not_not] at h
  tauto

/-- The format in which a walk goes on is the one of the levels laid down. -/
theorem Filled.laid_own {c : Chain} (hc : c.Filled format) (hlen : c.levels.length = i)
    {found : PixelFormat} {g : Harvest}
    (hg : ∀ l ∈ g.layers, found ≠ .undefined ∧ found.Filled l.bytes l.width l.height)
    (hown : (c.laid name file i g).foreign i format found = false) :
    (c.laid name file i g).Filled (if i = 0 then found else format) := by
  rcases Nat.eq_zero_or_pos i with rfl | hi
  · exact (filled_of_nil (List.length_eq_zero_iff.mp hlen) found).laid hlen name file hg
  rw [if_neg hi.ne']
  apply hc.laid hlen name file
  intro l hl
  have hpos := List.length_pos_of_mem hl
  rcases eq_of_not_foreign hown with h0 | hle | rfl
  · exact absurd h0 hi.ne'
  · rw [laid_length, hlen] at hle
    omega
  · exact hg l hl

/-- Levels of a pyramid are there behind the first. -/
theorem Filled.has_of_pos {c : Chain} (hc : c.Filled format) {width height count k : Nat}
    (hsizes : c.levels.map LevelRecord.size = pyramid width height count)
    (hk : k < c.levels.length) (hpos : 0 < k) : c.entry.has k = true := by
  have hs : (c.levels.map LevelRecord.size)[k]? = some c.levels[k].size := by
    rw [List.getElem?_map, List.getElem?_eq_getElem hk]
    rfl
  have hne : c.levels ≠ [] := List.ne_nil_of_length_pos (Nat.zero_lt_of_lt hk)
  rw [LevelData.has_iff, (hc.bytes k _ hs).ne_nil_iff (hc.format_ne hne)]
  rw [hsizes] at hs
  exact pyramid_pos_of_pos hs hpos

/-- A walk over nothing but its own levels ends with all of them whole. -/
theorem walk_filled {c c' : Chain} (hlen : c.levels.length = i)
    (habove : ∀ j, i ≤ j → c.entry.bytes j = []) {w w' : Walk} (hc : c.Filled w.format)
    {names : List String} (hw : c.walk src r cut i w names = (c', .ok w')) :
    c'.Filled w'.format := by
  induction names generalizing c i w with
  | nil =>
    cases hw
    exact hc
  | cons name names ih =>
    have hnew : c.entry.has i = false := by
      rw [← Bool.not_eq_true, LevelData.has_iff, not_not]
      exact habove i le_rfl
    rcases walk_cons hlen src r cut w name names with
      ⟨c₁, result, hwalk, halike⟩ | ⟨file, f, ho, hcut, - | ⟨hhas, -⟩⟩
    · rcases Nat.eq_zero_or_pos i with rfl | hi
      · rw [hwalk] at hw
        cases hw
        exact filled_of_nil (halike.levels.trans (List.length_eq_zero_iff.mp hlen)) _
      · rw [walk_format hi hw]
        rw [hwalk] at hw
        cases hw
        exact hc.alike halike
    · rw [walk_fresh hlen hcut ho hnew] at hw
      rcases he : (c.harvest src.transcoder r i f).ending with e | ⟨result, found⟩
      · simp [he] at hw
      simp only [he] at hw
      have hlayers := layers_filled he
      rcases pursue_cases hw with
        ⟨rfl, rfl, rfl⟩ | ⟨-, -, rfl, rfl⟩ | ⟨hown, ⟨-, rfl, rfl⟩ | ⟨rfl, hnext⟩⟩
      · apply hc.laid hlen name file
        rw [layers_of_failed he]
        simp
      · exact hc.discardFrom_laid hlen name file _
      · exact hc.laid_own hlen hlayers hown
      · have hone := harvest_more he
        refine ih (by rw [laid_length, hlen, hone]) ?_ (hc.laid_own hlen hlayers hown) hnext
        intro j hj
        rw [laid_bytes_of_ne hone (by omega)]
        exact habove j (by omega)
    · rw [hnew] at hhas
      cases hhas

/-- The levels of a first file of many levels are a pyramid below the size of its header, as
the request scales it. -/
theorem sizes_of_first {entry : LevelData} {h : FileHeader}
    (hread : FileHeader.read f.identify.1 f.identify.2 r.support = .ok h) {top : Nat × Nat}
    (htop : topSize f.identify.1.container h (r.rescaleTruncating h.width h.height) = top)
    (hlevels : ((start entry).laid name file 0
      ((start entry).harvest src.transcoder r 0 f)).levels ≠ []) :
    ∃ count, ((start entry).laid name file 0
      ((start entry).harvest src.transcoder r 0 f)).levels.map LevelRecord.size =
        pyramid top.1 top.2 (count + 1) := by
  subst htop
  rw [ne_eq, laid_levels_eq_nil_iff, not_and] at hlevels
  have hlayers := List.length_pos_of_ne_nil (hlevels rfl)
  obtain ⟨count, hcount⟩ := Nat.exists_eq_succ_of_ne_zero hlayers.ne'
  rcases (start entry).harvest_sound src.transcoder r 0 f with
    ⟨hnil, -⟩ | ⟨h', size, hread', hsize, hs⟩
  · exact absurd hnil (hlevels rfl)
  obtain rfl : h' = h := Except.ok.inj (hread'.symm.trans hread)
  rw [levelSize?_zero, Option.some.injEq] at hsize
  subst hsize
  rw [laid_sizes, hs.sizes, hcount]
  exact ⟨count, rfl⟩

/-- A listed level is missing only where it is the first and scaled to nothing. -/
theorem vanishing_of_missing {entry : LevelData} (hempty : entry.isEmpty = true)
    (hnames : r.names.head? = some name) (ho : src.Opens name file f) {h : FileHeader}
    (hread : FileHeader.read f.identify.1 f.identify.2 r.support = .ok h) {names : List String}
    {c : Chain} {w w' : Walk} (hw : (start entry).walk src r cut 0 w (name :: names) = (c, .ok w'))
    {k : Nat} (hk : k < c.levels.length) (hmissing : c.entry.has k = false) :
    k = 0 ∧ src.Vanishing r := by
  have hlevels : c.levels ≠ [] := List.ne_nil_of_length_pos (Nat.zero_lt_of_lt hk)
  have hfilled := walk_filled (c := start entry) (i := 0) rfl
    (fun j _ => LevelData.isEmpty_iff.mp hempty j) (filled_of_nil rfl _) hw
  rcases walk_backs (c := start entry) (i := 0) rfl (by simp) (by simp) hw with
    hall | ⟨hnone, base, hbase, hzero⟩
  · rw [hall k hk] at hmissing
    cases hmissing
  obtain ⟨found, he, rfl, -⟩ := walk_nothing hempty ho hw hlevels hnone
  generalize htop : topSize f.identify.1.container h (r.rescaleTruncating h.width h.height) = top
  obtain ⟨count, hsizes⟩ := sizes_of_first hread htop hlevels
  constructor
  · by_contra hpos
    rw [hfilled.has_of_pos hsizes hk (Nat.pos_of_ne_zero hpos)] at hmissing
    cases hmissing
  · have hbase : base.size = top := by
      obtain ⟨ls, hls⟩ := List.head?_eq_some_iff.mp hbase
      rw [hls, List.map_cons, pyramid, List.cons.injEq] at hsizes
      exact hsizes.1
    obtain ⟨hw, hh⟩ := FileHeader.read_eq_ok hread
    have hwidth : base.width = top.1 := congrArg Prod.fst hbase
    have hheight : base.height = top.2 := congrArg Prod.snd hbase
    rcases harvest_finished_container he with hk | hk
    · rw [hk] at htop
      refine ⟨name, file, f, h, hnames, ho, hk, hread, ?_⟩
      subst htop
      rwa [hwidth, hheight] at hzero
    · rw [hk, topSize, if_pos rfl] at htop
      subst htop
      omega

/-- A file that is scaled to nothing lists a first level without bytes, if it has levels. -/
theorem missing_of_vanishing {entry : LevelData} (hempty : entry.isEmpty = true)
    (ho : src.Opens name file f) (hkind : f.identify.1.container = .dds) {h : FileHeader}
    (hread : FileHeader.read f.identify.1 f.identify.2 r.support = .ok h)
    (hzero : (r.rescaleTruncating h.width h.height).1 = 0 ∨
      (r.rescaleTruncating h.width h.height).2 = 0) {names : List String} {c : Chain}
    {w w' : Walk} (hw : (start entry).walk src r cut 0 w (name :: names) = (c, .ok w'))
    (hlevels : c.levels ≠ []) : c.entry.has 0 = false := by
  have htop : topSize f.identify.1.container h (r.rescaleTruncating h.width h.height) =
      r.rescaleTruncating h.width h.height := by
    rw [hkind]
    rfl
  obtain ⟨found, ⟨he, rfl, -⟩ | ⟨he, -⟩⟩ := walk_begins hempty ho hw hlevels
  · obtain ⟨count, hsizes⟩ := sizes_of_first hread htop hlevels
    have hfilled := (filled_of_nil (c := start entry) rfl found).laid (i := 0) rfl name file
      (layers_filled he)
    have hbytes := hfilled.bytes 0 (r.rescaleTruncating h.width h.height)
      (by rw [hsizes]; rfl)
    rw [← Bool.not_eq_true, LevelData.has_iff, hbytes.ne_nil_iff (hfilled.format_ne hlevels)]
    omega
  · -- Behind a file of nothing no walk goes on.
    rcases (start entry).harvest_sound src.transcoder r 0 f with
      ⟨-, _, h' | ⟨_, h'⟩⟩ | ⟨h', size, hread', hsize, hs⟩
    · rw [he] at h'
      cases h'
    · rw [he] at h'
      cases h'
    · obtain rfl : h' = h := Except.ok.inj (hread'.symm.trans hread)
      rw [levelSize?_zero, Option.some.injEq] at hsize
      have hpos := (hs.more found he).2
      rw [← hsize, htop] at hpos
      omega

end Chain

open Chain

/-- What is known of the levels that a load puts into an empty entry. -/
theorem loadLevels_filled {src : Sources} {r : Request} {cut : Option Nat} {entry : LevelData}
    {o : LoadOutcome} (hempty : entry.isEmpty = true)
    (hload : (loadLevels src r cut entry).outcome = some o) :
    o.levels.length ≤ maxLevels ∧ (o.levels ≠ [] → o.format ≠ .undefined) ∧
      ∀ k l, o.levels[k]? = some l →
        o.format.Filled ((loadLevels src r cut entry).entry.bytes k) l.width l.height := by
  obtain ⟨c, w, hw, rfl, hentry⟩ := walk_of_loadLevels hload
  have hfilled := walk_filled (c := start entry) (i := 0) rfl
    (fun j _ => LevelData.isEmpty_iff.mp hempty j) (filled_of_nil rfl _) hw
  by_cases hlevels : c.levels = []
  · simp [outcome, hlevels]
  obtain ⟨_, _, _, _, _, _, _, _, hdecoded⟩ :=
    walk_first hempty (List.length_take_le _ _) hw hlevels
  rw [outcome_format hlevels]
  refine ⟨hdecoded.length, fun _ => hfilled.format_ne hlevels, ?_⟩
  intro k l hl
  rw [hentry, commit_bytes]
  apply hfilled.bytes k l.size
  rw [List.getElem?_map, show c.levels[k]? = some l from hl]
  rfl

theorem loadLevels_missing_iff {src : Sources} {r : Request} {cut : Option Nat} {entry : LevelData}
    {o : LoadOutcome} (hempty : entry.isEmpty = true)
    (hload : (loadLevels src r cut entry).outcome = some o) {k : Nat} (hk : k < o.levels.length) :
    (loadLevels src r cut entry).entry.has k = false ↔ k = 0 ∧ src.Vanishing r := by
  obtain ⟨c, w, hw, rfl, hentry⟩ := walk_of_loadLevels hload
  have hlevels : c.levels ≠ [] := List.ne_nil_of_length_pos (Nat.zero_lt_of_lt hk)
  obtain ⟨name, rest, file, f, h, hnames, ho, hread, -⟩ :=
    walk_first hempty (List.length_take_le _ _) hw hlevels
  have hhead : r.names.head? = some name := by
    rcases hr : r.names with _ | ⟨first, others⟩
    · rw [hr] at hnames
      cases hnames
    · rw [hr] at hnames
      cases hnames
      rfl
  rw [hnames] at hw
  rw [hentry, commit_has]
  constructor
  · exact vanishing_of_missing hempty hhead ho hread hw hk
  · rintro ⟨rfl, name', file', f', h', hname', ho', hkind, hread', hzero⟩
    obtain rfl : name = name' := Option.some.inj (hhead.symm.trans hname')
    obtain rfl : file = file' := Option.some.inj (ho.lookup.symm.trans ho'.lookup)
    obtain rfl : f = f' := Except.ok.inj (ho.openFile.symm.trans ho'.openFile)
    exact missing_of_vanishing hempty ho' hkind hread' hzero hw hlevels

/-- A load into an empty entry lists at most as many levels as a texture can have, and the entry
has exactly the bytes of each, all in one format. Only a first level that its request scales to
nothing has none. -/
theorem levels_filled {src : Sources} {r : Request} {cut : Option Nat} {entry : LevelData}
    {o : LoadOutcome} (hempty : entry.isEmpty = true)
    (hload : (loadLevels src r cut entry).outcome = some o) :
    o.levels.length ≤ maxLevels ∧ ∀ k l, o.levels[k]? = some l →
      ((loadLevels src r cut entry).entry.bytes k).length = o.format.levelSize l.width l.height ∧
        ((loadLevels src r cut entry).entry.has k = false ↔ k = 0 ∧ src.Vanishing r) := by
  obtain ⟨hmax, -, hfilled⟩ := loadLevels_filled hempty hload
  refine ⟨hmax, fun k l hl => ⟨(hfilled k l hl).length_eq, ?_⟩⟩
  exact loadLevels_missing_iff hempty hload (List.getElem?_eq_some_iff.mp hl).1

/-- A file of one level of 4x4 pixels in a single block. -/
def blockFile : Bytes :=
  Dds.Header.mark ++
    [124, 0, 0, 0, 0, 0, 0, 0, 4, 0, 0, 0, 4, 0, 0, 0, 0, 0, 0, 0, 0, 0, 0, 0, 1, 0, 0, 0] ++
    Bytes.zeros 44 ++ [32, 0, 0, 0, 4, 0, 0, 0, 0x44, 0x58, 0x54, 0x31] ++ Bytes.zeros 48

/-- A texture of the size that its file was made for. -/
def fullSize : Request := .unscaled ["a.dds"] .desktop ""

/-- The entry has the eight bytes of the one block. -/
theorem levels_filled_fullSize :
    let run := loadLevels (.single blockFile) fullSize none .empty
    (run.entry.bytes 0).length = 8 ∧ run.entry.has 0 = true ∧
      ¬(Sources.single blockFile).Vanishing fullSize := by
  intro run
  have hempty : LevelData.empty.isEmpty = true := rfl
  have hload : run.outcome =
      some ⟨[⟨4, 4, some ⟨"a.dds", 0⟩⟩], .bc1, .unknown, .finished, false⟩ := by
    decide +kernel
  have hhas : run.entry.has 0 = true := by decide +kernel
  obtain ⟨hlength, hmissing⟩ := (levels_filled hempty hload).2 0 _ rfl
  refine ⟨hlength, hhas, fun hvanishing => ?_⟩
  have hnone := hmissing.mpr ⟨rfl, hvanishing⟩
  exact Bool.false_ne_true (hnone.symm.trans hhas)

/-- A texture of an eighth of the size that its file was made for, of which nothing is left. -/
def eighthSize : Request := fullSize.scaled 1 1 8 8

/-- A level is listed for which the entry has no bytes. -/
theorem eighthSize_lists_nothing :
    (loadLevels (.single blockFile) eighthSize none .empty).outcome =
        some ⟨[⟨0, 0, some ⟨"a.dds", 0⟩⟩], .bc1, .unknown, .finished, false⟩ ∧
      (loadLevels (.single blockFile) eighthSize none .empty).entry.has 0 = false := by
  decide +kernel

end TexturePack
