import Mathlib
import TexturePack.Proofs.Load.Course
import TexturePack.Proofs.Load.Truncation

/-! Chains with one image file for each level. Which file has the image of a level is said of the
files alone, and a load lists the images up to the first level that has none. -/
namespace TexturePack

/-- The image in an open file, for a level of some size. -/
def OpenFile.image (f : OpenFile) (kind : Container) (width height : Nat) : Decode Image :=
  match kind with
  | .zim => f.readAll f.size >>= fun bytes => Zim.decode bytes width height
  | .png => f.readAll f.size >>= fun bytes => Png.decode bytes width height
  | kind => .refuse (.unsupported (.container kind.name))

/-- A file of one image yields this image. -/
theorem Harvest.ofFile_image {kind : Container} (hkind : kind = .png ∨ kind = .zim)
    (t : Option Transcoder) (r : Request) (i : Nat) (h : FileHeader) (width height : Nat)
    (f : OpenFile) :
    ofFile t r i kind h width height f =
      match f.image kind width height with
      | .error e => .nothing (.error e)
      | .ok image => .ofPicture i width height image := by
  rcases hkind with rfl | rfl <;> rfl

namespace Sources

variable {src : Sources} {r : Request} {i : Nat} {f : OpenFile}

/-- What the header of the file for level `k` says. -/
def header? (src : Sources) (r : Request) (k : Nat) : Option FileHeader :=
  (src.candidate? r none k).bind fun f =>
    (FileHeader.read f.identify.1 f.identify.2 r.support).toOption

/-- The size of level `k`. That of the first level is rounded down. A file behind it has to scale
evenly to this size, halved `k` times. -/
def levelSize? (src : Sources) (r : Request) (k : Nat) : Option (Nat × Nat) := do
  let h ← src.header? r k
  if k = 0 then some (r.rescaleTruncating h.width h.height)
  else
    let size ← r.rescale? h.width h.height
    let first ← src.header? r 0
    let base := r.rescaleTruncating first.width first.height
    if size = (base.1 >>> k, base.2 >>> k) then some size else none

/-- The image for level `k`, from its own file alone. -/
def picture (src : Sources) (r : Request) (k : Nat) : Decode Image :=
  match src.candidate? r none k with
  | none => .refuse .io
  | some f =>
      match FileHeader.read f.identify.1 f.identify.2 r.support with
      | .error e => .error e
      | .ok _ =>
          match src.levelSize? r k, f.identify.2.rewind with
          | some (width, height), .ok f' => f'.image f.identify.1.container width height
          | _, _ => .refuse .image

theorem header?_eq {h : FileHeader} (hf : src.candidate? r none i = some f)
    (hread : FileHeader.read f.identify.1 f.identify.2 r.support = .ok h) :
    src.header? r i = some h := by
  rw [header?, hf, Option.bind_some, hread]
  rfl

end Sources

/-- The names for the levels before `n`, as far as there are any. -/
def Request.namesBefore (r : Request) (n : Nat) : List String :=
  ((r.names.take maxLevels).take n).filter fun name => !name.isEmpty

theorem Request.namesBefore_succ {r : Request} {n : Nat} {name? : Option String}
    (h : (r.names.take maxLevels)[n]? = name?) :
    r.namesBefore (n + 1) =
      r.namesBefore n ++ name?.toList.filter fun name => !name.isEmpty := by
  rw [namesBefore, List.take_add_one, h, List.filter_append]
  rfl

namespace FileEvent

theorem lookups_append (events events' : List FileEvent) :
    lookups (events ++ events') = lookups events ++ lookups events' :=
  List.filterMap_append

end FileEvent

namespace Chain

variable {src : Sources} {r : Request} {cut : Option Nat} {i : Nat} {name : String}
  {file : FileReference} {f : OpenFile} {c : Chain}

@[simp] theorem lookups_keepFile (c : Chain) (n : Nat) (file : FileReference) :
    FileEvent.lookups (c.keepFile n file).events = FileEvent.lookups c.events := by
  unfold keepFile
  split
  · rfl
  · exact (FileEvent.lookups_append ..).trans (List.append_nil _)

@[simp] theorem lookups_opening (c : Chain) (name : String) (file : FileReference) :
    FileEvent.lookups (c.opening name file).events = FileEvent.lookups c.events ++ [name] := by
  rw [opening, note, note, FileEvent.lookups_append, FileEvent.lookups_append]
  exact List.append_nil _

@[simp] theorem lookups_laid (c : Chain) (name : String) (file : FileReference) (i : Nat)
    (g : Harvest) :
    FileEvent.lookups (c.laid name file i g).events = FileEvent.lookups c.events ++ [name] := by
  rw [laid, lookups_keepFile, ← lookups_opening c name file]
  rfl

/-- A chain of the first `n` images, in an entry that has nothing behind them. -/
structure Shows (src : Sources) (r : Request) (n : Nat) (c : Chain) : Prop where
  sizes : (c.levels.map LevelRecord.size).map some = (List.range n).map (src.levelSize? r)
  bytes : ∀ k < n, (src.picture r k).map Image.pixels = .ok (c.entry.bytes k)
  fresh : ∀ k, n ≤ k → c.entry.has k = false

theorem Shows.length (hc : c.Shows src r i) : c.levels.length = i := by
  simpa using congrArg List.length hc.sizes

theorem Shows.size (hc : c.Shows src r i) {k : Nat} {l : LevelRecord} (hl : c.levels[k]? = some l) :
    src.levelSize? r k = some l.size := by
  have hk : k < i := hc.length ▸ (List.getElem?_eq_some_iff.mp hl).1
  have hsize := congrArg (·[k]?) hc.sizes
  simp only [List.getElem?_map, hl, List.getElem?_range hk, Option.map_some] at hsize
  exact (Option.some.inj hsize).symm

theorem Shows.image (hc : c.Shows src r i) {k : Nat} (hk : k < i) :
    ∃ image, src.picture r k = .ok image ∧ c.entry.bytes k = image.pixels := by
  have hbytes := hc.bytes k hk
  rcases hpicture : src.picture r k with e | image
  · rw [hpicture] at hbytes
    cases hbytes
  · rw [hpicture] at hbytes
    exact ⟨image, rfl, (Except.ok.inj hbytes).symm⟩

theorem Shows.of_alike {c' : Chain} (hc : c.Shows src r i) (h : c'.Alike c) :
    c'.Shows src r i := by
  constructor
  · rw [h.levels, hc.sizes]
  · rw [h.entry]
    exact hc.bytes
  · rw [h.entry]
    exact hc.fresh

theorem shows_start {entry : LevelData} (hempty : entry.isEmpty = true) (src : Sources)
    (r : Request) : (start entry).Shows src r 0 where
  sizes := rfl
  bytes := fun k hk => absurd hk (Nat.not_lt_zero k)
  fresh := fun k _ => LevelData.not_has_of_isEmpty hempty k

/-- The chain has the first level that later ones are compared with. -/
theorem Shows.levelSize?_eq {h : FileHeader} (hc : c.Shows src r i)
    (hf : src.candidate? r none i = some f)
    (hread : FileHeader.read f.identify.1 f.identify.2 r.support = .ok h) :
    c.levelSize? r h i = src.levelSize? r i := by
  have hheader := Sources.header?_eq hf hread
  rcases i with _ | i
  · rw [levelSize?_zero, Sources.levelSize?, hheader]
    rfl
  -- What the chain compares with is its first level, and that has the size of the first file.
  rcases hlevels : c.levels with _ | ⟨base, rest⟩
  · have hlen := hc.length
    rw [hlevels] at hlen
    cases hlen
  have hbase : some base.size = src.levelSize? r 0 := by
    have hfirst := congrArg List.head? hc.sizes
    rw [hlevels, List.range_succ_eq_map] at hfirst
    exact Option.some.inj hfirst
  obtain ⟨first, hfirst, hsize⟩ := Option.bind_eq_some_iff.mp hbase.symm
  rw [if_pos rfl, Option.some.injEq] at hsize
  simp only [levelSize?, Sources.levelSize?, hheader, hfirst, hlevels, Option.bind_eq_bind,
    Option.bind_some, List.head?_cons, hsize]
  rfl

/-- One more image. -/
theorem Shows.next {width height : Nat} {image : Image} (hc : c.Shows src r i)
    (hsize : src.levelSize? r i = some (width, height)) (himage : src.picture r i = .ok image)
    (name : String) (file : FileReference) :
    (c.laid name file i (.ofPicture i width height image)).Shows src r (i + 1) where
  sizes := by
    rw [laid_sizes, List.map_append, hc.sizes, List.range_succ, List.map_append, List.map_singleton,
      hsize]
    rfl
  bytes := by
    intro k hk
    rw [laid_entry, LevelData.bytes_putAll]
    rcases Nat.lt_succ_iff_lt_or_eq.mp hk with hk | rfl
    · rw [if_neg (by omega)]
      exact hc.bytes k hk
    · rw [himage]
      simp [Harvest.ofPicture, Except.map]
  fresh := by
    intro k hk
    have hbefore := hc.fresh k (Nat.le_of_succ_le hk)
    rw [← Bool.not_eq_true, LevelData.has_iff] at hbefore ⊢
    have hbehind : ¬(i ≤ k ∧ k < i + 1) := by omega
    rw [laid_entry, LevelData.bytes_putAll]
    exact (if_neg hbehind).symm ▸ hbefore

/-- What the load makes of the file for level `i`, if it holds one image at most. -/
theorem Shows.harvest_eq (hc : c.Shows src r i) (t : Option Transcoder)
    (hf : src.candidate? r none i = some f)
    (hkind : f.identify.1.container ≠ .dds ∧ f.identify.1.container ≠ .ktx2) :
    match src.picture r i with
    | .ok image => ∃ width height, src.levelSize? r i = some (width, height) ∧
        c.harvest t r i f = .ofPicture i width height image
    | .error (.format _) => ∃ promised, c.harvest t r i f = .nothing (.ok (.failed, promised))
    | .error (.defect d) => c.harvest t r i f = .nothing (.error (.defect d)) := by
  unfold harvest Sources.picture
  simp only [hf]
  rcases hread : FileHeader.read f.identify.1 f.identify.2 r.support with (e | d) | h
  · exact ⟨_, rfl⟩
  · rfl
  simp only [hc.levelSize?_eq hf hread]
  rcases hsize : src.levelSize? r i with _ | ⟨width, height⟩
  · exact ⟨_, rfl⟩
  rcases f.identify.2.rewind with e | f'
  · exact ⟨_, rfl⟩
  by_cases hone : f.identify.1.container = .png ∨ f.identify.1.container = .zim
  · simp only [Harvest.ofFile_image hone]
    rcases f'.image f.identify.1.container width height with (e | d) | image
    · exact ⟨_, rfl⟩
    · rfl
    · exact ⟨width, height, rfl, rfl⟩
  cases hk : f.identify.1.container with
  | png => exact absurd (.inl hk) hone
  | zim => exact absurd (.inr hk) hone
  | dds => exact absurd hk hkind.1
  | ktx2 => exact absurd hk hkind.2
  | basis | invalid => exact ⟨_, rfl⟩

/-- A file that yields nothing is given back. -/
theorem alike_laid_nothing (hlen : c.levels.length = i) (name : String) (file : FileReference)
    (e : Decode (LoadResult × PixelFormat)) : (c.laid name file i (.nothing e)).Alike c := by
  rw [laid, gather_nothing]
  exact alike_shut hlen name file

/-- An image lets the walk go on behind it. -/
theorem walk_image {width height : Nat} {image : Image} (hlen : c.levels.length = i)
    (hcut : cut ≠ some i) (ho : src.Opens name file f) (hnew : c.entry.has i = false)
    (hharvest : c.harvest src.transcoder r i f = .ofPicture i width height image) {w : Walk}
    (hformat : 0 < i → w.format = .rgba8) (names : List String) :
    c.walk src r cut i w (name :: names) =
      (c.laid name file i (.ofPicture i width height image)).walk src r cut (i + 1)
        ⟨.rgba8, .more, w.cancelled⟩ names := by
  have hkept : (if i = 0 then .rgba8 else w.format) = PixelFormat.rgba8 := by
    split
    · rfl
    next hi => exact hformat (Nat.pos_of_ne_zero hi)
  have hown : (c.laid name file i (.ofPicture i width height image)).foreign i w.format .rgba8 =
      false := by
    rcases Nat.eq_zero_or_pos i with rfl | hi
    · rfl
    · simp [foreign, hformat hi]
  rw [walk_fresh hlen hcut ho hnew, hharvest, ← hkept]
  exact pursue_more hown names

/-- A load of images has come to its end: the next level has no image. Of the names behind the
images the load has at most looked up the first. -/
structure Exhausts (src : Sources) (r : Request) (n : Nat) (c : Chain) (ending : Decode Walk) :
    Prop where
  shows : c.Shows src r n
  stops : (src.picture r n).isOk = false
  lookups : FileEvent.lookups c.events = r.namesBefore (n + 1)
  crashes : (∃ e, ending = .error e) ↔ ∃ d, src.picture r n = .error (.defect d)

/-- Without a file for the next level a walk ends there. -/
theorem Shows.exhausted_of_absent (hc : c.Shows src r i)
    (hlookups : FileEvent.lookups c.events = r.namesBefore i)
    (hnone : src.candidate? r none i = none) (w : Walk) {names : List String}
    (hnames : (r.names.take maxLevels).drop i = names) :
    Exhausts src r i (c.walk src r none i w names).1 (c.walk src r none i w names).2 := by
  have hpicture : src.picture r i = .refuse .io := by rw [Sources.picture, hnone]
  have hat : (r.names.take maxLevels)[i]? = names.head? := by rw [← hnames, List.head?_drop]
  have hend : ∀ c' w', c'.Alike c → FileEvent.lookups c'.events = FileEvent.lookups c.events ++
      names.head?.toList.filter (fun name => !name.isEmpty) →
      Exhausts src r i c' (.ok w') := by
    intro c' w' halike hevents
    refine ⟨hc.of_alike halike, by rw [hpicture]; rfl, ?_, ?_⟩
    · rw [hevents, hlookups, Request.namesBefore_succ hat]
    · rw [hpicture]
      simp [Decode.refuse]
  rcases names with _ | ⟨name, names⟩
  · exact hend c w ⟨rfl, rfl, rfl, rfl⟩ (List.append_nil _).symm
  rcases walk_step c src r none i w name names with
    ⟨hcut, -⟩ | ⟨-, hname, h⟩ | ⟨-, hname, -, h⟩ | ⟨hcut, hname, file, hlookup, -⟩
  · cases hcut
  · rw [h]
    exact hend c w ⟨rfl, rfl, rfl, rfl⟩ (by simp [hname])
  · rw [h]
    refine hend _ _ (alike_note c _) ?_
    rw [note, FileEvent.lookups_append]
    simp [FileEvent.lookups, hname]
  rcases hopen : src.files.openFile file with e | f
  · rw [walk_shut hc.length hcut hname hlookup hopen]
    exact hend _ _ (alike_shut hc.length name file) (by simp [hname])
  · rw [Sources.candidate?_eq_some.mpr ⟨hcut, name, file, hat, hname, hlookup, hopen⟩] at hnone
    cases hnone

/-- A file without an image for the next level ends the walk, too, by a crash or not. -/
theorem Shows.exhausted_of_error (hc : c.Shows src r i)
    (hat : (r.names.take maxLevels)[i]? = some name)
    (hlookups : FileEvent.lookups c.events = r.namesBefore i)
    (hf : src.candidate? r none i = some f) (ho : src.Opens name file f)
    (hkind : f.identify.1.container ≠ .dds ∧ f.identify.1.container ≠ .ktx2) {e : Fault}
    (hpicture : src.picture r i = .error e) (w : Walk) (names : List String) :
    Exhausts src r i (c.walk src r none i w (name :: names)).1
      (c.walk src r none i w (name :: names)).2 := by
  have hstop : (src.picture r i).isOk = false := by
    rw [hpicture]
    rfl
  have hlooked : r.namesBefore (i + 1) = FileEvent.lookups c.events ++ [name] := by
    rw [Request.namesBefore_succ hat, hlookups]
    simp [ho.named]
  have hharvest := hc.harvest_eq src.transcoder hf hkind
  rw [hpicture] at hharvest
  rw [walk_fresh hc.length (by simp) ho (hc.fresh i le_rfl)]
  rcases e with e | d
  · obtain ⟨promised, hharvest⟩ := hharvest
    rw [hharvest]
    refine ⟨hc.of_alike (alike_laid_nothing hc.length ..), hstop, ?_, ?_⟩
    · rw [hlooked]
      exact lookups_laid ..
    · simp [hpicture, Harvest.nothing, pursue]
  · have hharvest : c.harvest src.transcoder r i f = .nothing (.error (.defect d)) := hharvest
    rw [hharvest, gather_nothing]
    refine ⟨hc.of_alike (alike_opening ..), hstop, ?_, ?_⟩
    · rw [hlooked]
      exact lookups_opening ..
    · simp [hpicture, Harvest.nothing]

/-- A walk over image files lists the images until the first level that has none. -/
theorem walk_images (hkinds : ∀ k < maxLevels, ∀ f ∈ src.candidate? r none k,
      f.identify.1.container ≠ .dds ∧ f.identify.1.container ≠ .ktx2)
    {w : Walk} (hc : c.Shows src r i) (hformat : 0 < i → w.format = .rgba8)
    (hlookups : FileEvent.lookups c.events = r.namesBefore i) {names : List String}
    (hnames : (r.names.take maxLevels).drop i = names) :
    ∃ n, Exhausts src r n (c.walk src r none i w names).1 (c.walk src r none i w names).2 := by
  -- `Shows` ties the number of levels to the place in the names, so the next level is that of the
  -- next name.
  induction names generalizing c i w with
  | nil =>
    refine ⟨i, hc.exhausted_of_absent hlookups ?_ w hnames⟩
    rw [Sources.candidate?, List.getElem?_eq_none (List.drop_eq_nil_iff.mp hnames)]
    rfl
  | cons name names ih =>
    rcases hf : src.candidate? r none i with _ | f
    · exact ⟨i, hc.exhausted_of_absent hlookups hf w hnames⟩
    obtain ⟨hcut, name', file, hat, ho⟩ := Sources.candidate?_eq_some.mp hf
    obtain rfl : name = name' := by
      rw [← List.head?_drop, hnames] at hat
      exact Option.some.inj hat
    have hi : i < maxLevels :=
      (List.getElem?_eq_some_iff.mp hat).1.trans_le (List.length_take_le ..)
    rcases hpicture : src.picture r i with e | image
    · exact ⟨i, hc.exhausted_of_error hat hlookups hf ho (hkinds i hi f hf) hpicture w names⟩
    have hharvest := hc.harvest_eq src.transcoder hf (hkinds i hi f hf)
    rw [hpicture] at hharvest
    obtain ⟨width, height, hsize, hharvest⟩ := hharvest
    rw [walk_image hc.length hcut ho (hc.fresh i le_rfl) hharvest hformat]
    refine ih (hc.next hsize hpicture name file) (fun _ => rfl) ?_ ?_
    · rw [lookups_laid, hlookups, Request.namesBefore_succ hat]
      simp [ho.named]
    · rw [← List.drop_drop, hnames]
      rfl

end Chain

namespace Sources

variable {src : Sources} {r : Request} {n : Nat}

/-- The levels from the first on that have images. -/
theorem isGreatest_pictures (hall : ∀ k < n, (src.picture r k).isOk)
    (hstop : (src.picture r n).isOk = false) :
    IsGreatest {m | m ≤ maxLevels ∧ ∀ k < m, (src.picture r k).isOk} n := by
  refine ⟨⟨?_, hall⟩, ?_⟩
  · by_contra hmany
    have hlast := hall maxLevels (Nat.lt_of_not_le hmany)
    have hnone : src.candidate? r none maxLevels = none := by
      rw [candidate?, List.getElem?_eq_none (List.length_take_le ..)]
      rfl
    rw [picture, hnone] at hlast
    cases hlast
  · rintro m ⟨-, hm⟩
    by_contra hless
    rw [hm n (Nat.lt_of_not_le hless)] at hstop
    cases hstop

end Sources

open Chain

/-- A load into an empty entry, of a request that names no block textures and no universal ones,
lists the longest chain of images from the first file on, each in the size of its level and with
the pixels of its file. It looks up no name behind the first file that has no image for its level,
and crashes exactly if decoding that file does. -/
theorem loads_longest_image_chain {src : Sources} {r : Request} {entry : LevelData} {n : Nat}
    (hempty : entry.isEmpty = true)
    (hkinds : ∀ k < maxLevels, ∀ f ∈ src.candidate? r none k,
      f.identify.1.container ≠ .dds ∧ f.identify.1.container ≠ .ktx2)
    (hn : IsGreatest {m | m ≤ maxLevels ∧ ∀ k < m, (src.picture r k).isOk} n) :
    let run := loadLevels src r none entry
    (run.outcome = none ↔ ∃ d, src.picture r n = .error (.defect d)) ∧
      (∀ o, run.outcome = some o → o.levels.length = n ∧
        ∀ k l, o.levels[k]? = some l → src.levelSize? r k = some (l.width, l.height)) ∧
      (∀ k < n, ∃ image, src.picture r k = .ok image ∧ run.entry.bytes k = image.pixels) ∧
      FileEvent.lookups run.events = r.namesBefore (n + 1) := by
  intro run
  obtain ⟨m, hm⟩ := walk_images hkinds (w := ⟨.undefined, firstResult r, false⟩)
    (shows_start hempty src r) (by simp) rfl rfl
  have hall : ∀ k < m, (src.picture r k).isOk := by
    intro k hk
    obtain ⟨image, himage, -⟩ := hm.shows.image hk
    rw [himage]
    rfl
  obtain rfl : n = m := hn.unique (Sources.isGreatest_pictures hall hm.stops)
  have hbytes : ∀ k < n, ∃ image, src.picture r k = .ok image ∧
      run.entry.bytes k = image.pixels := by
    intro k hk
    rw [loadLevels_bytes]
    exact hm.shows.image hk
  rw [List.drop_zero] at hm
  rcases hw : (start entry).walk src r none 0 ⟨.undefined, firstResult r, false⟩
    (r.names.take maxLevels) with ⟨c, e | w⟩
  · rw [hw] at hm
    have hrun : run = ⟨c.entry, c.events, c.requests, none⟩ := by simp only [run, loadLevels, hw]
    rw [hrun] at hbytes ⊢
    exact ⟨iff_of_true rfl (hm.crashes.mp ⟨e, rfl⟩), by simp, hbytes, hm.lookups⟩
  · rw [hw] at hm
    have hrun : run = ⟨c.commit w.format, c.events, c.requests, some (c.outcome w)⟩ := by
      simp only [run, loadLevels, hw]
    rw [hrun] at hbytes ⊢
    refine ⟨iff_of_false (by simp) fun hcrash => ?_, ?_, hbytes, hm.lookups⟩
    · obtain ⟨e, he⟩ := hm.crashes.mpr hcrash
      cases he
    · rintro _ ⟨rfl⟩
      exact ⟨hm.shows.length, fun k l hl => hm.shows.size hl⟩

/-- Two images, an empty name, and a file behind it. -/
def brokenOff : Request := .unscaled ["a.zim", "b.zim", "", "a.zim"] .none ""

theorem loads_longest_image_chain_brokenOff :
    let run := loadLevels twoImages brokenOff none .empty
    run.outcome ≠ none ∧ (∀ o, run.outcome = some o → o.levels.length = 2) ∧
      FileEvent.lookups run.events = ["a.zim", "b.zim"] := by
  have hempty : LevelData.empty.isEmpty = true := rfl
  have hkinds : ∀ k < maxLevels, ∀ f ∈ twoImages.candidate? brokenOff none k,
      f.identify.1.container ≠ .dds ∧ f.identify.1.container ≠ .ktx2 := by
    decide +kernel
  have hall : ∀ k < 2, (twoImages.picture brokenOff k).isOk := by decide +kernel
  have hstop : twoImages.picture brokenOff 2 = .refuse .io := by decide +kernel
  obtain ⟨hcrash, hlevels, -, hlookups⟩ := loads_longest_image_chain hempty hkinds
    (Sources.isGreatest_pictures hall (by rw [hstop]; rfl))
  refine ⟨fun hnone => ?_, fun o ho => (hlevels o ho).1, hlookups⟩
  obtain ⟨d, hd⟩ := hcrash.mp hnone
  rw [hstop] at hd
  cases hd

/-- The one image before a file that crashes the decoder is not listed. -/
theorem crash_unlists_image :
    (∀ k < maxLevels, ∀ f ∈ imageThenCrash.candidate? imageAndCrash none k,
        f.identify.1.container ≠ .dds ∧ f.identify.1.container ≠ .ktx2) ∧
      IsGreatest {m | m ≤ maxLevels ∧ ∀ k < m, (imageThenCrash.picture imageAndCrash k).isOk} 1 ∧
      (loadLevels imageThenCrash imageAndCrash none .empty).outcome = none := by
  refine ⟨by decide +kernel, Sources.isGreatest_pictures ?_ ?_, by decide +kernel⟩
  · decide +kernel
  · decide +kernel

end TexturePack
