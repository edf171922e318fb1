import Mathlib
import TexturePack.Proofs.Load.Agreement

/-! The levels that a load lists are in the entry. The one exception is a texture scaled to
nothing, whose first level has no bytes that could be there. -/
namespace TexturePack

/-- The ratio of a request leaves something of some file. -/
def Request.Keeps (r : Request) : Prop :=
  ∃ width height, 0 < (r.rescaleTruncating width height).1 ∧
    0 < (r.rescaleTruncating width height).2

namespace LevelData

/-- All levels of a list are in the entry, or the first of them has no pixels and is not. -/
def Backs (d : LevelData) (levels : List LevelRecord) : Prop :=
  (∀ k < levels.length, d.has k = true) ∨
    d.has 0 = false ∧ ∃ base, levels.head? = some base ∧ (base.width = 0 ∨ base.height = 0)

theorem has_putAll {d : LevelData} {i : Nat} {bs : List Bytes} (hd : ∀ k < i, d.has k = true)
    (hbs : ∀ b ∈ bs, b ≠ []) {k : Nat} (hk : k < i + bs.length) :
    (d.putAll i bs).has k = true := by
  rw [has_iff]
  rcases Nat.lt_or_ge k i with h | h
  · rw [bytes_putAll_of_lt d bs h]
    exact has_iff.mp (hd k h)
  · rw [bytes_putAll, if_pos ⟨h, hk⟩, List.getD_eq_getElem _ _ (by omega)]
    exact hbs _ (List.getElem_mem _)

theorem has_clear {d : LevelData} {i k : Nat} (hne : k ≠ i) : (d.clear i).has k = d.has k := by
  rw [Bool.eq_iff_iff, has_iff, has_iff, bytes_clear, if_neg hne]

end LevelData

namespace Harvest

theorem Sound.size_pos {g : Harvest} {width height : Nat} (h : g.Sound width height)
    (hw : 0 < width) (hh : 0 < height) {l : Layer} (hl : l ∈ g.layers) :
    0 < l.width ∧ 0 < l.height := by
  have hmem : l.size ∈ Chain.pyramid width height g.layers.length :=
    h.sizes ▸ List.mem_map_of_mem hl
  exact Chain.pyramid_pos hw hh hmem

/-- A level with pixels has bytes. -/
theorem Sound.bytes_ne_nil {g : Harvest} {width height : Nat} (h : g.Sound width height)
    (hw : 0 < width) (hh : 0 < height) {result : LoadResult} {format : PixelFormat}
    (he : g.ending = .ok (result, format)) {l : Layer} (hl : l ∈ g.layers) : l.bytes ≠ [] := by
  obtain ⟨hformat, hfilled⟩ := h.filled result format he l hl
  exact (hfilled.ne_nil_iff hformat).mpr (h.size_pos hw hh hl)

/-- A level without pixels has none. -/
theorem Sound.bytes_eq_nil {g : Harvest} {width height : Nat} (h : g.Sound width height)
    {result : LoadResult} {format : PixelFormat} (he : g.ending = .ok (result, format)) {l : Layer}
    (hl : l ∈ g.layers) (hzero : l.width = 0 ∨ l.height = 0) : l.bytes = [] := by
  obtain ⟨hformat, hfilled⟩ := h.filled result format he l hl
  by_contra hbytes
  have hpos := (hfilled.ne_nil_iff hformat).mp hbytes
  omega

theorem Sound.head?_size {g : Harvest} {width height : Nat} (h : g.Sound width height) {l : Layer}
    (hl : g.layers.head? = some l) : l.size = (width, height) := by
  have hsizes := h.sizes
  rcases hg : g.layers with _ | ⟨l', ls⟩
  · simp [hg] at hl
  · simp only [hg, List.head?_cons, Option.some.injEq] at hl
    simp only [hg, List.map_cons, List.length_cons, Chain.pyramid, List.cons.injEq] at hsizes
    rw [← hl, hsizes.1]

end Harvest

namespace Chain

variable {src : Sources} {r : Request} {cut : Option Nat} {i : Nat}

/-- The levels of a file have bytes, unless the first level of all is scaled to nothing. -/
theorem harvest_filled {c : Chain} (hkeeps : 0 < i → r.Keeps) {t : Option Transcoder}
    {f : OpenFile} {result : LoadResult} {format : PixelFormat}
    (he : (c.harvest t r i f).ending = .ok (result, format)) :
    (∀ l ∈ (c.harvest t r i f).layers, l.bytes ≠ []) ∨
      i = 0 ∧ result ≠ .more ∧ ∃ l, (c.harvest t r i f).layers.head? = some l ∧ l.bytes = [] ∧
        (l.width = 0 ∨ l.height = 0) := by
  rcases c.harvest_sound t r i f with ⟨hnil, -⟩ | ⟨h, size, hread, hsize, hs⟩
  · exact .inl (by simp [hnil])
  by_cases hpos : 0 < (topSize f.identify.1.container h size).1 ∧
      0 < (topSize f.identify.1.container h size).2
  · exact .inl fun l hl => hs.bytes_ne_nil hpos.1 hpos.2 he hl
  rcases hlayers : (c.harvest t r i f).layers with _ | ⟨l, ls⟩
  · exact .inl (by simp)
  have hzero : l.width = 0 ∨ l.height = 0 := by
    have hl := hs.head?_size (l := l) (by rw [hlayers]; rfl)
    have hw : l.width = _ := congrArg Prod.fst hl
    have hh : l.height = _ := congrArg Prod.snd hl
    omega
  refine .inr ⟨?_, ?_, l, rfl, hs.bytes_eq_nil he (by simp [hlayers]) hzero, hzero⟩
  · by_contra hi
    obtain ⟨hw, hh⟩ := FileHeader.read_eq_ok hread
    obtain ⟨width, height, hrw, hrh⟩ := hkeeps (Nat.pos_of_ne_zero hi)
    have hscaled := Request.rescale?_pos (levelSize?_eq_some (Nat.pos_of_ne_zero hi) hsize).1 hw hh
      hrw hrh
    apply hpos
    unfold topSize
    split
    · exact ⟨hw, hh⟩
    · exact hscaled
  · rintro rfl
    exact hpos (hs.more format he).2

theorem harvest_keeps {c : Chain} (hkeeps : 0 < i → r.Keeps) {t : Option Transcoder}
    {f : OpenFile} {format : PixelFormat} (he : (c.harvest t r i f).ending = .ok (.more, format)) :
    r.Keeps := by
  rcases Nat.eq_zero_or_pos i with rfl | hi
  case inr => exact hkeeps hi
  rcases c.harvest_sound t r 0 f with ⟨-, _, h | ⟨_, h⟩⟩ | ⟨h, size, -, hsize, hs⟩
  · rw [he] at h
    cases h
  · rw [he] at h
    cases h
  · have hkind : f.identify.1.container ≠ .ktx2 := fun hk => harvest_ne_more hk c t r 0 format he
    have hpos := (hs.more format he).2
    rw [levelSize?_zero, Option.some.injEq] at hsize
    rw [topSize, if_neg hkind, ← hsize] at hpos
    exact ⟨h.width, h.height, hpos⟩

theorem laid_backs {c : Chain} (hlen : c.levels.length = i)
    (hhas : ∀ k < i, c.entry.has k = true) (name : String) (file : FileReference) {g : Harvest}
    (hg : (∀ l ∈ g.layers, l.bytes ≠ []) ∨
      i = 0 ∧ ∃ l, g.layers.head? = some l ∧ l.bytes = [] ∧ (l.width = 0 ∨ l.height = 0)) :
    (c.laid name file i g).entry.Backs (c.laid name file i g).levels := by
  rcases hg with hg | ⟨rfl, l, hl, hnone, hzero⟩
  · left
    intro k hk
    rw [laid_length, hlen] at hk
    rw [laid_entry]
    refine LevelData.has_putAll hhas ?_ (by rwa [List.length_map])
    intro b hb
    obtain ⟨l, hl, rfl⟩ := List.mem_map.mp hb
    exact hg l hl
  · right
    obtain ⟨ls, hls⟩ := List.head?_eq_some_iff.mp hl
    refine ⟨?_, ⟨l.width, l.height, some file⟩, ?_, hzero⟩
    · rw [← Bool.not_eq_true, LevelData.has_iff, not_not, laid_entry, LevelData.bytes_putAll, hls]
      simpa using hnone
    · rw [laid_levels, List.length_eq_zero_iff.mp hlen, hls]
      rfl

theorem discardFrom_backs {c : Chain} (hhas : ∀ k < i, c.entry.has k = true) :
    (c.discardFrom i).entry.Backs (c.discardFrom i).levels := by
  left
  intro k hk
  have hki : k < i := by
    simp only [discardFrom, List.length_take] at hk
    omega
  rw [discardFrom, LevelData.has_clear hki.ne]
  exact hhas k hki

theorem taken_backs {c : Chain} (hlen : c.levels.length = i)
    (hhas : ∀ k < i, c.entry.has k = true) (r : Request) (name : String) (file : FileReference)
    (h : FileHeader) :
    let c' := ((c.opening name file).taken r h i).keepFile i file
    c'.entry.Backs c'.levels := by
  left
  intro k hk
  rw [keepFile_length, taken, List.length_append, List.length_map, length_pyramid] at hk
  rw [keepFile_entry]
  rcases Nat.lt_or_ge k i with hki | hki
  · exact hhas k hki
  · have hrun : k - i < c.entry.run i (maxLevels - i) := by
      have : (c.opening name file).levels.length = i := hlen
      rw [this] at hk
      exact Nat.sub_lt_left_of_lt_add hki hk
    have hpresent := LevelData.has_of_lt_run hrun
    rwa [Nat.add_sub_cancel' hki] at hpresent

/-- All levels that a walk lists are in the entry, if those before its first level are. -/
theorem walk_backs {c c' : Chain} (hlen : c.levels.length = i)
    (hhas : ∀ k < i, c.entry.has k = true) (hkeeps : 0 < i → r.Keeps) {w w' : Walk}
    {names : List String} (hw : c.walk src r cut i w names = (c', .ok w')) :
    c'.entry.Backs c'.levels := by
  induction names generalizing c i w with
  | nil =>
    cases hw
    exact .inl fun k hk => hhas k (hlen ▸ hk)
  | cons name names ih =>
    rcases walk_cons hlen src r cut w name names with
      ⟨c₁, result, hwalk, halike⟩ | ⟨file, f, ho, hcut, hnew | ⟨hi, h, hread⟩⟩
    · rw [hwalk] at hw
      cases hw
      rw [halike.entry, halike.levels]
      exact .inl fun k hk => hhas k (hlen ▸ hk)
    · obtain ⟨result, found, he, hends⟩ := walk_fresh_ok hlen hcut ho hnew hw
      have hfilled := harvest_filled hkeeps he
      rcases hends with rfl | rfl | ⟨rfl, u, hw⟩
      · exact laid_backs hlen hhas name file (hfilled.imp_right fun ⟨h, _, hzero⟩ => ⟨h, hzero⟩)
      · apply discardFrom_backs
        intro k hk
        rw [laid_entry, LevelData.has_iff, LevelData.bytes_putAll_of_lt _ _ hk,
          ← LevelData.has_iff]
        exact hhas k hk
      · have hnext : (c.laid name file i (c.harvest src.transcoder r i f)).levels.length =
            i + 1 := by
          rw [laid_length, hlen, harvest_more he]
        have hbytes : ∀ l ∈ (c.harvest src.transcoder r i f).layers, l.bytes ≠ [] := by
          rcases hfilled with h | ⟨-, h, -⟩
          · exact h
          · exact absurd rfl h
        apply ih hnext _ (fun _ => harvest_keeps hkeeps he) hw
        intro k hk
        rw [laid_entry]
        apply LevelData.has_putAll hhas _ (by rwa [List.length_map, harvest_more he])
        intro b hb
        obtain ⟨l, hl, rfl⟩ := List.mem_map.mp hb
        exact hbytes l hl
    · rw [walk_cached hlen hcut ho hi hread] at hw
      simp only [shelve] at hw
      have hentry : (((c.opening name file).taken r h i).keepFile i file).entry = c.entry :=
        keepFile_entry ..
      rcases hf : (((c.opening name file).taken r h i).keepFile i file).foreign i w.format
        c.entry.format with _ | _
      · rw [pursue_finished hf] at hw
        cases hw
        exact taken_backs hlen hhas r name file h
      · rw [pursue_foreign (by simp) hf] at hw
        cases hw
        exact discardFrom_backs (hentry ▸ hhas)

end Chain

/-- What a load lists is in the entry that it leaves behind. -/
theorem loadLevels_backs {src : Sources} {r : Request} {cut : Option Nat} {entry : LevelData}
    {o : LoadOutcome} (h : (loadLevels src r cut entry).outcome = some o) :
    (loadLevels src r cut entry).entry.Backs o.levels := by
  obtain ⟨c, w, hw, rfl, he⟩ := Chain.walk_of_loadLevels h
  have hbacks : c.entry.Backs (c.outcome w).levels :=
    Chain.walk_backs (i := 0) rfl (by simp) (by simp) hw
  rw [he]
  simpa only [LevelData.Backs, Chain.commit_has] using hbacks

theorem Chain.commit_eq_entry {c : Chain} (h : c.levels = [] ∨ c.reused = true)
    (format : PixelFormat) : c.commit format = c.entry := by
  unfold commit
  rw [if_pos]
  rcases h with h | h
  · simp [h]
  · simp [h]

/-- A load does nothing to an entry that has the first level. -/
theorem loadLevels_of_has (src : Sources) (r : Request) (cut : Option Nat) {entry : LevelData}
    (h : entry.has 0 = true) : (loadLevels src r cut entry).entry = entry := by
  have hwalk : ∃ c result, (Chain.start entry).walk src r cut 0
      ⟨.undefined, Chain.firstResult r, false⟩ (r.names.take maxLevels) = (c, result) ∧
      c.entry = entry ∧ (c.levels = [] ∨ c.reused = true) := by
    rcases r.names.take maxLevels with _ | ⟨name, names⟩
    · exact ⟨_, _, rfl, rfl, .inl rfl⟩
    rcases Chain.walk_cons (c := .start entry) (i := 0) rfl src r cut
      ⟨.undefined, Chain.firstResult r, false⟩ name names with
      ⟨c, result, hwalk, halike⟩ | ⟨file, f, ho, hcut, hnew | ⟨-, header, hread⟩⟩
    · exact ⟨c, result, hwalk, halike.entry, .inl halike.levels⟩
    · rw [Chain.start, h] at hnew
      cases hnew
    · rw [Chain.walk_cached (c := .start entry) (i := 0) rfl hcut ho h hread, Chain.shelve,
        Chain.pursue_finished rfl]
      exact ⟨_, _, rfl, Chain.keepFile_entry .., .inr (Chain.keepFile_reused ..)⟩
  obtain ⟨c, result, hwalk, hentry, hkept⟩ := hwalk
  unfold loadLevels
  simp only [hwalk]
  rcases result with _ | w
  · exact hentry
  · exact (Chain.commit_eq_entry hkept w.format).trans hentry

end TexturePack
