import Mathlib
import TexturePack.Files.FileSystem
import TexturePack.Proofs.Load.Reload

/-! What a load that was cut short leaves to the next one. The next load takes the levels that
it finds for the whole chain, and ends where the first one was stopped. -/
namespace TexturePack

/-- How many levels a load lists, if it does not crash. -/
def LoadRun.count (run : LoadRun) : Option Nat := run.outcome.map fun o => o.levels.length

namespace Chain

variable {src : Sources} {r : Request} {cut : Option Nat} {i : Nat} {name : String}
  {file : FileReference}

/-- A walk never loses the levels that it began with. -/
theorem length_le_of_walk {c c' : Chain} (hlen : c.levels.length = i) {w w' : Walk}
    {names : List String} (hw : c.walk src r cut i w names = (c', .ok w')) :
    i ≤ c'.levels.length := by
  have hkept := walk_prefix hlen hw
  rw [← hlen]
  exact hkept.length_le

theorem cancelled_of_walk {c c' : Chain} {w w' : Walk} {names : List String}
    (hw : c.walk src r none i w names = (c', .ok w')) : w'.cancelled = w.cancelled := by
  induction names generalizing c i w with
  | nil =>
    cases hw
    rfl
  | cons name names ih =>
    rcases walk_step c src r none i w name names with
      ⟨hcut, -⟩ | ⟨-, -, h⟩ | ⟨-, -, -, h⟩ | ⟨-, -, file, -, h⟩
    · cases hcut
    all_goals rw [h] at hw
    · cases hw
      rfl
    · cases hw
      rfl
    rcases hl : (c.note [.lookedUp name true]).loadCandidate src r i file with
      ⟨c₁, e | ⟨result, found⟩⟩
    · rw [hl] at hw
      cases hw
    rw [hl] at hw
    rcases pursue_cases hw with ⟨-, -, rfl⟩ | ⟨-, -, -, rfl⟩ | ⟨-, ⟨-, -, rfl⟩ | ⟨-, hnext⟩⟩
    · rfl
    · rfl
    · rfl
    · have h := ih hnext
      exact h

/-- A walk that is cut short has come as far as the whole walk would, or it is cancelled with one
level for each candidate before the cut. -/
theorem walk_cut {c c' : Chain} (hlen : c.levels.length = i) {w w' : Walk} {names : List String}
    (hw : c.walk src r cut i w names = (c', .ok w')) :
    c.walk src r none i w names = (c', .ok w') ∨
      cut = some c'.levels.length ∧ w'.cancelled = true ∧
        ∀ d u, c.walk src r none i w names = (d, .ok u) → c'.levels.length ≤ d.levels.length := by
  induction names generalizing c i w with
  | nil => exact .inl hw
  | cons name names ih =>
    rcases walk_step c src r cut i w name names with
      ⟨hcut, h⟩ | ⟨hcut, hname, h⟩ | ⟨hcut, hname, hlookup, h⟩ | ⟨hcut, hname, file, hlookup, h⟩
    all_goals rw [h] at hw
    · cases hw
      exact .inr ⟨hlen ▸ hcut, rfl, fun d u hd => hlen ▸ length_le_of_walk hlen hd⟩
    · left
      rw [walk, if_neg (by simp), if_pos hname, hw]
    · left
      simp only [walk, hname, hlookup]
      exact hw
    rw [walk_lookup (by simp) hname hlookup]
    rcases hl : (c.note [.lookedUp name true]).loadCandidate src r i file with
      ⟨c₁, e | ⟨result, found⟩⟩
    · rw [hl] at hw
      cases hw
    rw [hl] at hw
    rcases pursue_cases hw with
      ⟨rfl, rfl, rfl⟩ | ⟨hresult, hf, rfl, rfl⟩ | ⟨hf, ⟨rfl, rfl, rfl⟩ | ⟨rfl, hnext⟩⟩
    · exact .inl rfl
    · exact .inl (pursue_foreign hresult hf names)
    · exact .inl (pursue_finished hf names)
    · simp only [pursue_more hf]
      exact ih (length_of_more hlen hl) hnext

theorem laid_entry_of_unlisted {c : Chain} {g : Harvest}
    (hnone : (c.laid name file i g).levels = []) : (c.laid name file i g).entry = c.entry := by
  rw [laid_entry, (laid_levels_eq_nil_iff.mp hnone).2]
  rfl

/-- A load that lists nothing has not touched an empty entry. -/
theorem entry_of_unlisted {entry : LevelData} (hempty : entry.isEmpty = true) {c : Chain}
    {w w' : Walk} {names : List String}
    (hw : (start entry).walk src r cut 0 w names = (c, .ok w')) (hnone : c.levels = []) :
    c.entry = entry := by
  rcases names with _ | ⟨name, names⟩
  · cases hw
    rfl
  rcases walk_cons (c := start entry) (i := 0) rfl src r cut w name names with
    ⟨c₁, result, hwalk, halike⟩ | ⟨file, f, ho, hcut, hnew | ⟨hhas, -⟩⟩
  · rw [hwalk] at hw
    cases hw
    exact halike.entry
  · rw [walk_fresh (c := start entry) (i := 0) rfl hcut ho hnew] at hw
    rcases he : ((start entry).harvest src.transcoder r 0 f).ending with e | ⟨result, found⟩
    · simp [he] at hw
    simp only [he] at hw
    rcases pursue_cases hw with
      ⟨-, rfl, -⟩ | ⟨-, hforeign, -⟩ | ⟨-, ⟨-, rfl, -⟩ | ⟨rfl, hnext⟩⟩
    · exact laid_entry_of_unlisted hnone
    · cases hforeign
    · exact laid_entry_of_unlisted hnone
    · have hle := length_le_of_walk (by rw [laid_length, harvest_more he]; rfl) hnext
      rw [hnone] at hle
      cases hle
  · rw [(imaged_start hempty src r (0, 0)).has_eq_false le_rfl] at hhas
    cases hhas

end Chain

open Chain

/-- A load that is cut short is cancelled with a level for each candidate before the cut, or it
is the whole load. -/
theorem outcome_cut {src : Sources} {r : Request} {cut : Option Nat} {entry : LevelData}
    {o : LoadOutcome} (hload : (loadLevels src r cut entry).outcome = some o) :
    (if o.cancelled then cut = some o.levels.length
        else (loadLevels src r none entry).outcome = some o) ∧
      ∀ n, (loadLevels src r none entry).count = some n → o.levels.length ≤ n := by
  obtain ⟨c, w, hw, rfl, -⟩ := walk_of_loadLevels hload
  have hcut := walk_cut (c := start entry) (i := 0) rfl hw
  constructor
  · change if w.cancelled then cut = some c.levels.length else _ = some (c.outcome w)
    rcases hcut with hsame | ⟨hat, hcancelled, -⟩
    · rw [cancelled_of_walk hsame]
      exact (loadLevels_of_walk hsame).1
    · rw [if_pos hcancelled]
      exact hat
  · intro n hn
    obtain ⟨o', ho', rfl⟩ := Option.map_eq_some_iff.mp hn
    obtain ⟨d, u, hd, rfl, -⟩ := walk_of_loadLevels ho'
    rcases hcut with hsame | ⟨-, -, hmax⟩
    · rw [hsame] at hd
      cases hd
      exact le_rfl
    · exact hmax d u hd

/-- A load that lists nothing leaves an empty entry as it was. -/
theorem entry_of_nothing {src : Sources} {r : Request} {cut : Option Nat} {entry : LevelData}
    {o : LoadOutcome} (hempty : entry.isEmpty = true)
    (hload : (loadLevels src r cut entry).outcome = some o) (hnone : o.levels = []) :
    (loadLevels src r cut entry).entry = entry := by
  obtain ⟨c, w, hw, rfl, hentry⟩ := walk_of_loadLevels hload
  rw [hentry, commit_eq_entry (.inl hnone), entry_of_unlisted hempty hw hnone]

/-- A load that takes over what an earlier one has listed lists as many levels. -/
theorem count_reload {src : Sources} {r : Request} {cut : Option Nat} {entry : LevelData}
    {o : LoadOutcome} (hempty : entry.isEmpty = true)
    (hload : (loadLevels src r cut entry).outcome = some o) (hlevels : o.levels ≠ []) :
    (loadLevels src r none (loadLevels src r cut entry).entry).count = some o.levels.length := by
  obtain ⟨c, w, hw, rfl, hfilled⟩ := walk_of_loadLevels hload
  have hc : c.levels ≠ [] := hlevels
  obtain ⟨name, names, file, f, h, hnames, ho, hread, hdecoded⟩ :=
    walk_first hempty (List.length_take_le _ _) hw hc
  have hbacks := walk_backs (c := start entry) (i := 0) rfl (by simp) (by simp) hw
  rw [hnames] at hw
  rcases hhas : c.entry.has 0 with _ | _
  · obtain ⟨-, c', hw', hsame, -⟩ := walk_again hempty ho hw hc hhas
    rw [← hfilled, ← hnames] at hw'
    rw [LoadRun.count, (loadLevels_of_walk hw').1]
    simp only [Option.map_some, outcome, hsame]
  · have hall : ∀ k < c.levels.length, c.entry.has k = true := by
      rcases hbacks with hall | ⟨hnone, -⟩
      · exact hall
      · rw [hhas] at hnone
        cases hnone
    have hfirst : (loadLevels src r cut entry).entry.has 0 = true := by
      rw [hfilled, commit_has, hhas]
    obtain ⟨c', hw', -, hsizes⟩ :=
      walk_reload hfirst ho hread ⟨.undefined, firstResult r, false⟩ names
    rw [hfilled, hdecoded.run_commit hall] at hsizes
    rw [← hnames] at hw'
    have hlength : c'.levels.length = c.levels.length := by
      simpa using congrArg List.length hsizes
    rw [LoadRun.count, (loadLevels_of_walk hw').1]
    simp only [Option.map_some, outcome, hlength]

/-- A load that is cut short is cancelled with a level for each candidate before the cut, or it
is the whole load. The next load with the same request starts over if nothing was listed, and
otherwise ends with as many levels as the first. So the chain comes out shorter than in a load
from an empty entry exactly if the first load was stopped between its first and its last
level. -/
theorem interrupted_chain {src : Sources} {r : Request} {cut : Option Nat} {entry : LevelData}
    {o : LoadOutcome} (hempty : entry.isEmpty = true)
    (hload : (loadLevels src r cut entry).outcome = some o) :
    let whole := loadLevels src r none entry
    let next := loadLevels src r none (loadLevels src r cut entry).entry
    (if o.cancelled then cut = some o.levels.length else whole.outcome = some o) ∧
      next.count = (if o.levels = [] then whole.count else some o.levels.length) ∧
      ∀ n, whole.count = some n → o.levels.length ≤ n ∧
        (next.count = some n ↔ o.levels = [] ∨ o.levels.length = n) := by
  intro whole next
  obtain ⟨hcut, hle⟩ := outcome_cut hload
  have hnext : next.count = if o.levels = [] then whole.count else some o.levels.length := by
    split
    next hnone => simp only [next, whole, entry_of_nothing hempty hload hnone]
    next hlevels => exact count_reload hempty hload hlevels
  refine ⟨hcut, hnext, ?_⟩
  intro n hn
  refine ⟨hle n hn, ?_⟩
  rw [hnext]
  split
  next hnone => exact iff_of_true hn (.inl hnone)
  next hlevels =>
    rw [Option.some.injEq]
    simp [hlevels]

/-- A square image of transparent pixels. -/
def square (side : Nat) : Bytes :=
  let dimension : Bytes := [side.toUInt8, 0, 0, 0]
  ZimHeader.mark ++ dimension ++ dimension ++ Bytes.zeros (4 + 4 * side * side)

/-- An image and another one of half its size. -/
def twoImages : Sources where
  files := (Files.Memory.mk
    [("a.zim", some (.ofBytes (square 2))), ("b.zim", some (.ofBytes (square 1)))]).fileSystem
  transcoder := none

def twoLevels : Request := .unscaled ["a.zim", "b.zim"] .none ""

/-- A load is cut before the second image, and the next one stops at the level that is there. -/
theorem interrupted_chain_twoImages :
    let whole := loadLevels twoImages twoLevels none .empty
    let next := loadLevels twoImages twoLevels none
      (loadLevels twoImages twoLevels (some 1) .empty).entry
    whole.count = some 2 ∧ next.count = some 1 ∧ next.count ≠ whole.count := by
  intro whole next
  have hempty : LevelData.empty.isEmpty = true := rfl
  have hload : (loadLevels twoImages twoLevels (some 1) .empty).outcome =
      some ⟨[⟨2, 2, some ⟨"a.zim", 0⟩⟩], .rgba8, .transparent, .more, true⟩ := by
    decide +kernel
  have hwhole : whole.count = some 2 := by decide +kernel
  obtain ⟨-, hnext, hsame⟩ := interrupted_chain hempty hload
  refine ⟨hwhole, hnext, fun h => ?_⟩
  exact absurd ((hsame 2 hwhole).2.mp (h.trans hwhole)) (by decide)

/-- The second of two levels is lost to a load that was cancelled before it. -/
theorem next_load_is_shorter :
    (loadLevels twoImages twoLevels none .empty).count = some 2 ∧
      (loadLevels twoImages twoLevels none
        (loadLevels twoImages twoLevels (some 1) .empty).entry).count = some 1 := by
  decide +kernel

end TexturePack
