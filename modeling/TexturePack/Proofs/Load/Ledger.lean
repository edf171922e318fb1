import Mathlib
import TexturePack.Proofs.Load.Agreement

/-! The account of file references. Every reference that a look-up hands out is given back by a
release or in the hands of somebody, and a load passes all of its own on in the levels that it
lists, unless it crashes. -/
namespace TexturePack

/-- The references that levels keep. -/
def filesOf (levels : List LevelRecord) : Multiset FileReference :=
  levels.filterMap LevelRecord.file

@[simp] theorem filesOf_nil : filesOf [] = 0 := rfl

@[simp] theorem filesOf_append (levels levels' : List LevelRecord) :
    filesOf (levels ++ levels') = filesOf levels + filesOf levels' := by
  rw [filesOf, List.filterMap_append, ← Multiset.coe_add]
  rfl

theorem filesOf_take_add_drop (levels : List LevelRecord) (n : Nat) :
    filesOf (levels.take n) + filesOf (levels.drop n) = filesOf levels := by
  rw [← filesOf_append, List.take_append_drop]

theorem filesOf_of_none {levels : List LevelRecord} (h : ∀ l ∈ levels, l.file = none) :
    filesOf levels = 0 := by
  rw [filesOf, List.filterMap_eq_nil_iff.mpr h]
  rfl

namespace FileEvent

/-- The references that look-ups have handed out. -/
def taken (fs : FileSystem) (events : List FileEvent) : List FileReference :=
  events.filterMap fun
    | lookedUp name true => fs.lookup name
    | _ => none

/-- References are handed out to be given back or held by somebody. -/
structure Ledger (fs : FileSystem) (events : List FileEvent) (held : Multiset FileReference) :
    Prop where
  balance : (taken fs events : Multiset FileReference) = releases events + held
  counted : handedOut events = (taken fs events).length

variable {fs : FileSystem} {events events' : List FileEvent} {held held' : Multiset FileReference}

theorem Ledger.append (h : Ledger fs events held) (h' : Ledger fs events' held') :
    Ledger fs (events ++ events') (held + held') where
  balance := by
    rw [taken, List.filterMap_append, ← Multiset.coe_add, releases, List.filterMap_append,
      ← Multiset.coe_add]
    change (taken fs events : Multiset FileReference) + taken fs events' =
      (releases events + releases events') + (held + held')
    rw [h.balance, h'.balance]
    exact add_add_add_comm _ _ _ _
  counted := by
    rw [handedOut, List.countP_append, taken, List.filterMap_append, List.length_append]
    exact congrArg₂ (· + ·) h.counted h'.counted

theorem ledger_nil (fs : FileSystem) : Ledger fs [] 0 := ⟨rfl, rfl⟩

theorem ledger_found {name : String} {file : FileReference} (h : fs.lookup name = some file) :
    Ledger fs [lookedUp name true] {file} := by
  constructor <;> simp [taken, releases, handedOut, h]

theorem ledger_missing (fs : FileSystem) (name : String) : Ledger fs [lookedUp name false] 0 :=
  ⟨rfl, rfl⟩

theorem ledger_opened (fs : FileSystem) (name : String) : Ledger fs [opened name] 0 := ⟨rfl, rfl⟩

/-- References that are held can be given back. -/
theorem Ledger.release (files : List FileReference) (h : Ledger fs events (held + files)) :
    Ledger fs (events ++ files.map released) held where
  balance := by
    have htaken : taken fs (files.map released) = [] := by simp [taken]
    have hreleases : releases (files.map released) = files := by
      simp only [releases, List.filterMap_map]
      exact List.filterMap_some
    rw [taken, List.filterMap_append, releases, List.filterMap_append]
    change ((taken fs events ++ taken fs (files.map released) : List FileReference) :
      Multiset FileReference) = (releases events ++ releases (files.map released) : List _) + held
    rw [htaken, hreleases, List.append_nil, h.balance, ← Multiset.coe_add]
    rw [add_assoc, add_comm held]
  counted := by
    have htaken : taken fs (files.map released) = [] := by simp [taken]
    have hcount : handedOut (files.map released) = 0 := by simp [handedOut]
    rw [handedOut, List.countP_append, taken, List.filterMap_append]
    change handedOut events + handedOut (files.map released) =
      (taken fs events ++ taken fs (files.map released)).length
    rw [hcount, htaken, List.append_nil, h.counted, Nat.add_zero]

theorem Ledger.releasing {levels : List LevelRecord}
    (h : Ledger fs events (held + filesOf levels)) :
    Ledger fs (events ++ FileEvent.releasing levels) held :=
  h.release (levels.filterMap LevelRecord.file)

/-- References that are out are those that somebody holds. -/
theorem Ledger.outstanding_eq (h : Ledger fs events held) :
    outstanding events = Multiset.card held := by
  have hcard := congrArg Multiset.card h.balance
  rw [Multiset.card_add, Multiset.coe_card, Multiset.coe_card] at hcard
  rw [outstanding, h.counted, hcard]
  omega

/-- No reference is given back more often than it has been handed out. -/
theorem Ledger.releases_le (h : Ledger fs events held) :
    (releases events : Multiset FileReference) ≤ taken fs events := by
  rw [h.balance]
  exact Multiset.le_add_right _ _

end FileEvent

open FileEvent

namespace Chain

variable {src : Sources} {r : Request} {cut : Option Nat} {i : Nat} {name : String}
  {file : FileReference}

/-- The first level of a file takes the reference over; without one the file is released. -/
theorem ledger_keepFile {c : Chain} {levels news : List LevelRecord} (hlen : levels.length = i)
    (hlevels : c.levels = levels ++ news) (hnone : ∀ l ∈ news, l.file = none)
    {fs : FileSystem} (hc : Ledger fs c.events (filesOf levels + {file})) :
    Ledger fs (c.keepFile i file).events (filesOf (c.keepFile i file).levels) := by
  unfold keepFile
  rcases news with _ | ⟨l, ls⟩
  · have hend : c.levels[i]? = none := by
      rw [hlevels, List.append_nil, List.getElem?_eq_none hlen.le]
    rw [hend]
    change Ledger fs (c.events ++ [released file]) (filesOf c.levels)
    rw [hlevels, List.append_nil]
    exact hc.release [file]
  · have hfirst : c.levels[i]? = some l := by
      rw [hlevels, List.getElem?_append_right hlen.le, hlen, Nat.sub_self]
      rfl
    rw [hfirst]
    change Ledger fs c.events (filesOf (c.levels.set i { l with file := some file }))
    have hkept : filesOf ({ l with file := some file } :: ls) = {file} := by
      have hrest := filesOf_of_none fun l' hl' => hnone l' (List.mem_cons_of_mem l hl')
      rw [← List.singleton_append, filesOf_append, hrest, add_zero]
      rfl
    rw [hlevels, List.set_append_right _ _ hlen.le, hlen, Nat.sub_self, List.set_cons_zero,
      filesOf_append, hkept]
    exact hc

theorem ledger_discardFrom {c : Chain} {fs : FileSystem}
    (hc : Ledger fs c.events (filesOf c.levels)) (i : Nat) :
    Ledger fs (c.discardFrom i).events (filesOf (c.discardFrom i).levels) := by
  rw [← filesOf_take_add_drop c.levels i] at hc
  exact hc.releasing

/-- A candidate has its file in hand until it is shelved. Its levels have no files of their
own yet. -/
theorem ledger_candidate {c : Chain} (hlen : c.levels.length = i) (r : Request)
    (hlookup : src.files.lookup name = some file)
    (hc : Ledger src.files c.events (filesOf c.levels)) :
    ∃ c₁ ending news, (c.note [.lookedUp name true]).loadCandidate src r i file =
        shelve i file (c₁, ending) ∧
      c₁.levels = c.levels ++ news ∧ (∀ l ∈ news, l.file = none) ∧
      Ledger src.files c₁.events (filesOf c.levels + {file}) := by
  have hopening : Ledger src.files (c.opening name file).events (filesOf c.levels + {file}) := by
    have h := (hc.append (ledger_found hlookup)).append (ledger_opened src.files file.name)
    rwa [add_zero] at h
  obtain ⟨c₁, ending, hload, ⟨rfl, -⟩ | ⟨header, rfl, -⟩ | ⟨f, rfl, -⟩⟩ :=
    loadCandidate_cases hlen src r name file
  · exact ⟨_, ending, [], hload, (List.append_nil _).symm, by simp, hopening⟩
  · refine ⟨_, ending, _, hload, rfl, ?_, hopening⟩
    intro l hl
    obtain ⟨s, -, rfl⟩ := List.mem_map.mp hl
    rfl
  · refine ⟨_, ending, _, hload, rfl, ?_, hopening⟩
    intro l hl
    obtain ⟨layer, -, rfl⟩ := List.mem_map.mp hl
    rfl

/-- A walk that ends has passed all references on. One that crashes leaves the file in hand to
nobody, beside those of the levels that it had listed. -/
theorem ledger_walk {c : Chain} (hlen : c.levels.length = i)
    (hc : Ledger src.files c.events (filesOf c.levels)) (r : Request) (cut : Option Nat)
    (w : Walk) (names : List String) :
    (∃ c' w', c.walk src r cut i w names = (c', .ok w') ∧
        Ledger src.files c'.events (filesOf c'.levels)) ∨
      ∃ c' e file, c.walk src r cut i w names = (c', .error e) ∧
        Ledger src.files c'.events (filesOf c'.levels + {file}) := by
  induction names generalizing c i w with
  | nil => exact .inl ⟨c, w, rfl, hc⟩
  | cons name names ih =>
    rcases walk_step c src r cut i w name names with
      ⟨-, h⟩ | ⟨-, -, h⟩ | ⟨-, -, -, h⟩ | ⟨-, -, file, hlookup, h⟩
    all_goals rw [h]
    · exact .inl ⟨c, _, rfl, hc⟩
    · exact .inl ⟨c, _, rfl, hc⟩
    · have hmissing := hc.append (ledger_missing src.files name)
      rw [add_zero] at hmissing
      exact .inl ⟨_, _, rfl, hmissing⟩
    obtain ⟨c₁, ending, news, hload, hlevels, hnone, hcandidate⟩ :=
      ledger_candidate hlen r hlookup hc
    rcases ending with e | ⟨result, found⟩
    · have hfiles : filesOf c₁.levels = filesOf c.levels := by
        rw [hlevels, filesOf_append, filesOf_of_none hnone, add_zero]
      right
      rw [hload]
      exact ⟨c₁, e, file, rfl, hfiles ▸ hcandidate⟩
    have hshelved := ledger_keepFile hlen hlevels hnone hcandidate
    rw [hload]
    simp only [shelve]
    by_cases hfailed : result = .failed
    · subst hfailed
      exact .inl ⟨_, _, rfl, hshelved⟩
    rcases hf : (c₁.keepFile i file).foreign i w.format found with _ | _
    case true =>
      rw [pursue_foreign hfailed hf]
      exact .inl ⟨_, _, rfl, ledger_discardFrom hshelved i⟩
    cases result with
    | failed => exact absurd rfl hfailed
    | finished =>
      rw [pursue_finished hf]
      exact .inl ⟨_, _, rfl, hshelved⟩
    | more =>
      rw [pursue_more hf]
      exact ih (length_of_more hlen hload) hshelved _

end Chain

/-- The references that a load leaves to nobody. -/
def LoadRun.lost (run : LoadRun) (fs : FileSystem) : Multiset FileReference :=
  if run.outcome.isSome then 0
  else (taken fs run.events : Multiset FileReference) - releases run.events

/-- What a load has handed out is in the levels that it lists. Only a crash loses references,
and it does lose some. -/
theorem ledger_loadLevels (src : Sources) (r : Request) (cut : Option Nat) (entry : LevelData) :
    let run := loadLevels src r cut entry
    (∃ o, run.outcome = some o ∧ Ledger src.files run.events (filesOf o.levels) ∧
        run.lost src.files = 0) ∨
      run.outcome = none ∧ Ledger src.files run.events (run.lost src.files) ∧
        run.lost src.files ≠ 0 := by
  intro run
  have hstart : Ledger src.files (Chain.start entry).events (filesOf (Chain.start entry).levels) :=
    ledger_nil src.files
  have hlen : (Chain.start entry).levels.length = 0 := rfl
  have hwalk := Chain.ledger_walk hlen hstart r cut ⟨.undefined, Chain.firstResult r, false⟩
    (r.names.take maxLevels)
  rcases hwalk with
    ⟨c, w, hw, hc⟩ | ⟨c, e, file, hw, hc⟩
  · have hrun : run = ⟨c.commit w.format, c.events, c.requests, some (c.outcome w)⟩ := by
      simp only [run, loadLevels, hw]
    rw [hrun]
    exact .inl ⟨c.outcome w, rfl, hc, rfl⟩
  · have hrun : run = ⟨c.entry, c.events, c.requests, none⟩ := by
      simp only [run, loadLevels, hw]
    have hlost : run.lost src.files = filesOf c.levels + {file} := by
      rw [hrun, LoadRun.lost, if_neg (by simp), hc.balance, add_tsub_cancel_left]
    rw [hlost, hrun]
    exact .inr ⟨rfl, hc, by simp⟩

end TexturePack
