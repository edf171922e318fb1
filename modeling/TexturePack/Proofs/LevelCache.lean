import Mathlib
import TexturePack.Proofs.LevelData

/-! The history of a cache entry. The time of its last use is the latest of all, in whatever order
uses are recorded, and a purge drops the bytes if and only if it comes after that. The generation
tells the bytes of one time from those of another: it counts how often bytes have been dropped. -/
namespace TexturePack

theorem Instant.microsecondsSince_mono {t u : Instant} (h : u.before t = false)
    (epoch : Instant) : t.microsecondsSince epoch ≤ u.microsecondsSince epoch := by
  have hle : t.nanoseconds ≤ u.nanoseconds := by simpa [before] using h
  exact Int.toNat_le_toNat (Int.ediv_le_ediv (by decide) (Int.sub_le_sub_right hle _))

/-- What can happen to a cache entry. Whoever holds the entry may write levels, their format and
their alpha. -/
inductive EntryAct where
  | write (change : LevelData → LevelData)
  | touch (now : Instant)
  | purge (threshold : Instant) (held : Bool)
  | discard

/-- Whether an act is meant to take the bytes of an entry away. -/
def EntryAct.clears : EntryAct → Bool
  | purge .. | discard => true
  | write _ | touch _ => false

namespace CacheEntry

variable {e : CacheEntry} {a : EntryAct} {threshold : Instant} {held : Bool}

def act (e : CacheEntry) : EntryAct → CacheEntry
  | .write change => { e with data := change e.data }
  | .touch now => e.touch now
  | .purge threshold held => e.purgeIfOlder threshold held
  | .discard => e.discard

def run (e : CacheEntry) (acts : List EntryAct) : CacheEntry := acts.foldl act e

/-- A purge or a discard after which a level has not the bytes it had. -/
def Drops (e : CacheEntry) (a : EntryAct) : Prop :=
  a.clears = true ∧ ∃ i, (e.act a).data.bytes i ≠ e.data.bytes i

/-- The entry without its bytes, one generation later. -/
def emptied (e : CacheEntry) : CacheEntry :=
  { e with data := { e.data with levels := [] }, generation := e.generation + 1 }

theorem run_cons (e : CacheEntry) (a : EntryAct) (acts : List EntryAct) :
    e.run (a :: acts) = (e.act a).run acts := rfl

theorem run_concat (e : CacheEntry) (acts : List EntryAct) (a : EntryAct) :
    e.run (acts ++ [a]) = (e.run acts).act a := List.foldl_append

theorem isEmpty_eq_false_iff : e.data.isEmpty = false ↔ ∃ i, e.data.has i = true := by
  rw [← Bool.not_eq_true, LevelData.isEmpty_iff, not_forall]
  simp only [LevelData.has_iff]

theorem purges_iff : e.purges threshold held = true ↔
    held = false ∧ (∃ i, e.data.has i = true) ∧ e.lastUse < e.offset threshold := by
  simp only [purges, Bool.and_eq_true, Bool.not_eq_true', decide_eq_true_eq,
    isEmpty_eq_false_iff]
  tauto

/-- A discard takes all bytes, or there are none and it changes nothing. -/
theorem discard_cases (e : CacheEntry) :
    (∃ i, e.data.has i = true) ∧ e.discard = e.emptied ∨
      (¬∃ i, e.data.has i = true) ∧ e.discard = e := by
  by_cases h : ∃ i, e.data.has i = true
  · exact .inl ⟨h, if_neg (by simp [isEmpty_eq_false_iff.mpr h])⟩
  · exact .inr ⟨h, if_pos (by simpa using mt isEmpty_eq_false_iff.mp h)⟩

theorem drops_of_act {i : Nat} (ha : a.clears = true) (hi : e.data.has i = true)
    (hact : e.act a = e.emptied) : e.Drops a := by
  refine ⟨ha, i, ?_⟩
  rw [hact]
  exact (LevelData.has_iff.mp hi).symm

theorem not_drops_of_act (hact : e.act a = e) : ¬e.Drops a := by
  rintro ⟨-, i, hi⟩
  exact hi (congrArg (·.data.bytes i) hact)

theorem purge_cases (e : CacheEntry) (threshold : Instant) (held : Bool) :
    e.purges threshold held = true ∧ e.purgeIfOlder threshold held = e.emptied ∨
      ¬e.purges threshold held = true ∧ e.purgeIfOlder threshold held = e := by
  by_cases h : e.purges threshold held = true
  · rcases e.discard_cases with ⟨-, hempty⟩ | ⟨hnone, -⟩
    · exact .inl ⟨h, (if_pos h).trans hempty⟩
    · exact absurd (purges_iff.mp h).2.1 hnone
  · exact .inr ⟨h, if_neg h⟩

theorem drops_purge_iff : e.Drops (.purge threshold held) ↔ e.purges threshold held = true := by
  rcases e.purge_cases threshold held with ⟨hpurges, hact⟩ | ⟨hnot, hact⟩
  · obtain ⟨-, ⟨i, hi⟩, -⟩ := purges_iff.mp hpurges
    exact iff_of_true (drops_of_act rfl hi hact) hpurges
  · exact iff_of_false (not_drops_of_act hact) hnot

theorem drops_discard_iff : e.Drops .discard ↔ ∃ i, e.data.has i = true := by
  rcases e.discard_cases with ⟨⟨i, hi⟩, hact⟩ | ⟨hnone, hact⟩
  · exact iff_of_true (drops_of_act rfl hi hact) ⟨i, hi⟩
  · exact iff_of_false (not_drops_of_act hact) hnone

/-- An act that is meant to take bytes away takes all of them, or changes nothing. -/
theorem clear_cases (ha : a.clears = true) :
    e.Drops a ∧ e.act a = e.emptied ∨ ¬e.Drops a ∧ e.act a = e := by
  cases a with
  | write | touch => cases ha
  | discard =>
    rw [drops_discard_iff]
    exact e.discard_cases
  | purge threshold held =>
    rw [drops_purge_iff]
    exact e.purge_cases threshold held

theorem act_of_drops (h : e.Drops a) : e.act a = e.emptied := by
  rcases clear_cases h.1 with ⟨-, hact⟩ | ⟨hnot, -⟩
  · exact hact
  · exact absurd h hnot

theorem generation_act_of_not_drops (h : ¬e.Drops a) :
    (e.act a).generation = e.generation := by
  rcases ha : a.clears with _ | _
  · cases a with
    | write | touch => rfl
    | purge | discard => cases ha
  · rcases clear_cases ha with ⟨hdrops, -⟩ | ⟨-, hact⟩
    · exact absurd hdrops h
    · rw [hact]

theorem generation_le_act (e : CacheEntry) (a : EntryAct) :
    e.generation ≤ (e.act a).generation ∧ (e.act a).generation ≤ e.generation + 1 := by
  by_cases h : e.Drops a
  · rw [act_of_drops h]
    exact ⟨Nat.le_succ _, le_rfl⟩
  · rw [generation_act_of_not_drops h]
    exact ⟨le_rfl, Nat.le_succ _⟩

theorem epoch_act (e : CacheEntry) (a : EntryAct) : (e.act a).epoch = e.epoch := by
  rcases ha : a.clears with _ | _
  · cases a with
    | write | touch => rfl
    | purge | discard => cases ha
  · rcases clear_cases ha with ⟨-, hact⟩ | ⟨-, hact⟩
    · rw [hact]
      rfl
    · rw [hact]

/-- Only a use moves the time of the last use. -/
theorem lastUse_act (e : CacheEntry) (a : EntryAct) : (∃ now, a = .touch now ∧
    (e.act a).lastUse = max e.lastUse (e.offset now)) ∨
      (∀ now, a ≠ .touch now) ∧ (e.act a).lastUse = e.lastUse := by
  rcases ha : a.clears with _ | _
  · cases a with
    | write change => exact .inr ⟨nofun, rfl⟩
    | touch now => exact .inl ⟨now, rfl, rfl⟩
    | purge | discard => cases ha
  · refine .inr ⟨fun now htouch => ?_, ?_⟩
    · rw [htouch] at ha
      cases ha
    rcases clear_cases ha with ⟨-, hact⟩ | ⟨-, hact⟩
    · rw [hact]
      rfl
    · rw [hact]

theorem offset_act (e : CacheEntry) (a : EntryAct) : (e.act a).offset = e.offset := by
  funext t
  rw [offset, offset, epoch_act]

theorem offset_run (e : CacheEntry) (acts : List EntryAct) : (e.run acts).offset = e.offset := by
  induction acts generalizing e with
  | nil => rfl
  | cons a acts ih => rw [run_cons, ih, offset_act]

theorem offset_mono {t u : Instant} (h : u.before t = false) : e.offset t ≤ e.offset u :=
  min_le_min_right _ (Instant.microsecondsSince_mono h e.epoch)

/-- The time of the last use is the latest of all at which uses are recorded. -/
theorem isGreatest_lastUse_run (e : CacheEntry) (acts : List EntryAct) :
    IsGreatest {m | m = e.lastUse ∨ ∃ now, .touch now ∈ acts ∧ m = e.offset now}
      (e.run acts).lastUse := by
  induction acts generalizing e with
  | nil => exact ⟨.inl rfl, by simp [run]⟩
  | cons a acts ih =>
    have hlater := ih (e.act a)
    rw [offset_act] at hlater
    rw [run_cons]
    simp only [List.mem_cons]
    rcases e.lastUse_act a with ⟨now, rfl, huse⟩ | ⟨hne, huse⟩
    · rw [huse] at hlater
      refine ⟨?_, ?_⟩
      · rcases hlater.1 with hmax | ⟨t, ht, hoffset⟩
        · rcases max_choice e.lastUse (e.offset now) with h | h
          · exact .inl (hmax.trans h)
          · exact .inr ⟨now, .inl rfl, hmax.trans h⟩
        · exact .inr ⟨t, .inr ht, hoffset⟩
      · have hmax := hlater.2 (.inl rfl)
        rintro m (rfl | ⟨t, ht | ht, rfl⟩)
        · exact (le_max_left _ _).trans hmax
        · cases ht
          exact (le_max_right _ _).trans hmax
        · exact hlater.2 (.inr ⟨t, ht, rfl⟩)
    · rw [huse] at hlater
      simpa only [(hne _).symm, false_or] using hlater

theorem generation_run (e : CacheEntry) (acts : List EntryAct) :
    e.generation ≤ (e.run acts).generation ∧
      (e.run acts).generation ≤ e.generation + acts.length := by
  induction acts generalizing e with
  | nil => exact ⟨le_rfl, le_rfl⟩
  | cons a acts ih =>
    obtain ⟨hle, hge⟩ := ih (e.act a)
    obtain ⟨hle', hge'⟩ := e.generation_le_act a
    rw [run_cons, List.length_cons]
    exact ⟨hle'.trans hle, by omega⟩

/-- The generation stays the same as long as no bytes are dropped, and no longer. -/
theorem generation_run_eq_iff (e : CacheEntry) (acts : List EntryAct) :
    (e.run acts).generation = e.generation ↔
      ∀ before a after, acts = before ++ a :: after → ¬(e.run before).Drops a := by
  induction acts generalizing e with
  | nil => exact iff_of_true rfl (by simp)
  | cons a acts ih =>
    constructor
    · intro hsame before b after hsplit
      have hgen := e.generation_le_act a
      have hrun := (e.act a).generation_run acts
      rw [run_cons] at hsame
      rcases before with _ | ⟨c, before⟩
      · cases hsplit
        intro hdrops
        have hnext : (e.act a).generation = e.generation + 1 :=
          congrArg generation (act_of_drops hdrops)
        omega
      · cases hsplit
        exact (ih _).mp (by omega) before b after rfl
    · intro hnone
      rw [run_cons, (ih _).mpr fun before b after hsplit => hnone (a :: before) b after
        (congrArg _ hsplit)]
      exact generation_act_of_not_drops (hnone [] a acts rfl)

/-- Over every history of an entry the time of its last use is the latest of all that are recorded.
A purge drops bytes if and only if nobody holds the entry, there are some, and that time is before
the threshold; so what has been used since is never purged. What drops bytes drops all of them
and counts the generation up by one, and as nothing else does, the generation tells whether bytes
have been dropped between two times. -/
theorem purge_is_exact (created : Instant) (acts : List EntryAct) :
    let e := (create created).run acts
    IsGreatest {m | m = 0 ∨ ∃ now, .touch now ∈ acts ∧ m = (create created).offset now} e.lastUse ∧
      (∀ threshold held,
        (e.Drops (.purge threshold held) ↔ held = false ∧ (∃ i, e.data.has i = true) ∧
          e.lastUse < (create created).offset threshold) ∧
        (e.purges threshold held = true ↔ e.Drops (.purge threshold held)) ∧
        (∀ now, .touch now ∈ acts → now.before threshold = false →
          e.purgeIfOlder threshold held = e)) ∧
      (∀ a, e.Drops a →
        (∀ i, (e.act a).data.has i = false) ∧ (e.act a).generation = e.generation + 1) ∧
      (∀ a, ¬e.Drops a → (e.act a).generation = e.generation) ∧
      (∀ later, (e.run later).generation = e.generation ↔
        ∀ before a after, later = before ++ a :: after → ¬(e.run before).Drops a) ∧
      e.generation ≤ acts.length := by
  intro e
  have hoffset : e.offset = (create created).offset := offset_run _ acts
  have hlatest := (create created).isGreatest_lastUse_run acts
  refine ⟨hlatest, fun threshold held => ⟨?_, drops_purge_iff.symm, fun now hnow hsince => ?_⟩,
    fun a ha => ?_, fun a => generation_act_of_not_drops, e.generation_run_eq_iff, ?_⟩
  · rw [drops_purge_iff, purges_iff, hoffset]
  · have huse : e.offset threshold ≤ e.lastUse := by
      rw [hoffset]
      exact (offset_mono hsince).trans (hlatest.2 (.inr ⟨now, hnow, rfl⟩))
    rcases e.purge_cases threshold held with ⟨hpurges, -⟩ | ⟨-, hact⟩
    · exact absurd (purges_iff.mp hpurges).2.2 (Nat.not_lt.mpr huse)
    · exact hact
  · rw [act_of_drops ha]
    exact ⟨fun _ => rfl, rfl⟩
  · exact ((create created).generation_run acts).2.trans_eq (Nat.zero_add _)

/-- A level that is used at the fifth second, which is recorded before a use at the second one. -/
def usedTwice : List EntryAct :=
  [.write (·.put 1 [7, 7]), .touch (.ofSeconds 5), .touch (.ofSeconds 2)]

/-- A purge at the fifth second leaves the level alone, and one at the sixth drops it. -/
theorem purge_is_exact_usedTwice :
    let e := (create (.ofSeconds 1)).run usedTwice
    .touch (.ofSeconds 5) ∈ usedTwice ∧ (Instant.ofSeconds 5).before (.ofSeconds 5) = false ∧
      e.lastUse = 4000000 ∧ e.purgeIfOlder (.ofSeconds 5) false = e ∧
      e.Drops (.purge (.ofSeconds 6) false) ∧
      (e.act (.purge (.ofSeconds 6) false)).data.has 1 = false ∧
      (e.act (.purge (.ofSeconds 6) false)).generation = 1 ∧
      ¬e.Drops (.touch (.ofSeconds 9)) ∧ (e.act (.touch (.ofSeconds 9))).generation = 0 := by
  intro e
  obtain ⟨-, hpurge, hdrops, hkeeps, -⟩ := purge_is_exact (.ofSeconds 1) usedTwice
  have htouch : .touch (.ofSeconds 5) ∈ usedTwice := .tail _ (.head _)
  have hdropped : e.Drops (.purge (.ofSeconds 6) false) :=
    (hpurge (.ofSeconds 6) false).1.mpr ⟨rfl, ⟨1, by decide⟩, by decide⟩
  have hkept : ¬e.Drops (.touch (.ofSeconds 9)) := fun h => Bool.false_ne_true h.1
  obtain ⟨hgone, hcounted⟩ := hdrops _ hdropped
  exact ⟨htouch, by decide, by decide, (hpurge (.ofSeconds 5) false).2.2 _ htouch (by decide),
    hdropped, hgone 1, hcounted.trans (by decide), hkept, (hkeeps _ hkept).trans (by decide)⟩

end CacheEntry
end TexturePack
