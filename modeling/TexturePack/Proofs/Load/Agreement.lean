import Mathlib
import TexturePack.Proofs.Load.Walk

/-! Loads of one request into an entry agree. Whatever part of the levels an entry has
already, and wherever a load is cut short, the entry keeps to the bytes that one undisturbed
load into an empty entry stores. -/
namespace TexturePack

namespace LevelData

theorem within_clear {d d' : LevelData} (h : d.Within d') (i : Nat) : (d.clear i).Within d' := by
  intro j hj
  rw [bytes_clear] at hj ⊢
  split at hj
  · exact absurd rfl hj
  next hne =>
    rw [if_neg hne]
    exact h j hj

/-- Storing the same levels on both sides keeps all others as they are. -/
theorem within_putAll {d d' : LevelData} {i : Nat} {bs : List Bytes}
    (h : d.Within (d'.putAll i bs)) : (d.putAll i bs).Within (d'.putAll i bs) := by
  intro j hj
  by_cases hin : i ≤ j ∧ j < i + bs.length
  · rw [bytes_putAll, bytes_putAll, if_pos hin, if_pos hin]
  · have hd : (d.putAll i bs).bytes j = d.bytes j := by rw [bytes_putAll, if_neg hin]
    rw [hd] at hj ⊢
    exact h j hj

theorem within_putAll_clear {d d' : LevelData} {i : Nat} {bs : List Bytes}
    (h : d.Within ((d'.putAll i bs).clear i)) :
    ((d.putAll i bs).clear i).Within ((d'.putAll i bs).clear i) := by
  intro j hj
  rw [bytes_clear] at hj
  split at hj
  · exact absurd rfl hj
  next hne =>
    rw [bytes_clear, if_neg hne]
    by_cases hin : i ≤ j ∧ j < i + bs.length
    · rw [bytes_clear, if_neg hne, bytes_putAll, bytes_putAll, if_pos hin, if_pos hin]
    · have hd : (d.putAll i bs).bytes j = d.bytes j := by rw [bytes_putAll, if_neg hin]
      rw [hd] at hj ⊢
      exact h j hj

end LevelData

namespace Chain

variable {i : Nat}

theorem laid_bytes_of_ne {c : Chain} {name : String} {file : FileReference} {g : Harvest}
    (hone : g.layers.length = 1) {j : Nat} (hne : j ≠ i) :
    (c.laid name file i g).entry.bytes j = c.entry.bytes j := by
  rw [laid_entry, LevelData.bytes_putAll, List.length_map, hone, if_neg (by omega)]

/-- The rest of a walk does not touch the level that was just stored. -/
theorem laid_within {src : Sources} {r : Request} {c d : Chain} {name : String}
    {file : FileReference} {g : Harvest} (hone : g.layers.length = 1)
    (hlen : (d.laid name file i g).levels.length = i + 1) {w : Walk} {names : List String}
    (h : c.entry.Within ((d.laid name file i g).walk src r none (i + 1) w names).1.entry) :
    (c.laid name file i g).entry.Within
      ((d.laid name file i g).walk src r none (i + 1) w names).1.entry := by
  intro j hj
  by_cases hji : j = i
  · rw [walk_bytes_of_lt src r none hlen (by omega), laid_entry, laid_entry]
    simp [LevelData.bytes_putAll, hone, hji]
  · rw [laid_bytes_of_ne hone hji] at hj ⊢
    exact h j hj

/-- A walk over an entry that agrees with what an uncut walk from the same levels will
store ends in such an entry. The other walk starts with nothing from level `i` on. -/
theorem walk_within (src : Sources) (r : Request) (cut : Option Nat) {c d : Chain}
    (hlen : c.levels.length = i) (hlevels : c.levels = d.levels)
    (hnone : ∀ j, i ≤ j → d.entry.bytes j = []) (w : Walk) (names : List String)
    (h : c.entry.Within (d.walk src r none i w names).1.entry) :
    (c.walk src r cut i w names).1.entry.Within (d.walk src r none i w names).1.entry := by
  induction names generalizing c d i w with
  | nil => exact h
  | cons name names ih =>
    rcases walk_cons hlen src r cut w name names with
      ⟨c₁, result, hwalk, halike⟩ | ⟨file, f, ho, hcut, hnew | ⟨hhas, hd, hread⟩⟩
    · rw [hwalk, halike.entry]
      exact h
    · have hlen' : d.levels.length = i := hlevels ▸ hlen
      have hnew' : d.entry.has i = false := by
        rw [← Bool.not_eq_true, LevelData.has_iff, hnone i le_rfl]
        simp
      rw [walk_fresh hlen' (by simp) ho hnew', ← harvest_congr hlevels] at h ⊢
      rw [walk_fresh hlen hcut ho hnew]
      -- Both walks lay down the same harvest, and judge it by the same levels.
      generalize hg : c.harvest src.transcoder r i f = g at h ⊢
      have hlaid : (c.laid name file i g).levels = (d.laid name file i g).levels := by
        rw [laid_levels, laid_levels, hlevels]
      have hforeign (found : PixelFormat) : (c.laid name file i g).foreign i w.format found =
          (d.laid name file i g).foreign i w.format found := by
        rw [foreign, foreign, hlaid]
      rcases he : g.ending with e | ⟨result, found⟩
      · simp only [he] at h ⊢
        exact LevelData.within_putAll h
      simp only [he] at h ⊢
      by_cases hfailed : result = .failed
      · simp only [hfailed, pursue, laid_entry] at h ⊢
        exact LevelData.within_putAll h
      rcases hf : (d.laid name file i g).foreign i w.format found with _ | _
      case true =>
        rw [pursue_foreign hfailed hf] at h ⊢
        rw [pursue_foreign hfailed (hforeign found ▸ hf)]
        simp only [discardFrom, laid_entry] at h ⊢
        exact LevelData.within_putAll_clear h
      have hf' : (c.laid name file i g).foreign i w.format found = false := by rw [hforeign, hf]
      cases result with
      | failed => exact absurd rfl hfailed
      | finished =>
        rw [pursue_finished hf] at h ⊢
        rw [pursue_finished hf']
        simp only [laid_entry] at h ⊢
        exact LevelData.within_putAll h
      | more =>
        rw [pursue_more hf] at h ⊢
        rw [pursue_more hf']
        have hone : g.layers.length = 1 := hg ▸ harvest_more (hg ▸ he)
        have hnext : (c.laid name file i g).levels.length = i + 1 := by
          rw [laid_length, hlen, hone]
        apply ih hnext hlaid
        · intro j hj
          rw [laid_bytes_of_ne hone (by omega)]
          exact hnone j (by omega)
        · exact laid_within hone (hlaid ▸ hnext) h
    · rw [walk_cached hlen hcut ho hhas hread]
      simp only [shelve, pursue]
      split
      · simpa [discardFrom, taken, opening, note] using LevelData.within_clear h i
      · simpa [taken, opening, note] using h

@[simp] theorem commit_bytes (c : Chain) (format : PixelFormat) (i : Nat) :
    (c.commit format).bytes i = c.entry.bytes i := by
  unfold commit
  split <;> rfl

@[simp] theorem commit_has (c : Chain) (format : PixelFormat) (i : Nat) :
    (c.commit format).has i = c.entry.has i := by
  rw [Bool.eq_iff_iff, LevelData.has_iff, LevelData.has_iff, commit_bytes]

theorem loadLevels_of_walk {src : Sources} {r : Request} {cut : Option Nat} {entry : LevelData}
    {c : Chain} {w : Walk} (h : (start entry).walk src r cut 0 ⟨.undefined, firstResult r, false⟩
      (r.names.take maxLevels) = (c, .ok w)) :
    (loadLevels src r cut entry).outcome = some (c.outcome w) ∧
      (loadLevels src r cut entry).entry = c.commit w.format := by
  constructor <;> simp only [loadLevels, h]

/-- A load that does not crash is a walk that ends. -/
theorem walk_of_loadLevels {src : Sources} {r : Request} {cut : Option Nat} {entry : LevelData}
    {o : LoadOutcome} (h : (loadLevels src r cut entry).outcome = some o) :
    ∃ c w, (start entry).walk src r cut 0 ⟨.undefined, firstResult r, false⟩
        (r.names.take maxLevels) = (c, .ok w) ∧
      c.outcome w = o ∧ (loadLevels src r cut entry).entry = c.commit w.format := by
  rcases hw : (start entry).walk src r cut 0 ⟨.undefined, firstResult r, false⟩
    (r.names.take maxLevels) with ⟨c, e | w⟩
  · simp [loadLevels, hw] at h
  · obtain ⟨ho, he⟩ := loadLevels_of_walk hw
    rw [h, Option.some.injEq] at ho
    exact ⟨c, w, rfl, ho.symm, he⟩

theorem loadLevels_bytes (src : Sources) (r : Request) (cut : Option Nat) (entry : LevelData)
    (i : Nat) :
    (loadLevels src r cut entry).entry.bytes i =
      ((start entry).walk src r cut 0 ⟨.undefined, firstResult r, false⟩
        (r.names.take maxLevels)).1.entry.bytes i := by
  unfold loadLevels
  simp only
  rcases (start entry).walk src r cut 0 ⟨.undefined, firstResult r, false⟩
    (r.names.take maxLevels) with ⟨c, _ | w⟩
  · rfl
  · exact commit_bytes c w.format i

end Chain

/-- However much of an entry has been filled by loads of one request, all its levels are
those of an undisturbed load. -/
theorem loadLevels_within (src : Sources) (r : Request) (cut : Option Nat) {entry : LevelData}
    (h : entry.Within (loadLevels src r none .empty).entry) :
    (loadLevels src r cut entry).entry.Within (loadLevels src r none .empty).entry := by
  have hwalk := Chain.walk_within src r cut (c := .start entry) (d := .start .empty) rfl rfl
    (fun _ _ => rfl) ⟨.undefined, Chain.firstResult r, false⟩ (r.names.take maxLevels)
    (fun i hi => (h i hi).trans (Chain.loadLevels_bytes src r none .empty i))
  intro i hi
  rw [Chain.loadLevels_bytes] at hi
  rw [Chain.loadLevels_bytes, Chain.loadLevels_bytes]
  exact hwalk i hi

end TexturePack
