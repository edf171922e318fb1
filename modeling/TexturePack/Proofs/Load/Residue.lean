import Mathlib
import TexturePack.Proofs.Load.Course

/-! What a load into an empty entry leaves there beside the levels that it lists. Levels that
are taken back leave all their bytes but those of the first. -/
namespace TexturePack

open Chain

/-- How many levels a load takes back: those of the file behind the images that it lists, if it
lists nothing else. -/
def Sources.takenBack (src : Sources) (r : Request) (cut : Option Nat)
    (levels : List LevelRecord) : Nat :=
  if (src.images levels).length = levels.length then
    (src.candidate? r cut levels.length).elim 0 fun f =>
      (harvest { start .empty with levels := levels } src.transcoder r levels.length
        f).layers.length
  else 0

namespace Chain

variable {src : Sources} {r : Request} {cut : Option Nat} {i : Nat} {entry : LevelData}
  {c d : Chain}

/-- Behind the images, only the file that follows them can be taken back. -/
theorem Pictured.takenBack_eq (hd : d.Pictured src r entry i) (hlevels : c.levels = d.levels) :
    src.takenBack r cut c.levels =
      (src.candidate? r cut i).elim 0 fun f =>
        (d.harvest src.transcoder r i f).layers.length := by
  rw [Sources.takenBack, hlevels, hd.images_length, hd.length, if_pos rfl]
  congr 1

/-- Behind the listed levels the entry has what was taken back, but for its first level. -/
theorem Ended.has_iff (hempty : entry.isEmpty = true) (hd : d.Pictured src r entry i)
    (hc : Ended src r cut i d c) {k : Nat} (hk : c.levels.length ≤ k) :
    c.entry.has k = true ↔
      c.levels.length < k ∧ k < c.levels.length + src.takenBack r cut c.levels := by
  have himages := hc.images_length hd
  cases hc with
  | short hnone halike =>
    have hlen : c.levels.length = i := by rw [halike.levels, hd.length]
    rw [hd.takenBack_eq halike.levels, hnone, Option.elim_none, halike.entry, hd.has_iff hempty]
    omega
  | @last name file f result found hf ho he hresult =>
    rcases hd.last_levels ho he hresult with ⟨hnil, hlevels⟩ | ⟨l, ls, hlayers, -, hlevels, -⟩
    · have hlen := congrArg List.length hlevels
      rw [hd.length] at hlen
      rw [hd.takenBack_eq hlevels, hf, Option.elim_some, hnil, laid_entry, hnil]
      change d.entry.has k = true ↔ _
      rw [hd.has_iff hempty, hlen, List.length_nil]
      omega
    · have hlen : (d.laid name file i (d.harvest src.transcoder r i f)).levels.length =
          i + (d.harvest src.transcoder r i f).layers.length := by
        rw [laid_length, hd.length]
      have hnone : src.takenBack r cut
          (d.laid name file i (d.harvest src.transcoder r i f)).levels = 0 := by
        rw [Sources.takenBack, himages, hlen, hlayers, if_neg]
        simp
      rw [hnone, LevelData.has_iff, laid_entry, LevelData.bytes_putAll, List.length_map,
        if_neg (by omega), ← LevelData.has_iff, hd.has_iff hempty]
      omega
  | @foreign name file f found hf ho hi he hfound =>
    have hlevels : ((d.laid name file i (d.harvest src.transcoder r i f)).discardFrom i).levels =
        d.levels :=
      discardFrom_laid_levels d _ hd.length
    have hlen := congrArg List.length hlevels
    rw [hd.length] at hlen
    rw [hd.takenBack_eq hlevels, hf, Option.elim_some, hlen]
    have hfilled : ∀ b ∈ (d.harvest src.transcoder r i f).layers.map Layer.bytes, b ≠ [] := by
      rcases harvest_filled hd.keeps he with h | ⟨h0, -⟩
      · simpa using h
      · exact absurd h0 hi.ne'
    rcases Nat.eq_or_lt_of_le (hlen ▸ hk) with rfl | hik
    · rw [discardFrom, LevelData.has_iff, LevelData.bytes_clear, if_pos rfl]
      simp
    · rw [discardFrom, LevelData.has_clear hik.ne', laid_entry, LevelData.has_putAll_iff hfilled,
        List.length_map, hd.has_iff hempty]
      omega

end Chain

/-- What an entry has that was empty before a load: listed levels with bytes, and levels that were
taken back behind the first of them. -/
theorem has_after_load {src : Sources} {r : Request} {cut : Option Nat} {entry : LevelData}
    {o : LoadOutcome} (hempty : entry.isEmpty = true)
    (hload : (loadLevels src r cut entry).outcome = some o) (k : Nat) :
    (loadLevels src r cut entry).entry.has k = true ↔
      k < o.levels.length ∧ ¬(k = 0 ∧ src.Vanishing r) ∨
        o.levels.length < k ∧ k < o.levels.length + src.takenBack r cut o.levels := by
  rcases Nat.lt_or_ge k o.levels.length with hk | hk
  · rw [← Bool.not_eq_false, loadLevels_missing_iff hempty hload hk]
    constructor
    · exact fun h => .inl ⟨hk, h⟩
    · rintro (⟨-, h⟩ | ⟨hlt, -⟩)
      · exact h
      · omega
  · obtain ⟨i, d, c, w, hd, hc, rfl, hentry⟩ := loadLevels_course hempty hload
    rw [hentry, commit_has]
    refine (hc.has_iff hempty hd hk).trans ⟨.inr, ?_⟩
    rintro (⟨hlt, -⟩ | h)
    · exact absurd hlt (Nat.not_lt.mpr hk)
    · exact h

/-- After a load into an empty entry, the entry has the levels that the load lists, but for a
first one of nothing, and behind a gap of one level the bytes of all others that were taken
back. So it has exactly the listed levels unless two levels or more were taken back, or the
first one has no bytes. -/
theorem entry_after_load {src : Sources} {r : Request} {cut : Option Nat} {entry : LevelData}
    {o : LoadOutcome} (hempty : entry.isEmpty = true)
    (hload : (loadLevels src r cut entry).outcome = some o) :
    (∀ k, (loadLevels src r cut entry).entry.has k = true ↔
        k < o.levels.length ∧ ¬(k = 0 ∧ src.Vanishing r) ∨
          o.levels.length < k ∧ k < o.levels.length + src.takenBack r cut o.levels) ∧
      ((∀ k, (loadLevels src r cut entry).entry.has k = true ↔ k < o.levels.length) ↔
        src.takenBack r cut o.levels ≤ 1 ∧ (o.levels = [] ∨ ¬src.Vanishing r)) := by
  have hhas := has_after_load hempty hload
  refine ⟨hhas, ?_⟩
  constructor
  · intro hexact
    constructor
    · by_contra hmany
      have hleft := (hhas (o.levels.length + 1)).mpr (.inr ⟨by omega, by omega⟩)
      have hlisted := (hexact _).mp hleft
      omega
    · by_contra hnothing
      rw [not_or, not_not] at hnothing
      obtain ⟨hlevels, hvanishing⟩ := hnothing
      have hfirst := (hexact 0).mpr (List.length_pos_of_ne_nil hlevels)
      rcases (hhas 0).mp hfirst with ⟨-, h⟩ | ⟨h, -⟩
      · exact h ⟨rfl, hvanishing⟩
      · omega
  · rintro ⟨hone, hbytes⟩ k
    rw [hhas k]
    constructor
    · rintro (⟨hk, -⟩ | ⟨hlt, hle⟩)
      · exact hk
      · omega
    · intro hk
      refine .inl ⟨hk, ?_⟩
      rintro ⟨-, hvanishing⟩
      rcases hbytes with hnil | hnot
      · rw [hnil] at hk
        cases hk
      · exact hnot hvanishing

/-- Square levels of blocks, each half the size of the one before. -/
def blockLevels (side count : Nat) : Bytes :=
  let dimension : Bytes := [side.toUInt8, 0, 0, 0]
  Dds.Header.mark ++ [124, 0, 0, 0, 0, 0, 0, 0] ++ dimension ++ dimension ++ Bytes.zeros 8 ++
    [count.toUInt8, 0, 0, 0] ++ Bytes.zeros 44 ++
    [32, 0, 0, 0, 4, 0, 0, 0, 0x44, 0x58, 0x54, 0x31] ++ Bytes.zeros (40 + 8 * count)

/-- A transparent image, and a file of blocks where its next two levels should be. -/
def imageThenBlocks : Sources where
  files := (Files.Memory.mk
    [("a.zim", some (.ofBytes (square 4))),
      ("b.dds", some (.ofBytes (blockLevels 2 2)))]).fileSystem
  transcoder := none

def imageAndBlocks : Request := .unscaled ["a.zim", "b.dds"] .desktop ""

/-- Two levels of blocks were taken back, and the bytes of the second of them stay. -/
theorem entry_after_load_imageThenBlocks :
    let entry := (loadLevels imageThenBlocks imageAndBlocks none .empty).entry
    entry.has 1 = false ∧ entry.has 2 = true ∧ ¬∀ k, entry.has k = true ↔ k < 1 := by
  intro entry
  have hempty : LevelData.empty.isEmpty = true := rfl
  obtain ⟨o, hload, hcounts⟩ := Option.map_eq_some_iff.mp (show
    (loadLevels imageThenBlocks imageAndBlocks none .empty).outcome.map (fun o =>
      (o.levels.length, imageThenBlocks.takenBack imageAndBlocks none o.levels)) = some (1, 2) by
        decide +kernel)
  obtain ⟨hlisted, htaken⟩ := Prod.mk.inj hcounts
  obtain ⟨hhas, hexact⟩ := entry_after_load hempty hload
  rw [hlisted, htaken] at hhas hexact
  refine ⟨Bool.eq_false_iff.mpr fun hgap => ?_, (hhas 2).mpr (.inr ⟨by decide, by decide⟩),
    fun hall => absurd (hexact.mp hall).1 (by decide)⟩
  rcases (hhas 1).mp hgap with ⟨hone, -⟩ | ⟨hone, -⟩
  · exact absurd hone (by decide)
  · exact absurd hone (by decide)

/-- One level is listed, and the entry has bytes for the third. -/
theorem blocks_are_left_behind :
    (loadLevels imageThenBlocks imageAndBlocks none .empty).outcome.map
        (fun o => o.levels.length) = some 1 ∧
      imageThenBlocks.takenBack imageAndBlocks none [⟨4, 4, some ⟨"a.zim", 0⟩⟩] = 2 ∧
      (loadLevels imageThenBlocks imageAndBlocks none .empty).entry.has 1 = false ∧
      (loadLevels imageThenBlocks imageAndBlocks none .empty).entry.has 2 = true := by
  decide +kernel

end TexturePack
