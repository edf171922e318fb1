import Mathlib
import TexturePack.Proofs.Load.Course

/-! The format in which a load hands out levels. Levels that it decodes are in a format that its
device samples. Levels that it finds in the entry stay in the format that they have there. -/
namespace TexturePack

open Chain

/-- What can happen to an entry that textures share. -/
inductive EntryEvent where
  | load (src : Sources) (r : Request) (cut : Option Nat)
  /-- The bytes are dropped, because nobody has used them or because a load has crashed. -/
  | drop

namespace EntryEvent

def apply (d : LevelData) : EntryEvent → LevelData
  | load src r cut => (loadLevels src r cut d).entry
  | drop => { d with levels := [] }

/-- A load for a device that samples a format. -/
def samples (format : PixelFormat) : EntryEvent → Bool
  | load _ r _ => r.support.allows format
  | drop => false

def crashes (d : LevelData) : EntryEvent → Bool
  | load src r cut => (loadLevels src r cut d).outcome.isNone
  | drop => false

end EntryEvent

namespace LevelData

/-- An entry that was empty before some events. -/
def after (events : List EntryEvent) : LevelData := events.foldl EntryEvent.apply .empty

/-- One of some events is a load that crashes. -/
def Crashed (events : List EntryEvent) : Prop :=
  ∃ before e rest, events = before ++ e :: rest ∧ e.crashes (after before) = true

variable {events : List EntryEvent} {e : EntryEvent}

theorem after_concat (events : List EntryEvent) (e : EntryEvent) :
    after (events ++ [e]) = e.apply (after events) :=
  List.foldl_concat ..

theorem Crashed.concat (h : Crashed events) (e : EntryEvent) : Crashed (events ++ [e]) := by
  obtain ⟨before, e', rest, rfl, he'⟩ := h
  exact ⟨before, e', rest ++ [e], by simp, he'⟩

theorem crashed_concat (h : e.crashes (after events) = true) : Crashed (events ++ [e]) :=
  ⟨events, e, [], rfl, h⟩

@[simp] theorem putAll_format (d : LevelData) (i : Nat) (bs : List Bytes) :
    (d.putAll i bs).format = d.format := by
  induction bs generalizing d i with
  | nil => rfl
  | cons b bs ih =>
    rw [putAll, ih, put]
    split <;> rfl

end LevelData

/-- A universal texture is transcoded to a format that the device samples. -/
theorem Chain.transcodeTarget_allows (t : Transcoder) (p : Ktx2.Payload) (s : Support) :
    s.allows (transcodeTarget t p s).format = true := by
  unfold transcodeTarget
  split
  case isFalse => rfl
  unfold Ktx2.Payload.target
  cases p with
  | etc1s =>
    simp only
    split
    · assumption
    · split
      · assumption
      · rfl
  | uastc =>
    simp only
    split
    · assumption
    · split
      · assumption
      · rfl

namespace Harvest

variable {t : Option Transcoder} {r : Request} {i width height : Nat} {h : FileHeader}
  {f : OpenFile} {result : LoadResult} {found : PixelFormat}

theorem ofKtx2_allows (he : (ofKtx2 t r i f).ending = .ok (result, found)) :
    r.support.allows found = true := by
  unfold ofKtx2 at he
  rcases hparse : f.readAll f.size >>= Ktx2.File.parse with e | file
  · simp [hparse, nothing] at he
  simp only [hparse] at he
  rcases hp : file.payload? with _ | p
  · simp [hp, nothing, Decode.refuse] at he
  rcases t with _ | t
  · simp [hp, nothing, Decode.refuse] at he
  simp only [hp, ofUniversal] at he
  split at he
  · cases he
  · cases he
    exact transcodeTarget_allows t p r.support

theorem ofDds_allows (hinfo : ∀ info, h.dds = some info → r.support.allows info.format = true)
    (he : (ofDds h i width height f).ending = .ok (result, found)) :
    r.support.allows found = true := by
  unfold ofDds at he
  rcases hd : h.dds with _ | info
  · simp [hd, nothing, Decode.refuse] at he
  simp only [hd] at he
  rcases hs : f.seek (.start info.dataStart) with e | f'
  · simp [hs, Decode.refuse] at he
  simp only [hs] at he
  rcases hcut : slices info.format f' width height (min info.levels (maxLevels - i)) with
    ⟨layers, e | u⟩
  · simp [hcut, Except.map] at he
  · simp only [hcut, Except.map, Except.ok.injEq, Prod.mk.injEq] at he
    rw [← he.2]
    exact hinfo info hd

theorem ofImage_allows {decode : Bytes → Nat → Nat → Decode Image}
    (he : (ofImage i width height f decode).ending = .ok (result, found)) :
    r.support.allows found = true := by
  unfold ofImage at he
  rcases hd : f.readAll f.size >>= fun bytes => decode bytes width height with e | image
  · simp [hd, nothing] at he
  · simp only [hd, Except.ok.injEq, Prod.mk.injEq] at he
    rw [← he.2]
    rfl

/-- What is decoded from a file is in a format that the device samples. -/
theorem ofFile_allows {kind : Container}
    (hinfo : ∀ info, h.dds = some info → r.support.allows info.format = true)
    (he : (ofFile t r i kind h width height f).ending = .ok (result, found)) :
    r.support.allows found = true := by
  cases kind with
  | ktx2 => exact ofKtx2_allows he
  | dds => exact ofDds_allows hinfo he
  | zim => exact ofImage_allows he
  | png => exact ofImage_allows he
  | basis | invalid => cases he

end Harvest

namespace Chain

variable {src : Sources} {r : Request} {cut : Option Nat} {i : Nat} {f : OpenFile}

/-- Levels that a file brings are in a format that the device samples. -/
theorem harvest_allows {c : Chain} {t : Option Transcoder} {result : LoadResult}
    {found : PixelFormat} (he : (c.harvest t r i f).ending = .ok (result, found))
    (hresult : result ≠ .failed) : r.support.allows found = true := by
  rcases c.harvest_cases t r i f with
    ⟨ending, heq, hfailed, -⟩ | ⟨h, size, hread, -, -, heq⟩
  · rw [heq] at he
    exact absurd (hfailed _ _ he) hresult
  · rw [heq] at he
    exact Harvest.ofFile_allows (fun info => FileHeader.read_dds_allows hread)
      (Harvest.ending_of_settled hresult he)

/-- A walk that lists levels hands them out in the format of the entry, if this has the first,
and otherwise in one that the device samples. -/
theorem format_of_walk {entry : LevelData} {c : Chain} {w w' : Walk} {names : List String}
    (hw : (start entry).walk src r cut 0 w names = (c, .ok w')) (hlevels : c.levels ≠ []) :
    if entry.has 0 then w'.format = entry.format else r.support.allows w'.format = true := by
  cases walk_begun hw with
  | nothing halike => exact absurd halike.levels hlevels
  | cached hhas _ hformat => rwa [if_pos hhas]
  | @fresh _ _ f result found _ _ hnew he hformat hlast _ =>
    have hresult : result ≠ .failed := by
      rintro rfl
      apply hlevels
      rw [hlast LoadResult.noConfusion]
      exact laid_levels_eq_nil_iff.mpr ⟨rfl, layers_of_failed he⟩
    rw [if_neg (by simp [hnew]), hformat hresult]
    exact harvest_allows he hresult

/-- The format of an entry stays as it is until the load has ended. -/
theorem walk_entry_format (src : Sources) (r : Request) (cut : Option Nat) {c : Chain}
    (hlen : c.levels.length = i) (w : Walk) (names : List String) :
    (c.walk src r cut i w names).1.entry.format = c.entry.format := by
  induction names generalizing c i w with
  | nil => rfl
  | cons name names ih =>
    rcases walk_step c src r cut i w name names with
      ⟨-, h⟩ | ⟨-, -, h⟩ | ⟨-, -, -, h⟩ | ⟨-, -, file, -, h⟩
    all_goals rw [h]
    · rfl
    obtain ⟨c₁, ending, hload, hcases⟩ := loadCandidate_cases hlen src r name file
    have hformat : c₁.entry.format = c.entry.format := by
      rcases hcases with ⟨rfl, -⟩ | ⟨_, rfl, -⟩ | ⟨f, rfl, -⟩
      · rfl
      · rfl
      · exact LevelData.putAll_format ..
    rw [hload]
    rcases ending with e | ⟨result, found⟩
    · exact hformat
    have hkept : (c₁.keepFile i file).entry.format = c.entry.format := by
      rw [keepFile_entry, hformat]
    simp only [shelve] at hload ⊢
    by_cases hfailed : result = .failed
    · subst hfailed
      exact hkept
    rcases hf : (c₁.keepFile i file).foreign i w.format found with _ | _
    case true =>
      rw [pursue_foreign hfailed hf]
      exact hkept
    cases result with
    | failed => exact absurd rfl hfailed
    | finished =>
      rw [pursue_finished hf]
      exact hkept
    | more =>
      rw [pursue_more hf, ih (length_of_more hlen hload), hkept]

end Chain

namespace LevelData

variable {src : Sources} {r : Request} {cut : Option Nat} {d : LevelData} {o : LoadOutcome}

/-- A load hands out levels in the format of an entry that has the first, and otherwise in one that
its device samples. -/
theorem format_of_load (hload : (loadLevels src r cut d).outcome = some o)
    (hlevels : o.levels ≠ []) :
    if d.has 0 then o.format = d.format else r.support.allows o.format = true := by
  obtain ⟨c, w, hw, rfl, -⟩ := walk_of_loadLevels hload
  have hc : c.levels ≠ [] := hlevels
  rw [outcome_format hc]
  exact format_of_walk hw hc

/-- What a load makes of the format of an entry. -/
theorem loadLevels_format (src : Sources) (r : Request) (cut : Option Nat) (d : LevelData) :
    (loadLevels src r cut d).entry.format = d.format ∨
      r.support.allows (loadLevels src r cut d).entry.format = true := by
  rcases hhas : d.has 0 with _ | _
  case true => exact .inl (by rw [loadLevels_of_has src r cut hhas])
  have hkept := walk_entry_format src r cut (c := start d) (i := 0) rfl
    ⟨.undefined, firstResult r, false⟩ (r.names.take maxLevels)
  rcases hload : (loadLevels src r cut d).outcome with _ | o
  · left
    unfold loadLevels at hload ⊢
    rcases hw : (start d).walk src r cut 0 ⟨.undefined, firstResult r, false⟩
      (r.names.take maxLevels) with ⟨c, e | w⟩
    · rw [hw] at hkept
      simp only [hw]
      exact hkept
    · simp [hw] at hload
  obtain ⟨c, w, hw, rfl, hentry⟩ := walk_of_loadLevels hload
  rw [hw] at hkept
  rw [hentry]
  by_cases hcommit : c.levels = [] ∨ c.reused = true
  · rw [commit_eq_entry hcommit]
    exact .inl hkept
  · rw [not_or, Bool.not_eq_true] at hcommit
    have hformat := format_of_load hload hcommit.1
    rw [hhas, outcome_format hcommit.1] at hformat
    rw [commit_of_decoded hcommit.2 hcommit.1]
    exact .inr hformat

/-- A load that puts something into an empty entry and does not crash gives it a format. -/
theorem format_of_filled (hempty : d.isEmpty = true)
    (hload : (loadLevels src r cut d).outcome = some o)
    (hfilled : (loadLevels src r cut d).entry.isEmpty = false) :
    (loadLevels src r cut d).entry.format ≠ .undefined := by
  have hlevels : o.levels ≠ [] := by
    intro hnone
    rw [entry_of_nothing hempty hload hnone, hempty] at hfilled
    cases hfilled
  have hformat := format_of_load hload hlevels
  have hnew : d.has 0 = false := by
    rw [← Bool.not_eq_true]
    intro hhas
    rw [isEmpty_of_has hhas] at hempty
    cases hempty
  obtain ⟨c, w, hw, rfl, hentry⟩ := walk_of_loadLevels hload
  have hc : c.levels ≠ [] := hlevels
  obtain ⟨_, _, _, _, _, _, _, _, hdecoded⟩ :=
    walk_first hempty (List.length_take_le _ _) hw hc
  rw [hnew, outcome_format hc] at hformat
  rw [hentry, commit_of_decoded hdecoded.decoded hc]
  exact Support.ne_undefined hformat

/-- Where the format of an entry comes from. -/
structure Traced (events : List EntryEvent) (d : LevelData) : Prop where
  sampled : d.format = .undefined ∨ ∃ e ∈ events, e.samples d.format = true
  crashed : d.format = .undefined → d.isEmpty = false → Crashed events

theorem traced_after (events : List EntryEvent) : (after events).Traced events := by
  induction events using List.reverseRecOn with
  | nil => exact ⟨.inl rfl, fun _ h => by cases h⟩
  | append_singleton events e ih =>
    rw [after_concat]
    have hbefore : (after events).format = .undefined ∨
        ∃ e' ∈ events ++ [e], e'.samples (after events).format = true :=
      ih.sampled.imp_right fun ⟨e', he', hs⟩ => ⟨e', List.mem_append_left _ he', hs⟩
    cases e with
    | drop => exact ⟨hbefore, fun _ h => by cases h⟩
    | load src r cut =>
      have hformat := loadLevels_format src r cut (after events)
      change Traced _ (loadLevels src r cut (after events)).entry
      constructor
      · rcases hformat with hsame | hallowed
        · rw [hsame]
          exact hbefore
        · exact .inr ⟨.load src r cut, by simp, hallowed⟩
      · intro hundefined hfilled
        rcases hload : (loadLevels src r cut (after events)).outcome with _ | o
        · exact crashed_concat (by simp [EntryEvent.crashes, hload])
        rcases hempty : (after events).isEmpty with _ | _
        · rcases hformat with hsame | hallowed
          · exact (ih.crashed (hsame ▸ hundefined) hempty).concat _
          · exact absurd hundefined (Support.ne_undefined hallowed)
        · exact absurd hundefined (format_of_filled hempty hload hfilled)

/-- Whatever loads have worked on an entry before: a load hands out levels in a format that its
own device samples, unless it finds the first level in the entry, in a format that it does not
sample. Then the levels stay in the format that an earlier load chose for another device, or in
none if that load crashed before it could tell. -/
theorem format_of_shared (events : List EntryEvent)
    (hload : (loadLevels src r cut (after events)).outcome = some o) (hlevels : o.levels ≠ []) :
    (r.support.allows o.format = true ↔
        ((after events).has 0 = true → r.support.allows (after events).format = true)) ∧
      ((after events).has 0 = true → o.format = (after events).format ∧
        ((∃ e ∈ events, e.samples o.format = true) ∨
          o.format = .undefined ∧ Crashed events)) := by
  have hformat := format_of_load hload hlevels
  have htraced := traced_after events
  rcases hhas : (after events).has 0 with _ | _
  · rw [hhas] at hformat
    constructor
    · exact iff_of_true hformat (by simp)
    · simp
  · rw [hhas, if_pos rfl] at hformat
    rw [hformat]
    refine ⟨by simp, fun _ => ⟨rfl, ?_⟩⟩
    rcases htraced.sampled with hundefined | hsampled
    · exact .inr ⟨hundefined, htraced.crashed hundefined (isEmpty_of_has hhas)⟩
    · exact .inl hsampled

/-- A universal texture on a device with the given formats. -/
def universalFor (s : Support) : Request := .unscaled ["a.ktx2"] s ""

/-- A load on a device that samples the formats of desktops. -/
def loadedOnDesktop : List EntryEvent :=
  [.load (.single universalFile) (universalFor .desktop) none]

/-- A device without block formats is given the blocks that were chosen for a desktop. -/
theorem format_of_shared_universal :
    let entry := after loadedOnDesktop
    entry.has 0 = true ∧ entry.format = .bc1 ∧ Support.none.allows entry.format = false ∧
      ∃ e ∈ loadedOnDesktop, e.samples .bc1 = true := by
  intro entry
  have hload : (loadLevels (.single universalFile) (universalFor .none) none
      (after loadedOnDesktop)).outcome =
        some ⟨[⟨8, 8, some ⟨"a.ktx2", 0⟩⟩, ⟨4, 4, none⟩], .bc1, .solid, .finished, false⟩ := by
    decide +kernel
  have hhas : entry.has 0 = true := by decide +kernel
  obtain ⟨hallows, hshared⟩ := format_of_shared loadedOnDesktop hload (List.cons_ne_nil _ _)
  obtain ⟨hformat, horigin⟩ := hshared hhas
  refine ⟨hhas, hformat.symm, ?_, horigin.resolve_right fun hcrashed => nomatch hcrashed.1⟩
  rw [← Bool.not_eq_true]
  exact fun hsampled => absurd (hallows.mpr fun _ => hsampled) (by decide)

/-- A device that samples no block format gets levels in one, because another device was first. -/
theorem shared_format_is_not_sampled :
    (loadLevels (.single universalFile) (universalFor .none) none
        (after loadedOnDesktop)).outcome.map (fun o => (o.levels.length, o.format)) =
          some (2, .bc1) ∧
      Support.none.allows .bc1 = false := by
  decide +kernel

end LevelData
end TexturePack
