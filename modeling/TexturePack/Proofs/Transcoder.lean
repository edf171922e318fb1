import Mathlib
import TexturePack.Transcoder
import TexturePack.Proofs.Ktx2.Geometry

/-! What a backend hands over of a universal texture: its levels in order up to the first that
fails, none twice and nothing behind it. -/
namespace TexturePack

open Ktx2

namespace Ktx2.File

variable {file : File}

theorem geometry?_lt {level : Nat} {g : LevelGeometry} (h : file.geometry? level = .ok (some g)) :
    level < file.levels ∧ level < 32 := by
  unfold geometry? at h
  split at h
  · cases h
  split at h
  · cases h
  · omega

theorem le_of_geometry?_none {level : Nat} (h : file.geometry? level = .ok none) :
    file.levels ≤ level := by
  unfold geometry? at h
  split at h
  · assumption
  split at h <;> cases h

theorem le_of_geometry?_error {level : Nat} {fault : Fault}
    (h : file.geometry? level = .error fault) : 32 ≤ level ∧ level < file.levels := by
  unfold geometry? at h
  split at h
  · cases h
  split at h
  · omega
  · cases h

/-- A level of the file that nothing is made of. -/
def Fails (file : File) (made? : Nat → LevelGeometry → Option Bytes) (level : Nat) : Prop :=
  ∃ g, file.geometry? level = .ok (some g) ∧ made? level g = none

end Ktx2.File

/-- Levels handed over in order, each in a buffer of its own size, until one fails, the file has no
more or no more are wanted. Only a wanted level that fails is a reason to refuse the rest. -/
structure HandsOver (file : File) (target : Target) (count : Nat)
    (made? : Nat → LevelGeometry → Option Bytes) (levels : List (Nat × Bytes))
    (ending : Decode Unit) : Prop where
  order : ∃ m, IsLeast {l | l = count ∨ l = file.levels ∨ file.Fails made? l} m ∧
    levels.map Prod.fst = List.range m
  buffer : ∀ p ∈ levels, ∃ g, file.geometry? p.1 = .ok (some g) ∧ made? p.1 g = some p.2 ∧
    p.2.length = target.format.levelSize g.width g.height
  ok : ending = .ok () ↔ ∀ l < min count file.levels, ¬file.Fails made? l
  refused : (∃ e, ending = .refuse e) ↔ ∃ l < min count file.levels, file.Fails made? l

namespace HandsOver

variable {file : File} {target : Target} {count : Nat}
  {made? : Nat → LevelGeometry → Option Bytes} {levels : List (Nat × Bytes)} {ending : Decode Unit}

theorem ok_or_refused (h : HandsOver file target count made? levels ending) :
    ending = .ok () ∨ ∃ e, ending = .refuse e := by
  by_cases hfails : ∃ l < min count file.levels, file.Fails made? l
  · exact .inr (h.refused.mpr hfails)
  · exact .inl (h.ok.mpr fun l hl hf => hfails ⟨l, hl, hf⟩)

theorem lt_levels (h : HandsOver file target count made? levels ending) {p : Nat × Bytes}
    (hp : p ∈ levels) : p.1 < file.levels := by
  obtain ⟨g, hg, -⟩ := h.buffer p hp
  exact (File.geometry?_lt hg).1

/-- Where nothing is refused, all wanted levels of the file are handed over. -/
theorem exists_of_ok (h : HandsOver file target count made? levels ending) (hok : ending = .ok ())
    {level : Nat} (hcount : level < count) (hlevel : level < file.levels) :
    ∃ bytes, (level, bytes) ∈ levels := by
  obtain ⟨m, ⟨hm, -⟩, hlevels⟩ := h.order
  have hlt : level < m := by
    rcases hm with rfl | rfl | hfails
    · exact hcount
    · exact hlevel
    · by_contra hle
      exact h.ok.mp hok m (by omega) hfails
  have hmem : level ∈ levels.map Prod.fst := by
    rw [hlevels, List.mem_range]
    exact hlt
  obtain ⟨⟨_, bytes⟩, hp, rfl⟩ := List.mem_map.mp hmem
  exact ⟨bytes, hp⟩

end HandsOver

namespace Transcoder

variable {t : Transcoder} {file : File} {target : Target} {level count m asked : Nat}
  {run : Transcription}

/-- The bytes that a backend makes of a level, none if it fails. -/
def made? (t : Transcoder) (file : File) (target : Target) (level : Nat) (g : LevelGeometry) :
    Option Bytes :=
  match t.level file target level (g.layout target) with
  | .filled byteAt => some (buffer (g.layout target).size byteAt)
  | _ => none

/-- Why a run goes no further than to level `next`, with `left` more wanted. Whether that level has
still been asked for is told by `asked`. -/
inductive Stop (t : Transcoder) (file : File) (target : Target) (next left asked : Nat)
    (ending : Decode Unit) : Prop where
  | counted (hleft : left = 0) (hasked : asked = 0) (hending : ending = .ok ())
  | exhausted (hnone : file.geometry? next = .ok none) (hasked : asked = 0)
      (hending : ending = .ok ())
  | unmeasured (fault : Fault) (hfault : file.geometry? next = .error fault) (hasked : asked = 0)
      (hending : ending = .error fault)
  | failed (g : LevelGeometry) (e : FormatError) (hg : file.geometry? next = .ok (some g))
      (he : t.level file target next (g.layout target) = .failed e) (hleft : 0 < left)
      (hasked : asked = 1) (hending : ending = .refuse e)
  | crashed (g : LevelGeometry) (hg : file.geometry? next = .ok (some g))
      (hcrash : t.level file target next (g.layout target) = .crashed) (hleft : 0 < left)
      (hasked : asked = 1) (hending : ending = .crash .transcoder)

/-- A run over `count` levels from `level` on that hands over `m` of them. -/
structure Course (t : Transcoder) (file : File) (target : Target) (level count m asked : Nat)
    (run : Transcription) : Prop where
  le_count : m ≤ count
  levels : run.levels.map Prod.fst = List.range' level m
  made : ∀ p ∈ run.levels, ∃ g, file.geometry? p.1 = .ok (some g) ∧
    t.made? file target p.1 g = some p.2
  requests : run.requests.map LevelRequest.level = List.range' level (m + asked)
  stop : t.Stop file target (level + m) (count - m) asked run.ending

/-- A run that stops where it starts. -/
theorem Course.ended {ending : Decode Unit} {requests : List LevelRequest}
    (hrequests : requests.map LevelRequest.level = List.range' level asked)
    (h : t.Stop file target level count asked ending) :
    t.Course file target level count 0 asked ⟨[], requests, ending⟩ where
  le_count := Nat.zero_le count
  levels := rfl
  made := by simp
  requests := by rw [hrequests, Nat.zero_add]
  stop := h

/-- One level more in front of a run. -/
theorem Course.deliver {g : LevelGeometry} {byteAt : Nat → UInt8}
    (hg : file.geometry? level = .ok (some g))
    (hbytes : t.level file target level (g.layout target) = .filled byteAt)
    (h : t.Course file target (level + 1) count m asked run) :
    t.Course file target level (count + 1) (m + 1) asked
      (.request ⟨level, target, g.layout target⟩
        (.deliver level (buffer (g.layout target).size byteAt) run)) where
  le_count := Nat.succ_le_succ h.le_count
  levels := by
    rw [List.range'_succ, ← h.levels]
    rfl
  made := by
    refine List.forall_mem_cons.mpr ⟨⟨g, hg, ?_⟩, h.made⟩
    rw [made?, hbytes]
  requests := by
    rw [Nat.add_right_comm, List.range'_succ, ← h.requests]
    rfl
  stop := by
    rw [← Nat.add_assoc, Nat.add_right_comm, Nat.add_sub_add_right]
    exact h.stop

/-- Every run takes such a course. -/
theorem levelsFrom_course (t : Transcoder) (file : File) (target : Target) (level count : Nat) :
    ∃ m asked, t.Course file target level count m asked
      (t.levelsFrom file target level count) := by
  -- By induction on what is still wanted; the first level moves on with each that is delivered.
  induction count generalizing level with
  | zero => exact ⟨0, 0, .ended rfl (.counted rfl rfl rfl)⟩
  | succ count ih =>
    rw [levelsFrom]
    rcases hg : file.geometry? level with fault | _ | g
    · exact ⟨0, 0, .ended rfl (.unmeasured fault hg rfl rfl)⟩
    · exact ⟨0, 0, .ended rfl (.exhausted hg rfl rfl)⟩
    have hleft := Nat.succ_pos count
    rcases hlevel : t.level file target level (g.layout target) with byteAt | e | _
    · obtain ⟨m, asked, h⟩ := ih (level + 1)
      simp only [hlevel]
      exact ⟨m + 1, asked, h.deliver hg hlevel⟩
    · simp only [hlevel]
      exact ⟨0, 1, .ended rfl (.failed g e hg hlevel hleft rfl rfl)⟩
    · simp only [hlevel]
      exact ⟨0, 1, .ended rfl (.crashed g hg hlevel hleft rfl rfl)⟩

namespace Course

/-- No level that has been handed over has failed. -/
theorem passed (h : t.Course file target 0 count m asked run) {l : Nat} (hl : l < m) :
    l < file.levels ∧ l < 32 ∧ ¬file.Fails (t.made? file target) l := by
  have hmem : l ∈ run.levels.map Prod.fst := by
    rw [h.levels, ← List.range_eq_range', List.mem_range]
    exact hl
  obtain ⟨p, hp, rfl⟩ := List.mem_map.mp hmem
  obtain ⟨g, hg, hmade⟩ := h.made p hp
  obtain ⟨hlevels, hdepth⟩ := File.geometry?_lt hg
  refine ⟨hlevels, hdepth, fun ⟨g', hg', hnone⟩ => ?_⟩
  rw [hg] at hg'
  cases hg'
  rw [hmade] at hnone
  cases hnone

theorem le_levels (h : t.Course file target 0 count m asked run) :
    m ≤ file.levels ∧ m ≤ 32 := by
  rcases m with _ | m
  · exact ⟨Nat.zero_le _, Nat.zero_le _⟩
  · obtain ⟨hlevels, hdepth, -⟩ := h.passed (Nat.lt_succ_self m)
    exact ⟨hlevels, hdepth⟩

/-- A run stops when enough has been handed over, at the end of the file, at a level without a size,
or at one that fails. -/
theorem stop_cases (h : t.Course file target 0 count m asked run) :
    (asked = 0 ∧ (m = count ∨ m = file.levels) ∧ run.ending = .ok ()) ∨
      (asked = 0 ∧ m = 32 ∧ m < file.levels) ∨
      (asked = 1 ∧ m < count ∧ file.Fails (t.made? file target) m ∧
        ((∃ e, run.ending = .refuse e) ∨ ∃ layout, t.level file target m layout = .crashed)) := by
  have hstop := h.stop
  rw [Nat.zero_add] at hstop
  rcases hstop with ⟨hleft, hasked, hend⟩ | ⟨hnone, hasked, hend⟩ | ⟨fault, hfault, hasked, -⟩ |
    ⟨g, e, hg, he, hleft, hasked, hend⟩ | ⟨g, hg, hcrash, hleft, hasked, -⟩
  case counted => exact .inl ⟨hasked, .inl (by have := h.le_count; omega), hend⟩
  case exhausted =>
    exact .inl ⟨hasked, .inr (le_antisymm h.le_levels.1 (File.le_of_geometry?_none hnone)), hend⟩
  case unmeasured =>
    obtain ⟨hdeep, hlevel⟩ := File.le_of_geometry?_error hfault
    exact .inr (.inl ⟨hasked, le_antisymm h.le_levels.2 hdeep, hlevel⟩)
  case failed =>
    exact .inr (.inr ⟨hasked, by omega, ⟨g, hg, by rw [made?, he]⟩, .inl ⟨e, hend⟩⟩)
  case crashed =>
    exact .inr (.inr ⟨hasked, by omega, ⟨g, hg, by rw [made?, hcrash]⟩, .inr ⟨_, hcrash⟩⟩)

/-- No level before the end of a run fails. -/
theorem le_of_fails (h : t.Course file target 0 count m asked run) {l : Nat}
    (hl : file.Fails (t.made? file target) l) : m ≤ l :=
  Nat.le_of_not_lt fun hlt => (h.passed hlt).2.2 hl

/-- As many levels are handed over as come before the first that fails. -/
theorem isLeast_levels (h : t.Course file target 0 count m asked run) (hdepth : file.levels ≤ 32) :
    IsLeast {l | l = count ∨ l = file.levels ∨ file.Fails (t.made? file target) l} m := by
  constructor
  · rcases h.stop_cases with ⟨-, hm | hm, -⟩ | ⟨-, hm, hlt⟩ | ⟨-, -, hfails, -⟩
    · exact .inl hm
    · exact .inr (.inl hm)
    · omega
    · exact .inr (.inr hfails)
  · rintro l (rfl | rfl | hfails)
    · exact h.le_count
    · exact h.le_levels.1
    · exact h.le_of_fails hfails

/-- Only levels that are wanted and have a size are asked for. -/
theorem requests_le (h : t.Course file target 0 count m asked run) :
    m + asked ≤ count ∧ m + asked ≤ file.levels ∧ m + asked ≤ 32 ∧ asked ≤ 1 := by
  obtain ⟨hlevels, hdepth⟩ := h.le_levels
  have hcount := h.le_count
  rcases h.stop_cases with ⟨rfl, -⟩ | ⟨rfl, -⟩ | ⟨rfl, hlt, ⟨g, hg, -⟩, -⟩
  · omega
  · omega
  · have hin := File.geometry?_lt hg
    omega

/-- Levels are asked for up to the first that fails, and that one as well. -/
theorem isLeast_requests (h : t.Course file target 0 count m asked run) :
    IsLeast {k | k = count ∨ k = file.levels ∨ k = 32 ∨
      ∃ l, file.Fails (t.made? file target) l ∧ k = l + 1} (m + asked) := by
  obtain ⟨hcount, hlevels, hdepth, hasked⟩ := h.requests_le
  constructor
  · rcases h.stop_cases with ⟨rfl, hm | hm, -⟩ | ⟨rfl, hm, -⟩ | ⟨rfl, -, hfails, -⟩
    · exact .inl hm
    · exact .inr (.inl hm)
    · exact .inr (.inr (.inl hm))
    · exact .inr (.inr (.inr ⟨m, hfails, rfl⟩))
  · rintro k (rfl | rfl | rfl | ⟨l, hfails, rfl⟩)
    · exact hcount
    · exact hlevels
    · exact hdepth
    · exact Nat.add_le_add (h.le_of_fails hfails) hasked

end Course

/-- A backend fills buffers, and these have the sizes of their levels. -/
theorem length_made? {data : Bytes} (hf : File.parse data = .ok file) {g : LevelGeometry}
    (hg : file.geometry? level = .ok (some g)) {bytes : Bytes}
    (hmade : t.made? file target level g = some bytes) :
    bytes.length = target.format.levelSize g.width g.height := by
  obtain ⟨-, hmeasured⟩ := File.parse_eq_ok hf
  obtain rfl := Harvest.geometry?_eq_some hg
  rw [← (measures_ofSize hmeasured level).size target]
  unfold made? at hmade
  split at hmade
  · cases hmade
    rw [buffer, List.length_map, List.length_range]
  · cases hmade

/-- What a backend hands over once it has been started. -/
theorem handsOver_levelsFrom (t : Transcoder) {data : Bytes} (hf : File.parse data = .ok file)
    (hdepth : file.levels ≤ 32) (target : Target) (count : Nat)
    (hsound : ∀ level layout, t.level file target level layout ≠ .crashed) :
    HandsOver file target count (t.made? file target)
      (t.levelsFrom file target 0 count).levels (t.levelsFrom file target 0 count).ending := by
  obtain ⟨m, asked, h⟩ := t.levelsFrom_course file target 0 count
  generalize t.levelsFrom file target 0 count = run at h
  have hending : (run.ending = .ok () ∧ ∀ l < min count file.levels,
        ¬file.Fails (t.made? file target) l) ∨
      ((∃ e, run.ending = .refuse e) ∧ ∃ l < min count file.levels,
        file.Fails (t.made? file target) l) := by
    rcases h.stop_cases with ⟨-, hm, hend⟩ | ⟨-, hm, hlt⟩ | ⟨-, hlt, hfails, hend | ⟨_, hcrash⟩⟩
    · refine .inl ⟨hend, fun l hl hfails => ?_⟩
      have := h.le_of_fails hfails
      omega
    · omega
    · obtain ⟨g, hg, hnone⟩ := hfails
      exact .inr ⟨hend, m, lt_min hlt (File.geometry?_lt hg).1, g, hg, hnone⟩
    · exact absurd hcrash (hsound _ _)
  refine ⟨⟨m, h.isLeast_levels hdepth, ?_⟩, fun p hp => ?_, ?_, ?_⟩
  · rw [h.levels, List.range_eq_range']
  · obtain ⟨g, hg, hmade⟩ := h.made p hp
    exact ⟨g, hg, hmade, length_made? hf hg hmade⟩
  · rcases hending with ⟨hend, hall⟩ | ⟨⟨e, hend⟩, l, hl, hfails⟩
    · exact iff_of_true hend hall
    · exact iff_of_false (by rw [hend]; exact nofun) fun hall => hall l hl hfails
  · rcases hending with ⟨hend, hall⟩ | ⟨hend, hfails⟩
    · exact iff_of_false (by rw [hend]; exact nofun) fun ⟨l, hl, hfails⟩ => hall l hl hfails
    · exact iff_of_true hend hfails

end Transcoder
end TexturePack
