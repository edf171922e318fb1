import Mathlib
import TexturePack.KtxLibrary
import TexturePack.Proofs.Transcoder

/-! What a transcoding library is asked for, and what it hands over. A texture that has been created
is destroyed after all other calls, however they end. -/
namespace TexturePack

open Ktx2

theorem buffer_getD (bytes : Bytes) : buffer bytes.length (bytes.getD · 0) = bytes := by
  refine List.ext_getElem (by simp [buffer]) fun i _ hi => ?_
  simp [buffer, hi]

namespace KtxLibrary

variable {lib : KtxLibrary} {file : File} {target : Target} {data : Bytes}

theorem check_of_success (lib : KtxLibrary) {code : Int} (h : code = 0) (call : String) :
    lib.check code call = .ok () := if_pos h

theorem check_of_failure (lib : KtxLibrary) {code : Int} (h : code ≠ 0) (call : String) :
    ∃ e, lib.check code call = .error e := ⟨_, if_neg h⟩

/-- What a library makes of a level: the bytes of its data at the offset that it reports. -/
def level? (lib : KtxLibrary) (target : Target) (level : Nat) (g : LevelGeometry) : Option Bytes :=
  lib.data.bind fun data =>
    if (lib.imageOffset level).1 = 0 then
      data.range? (lib.imageOffset level).2 (g.layout target).size
    else none

theorem level?_eq_some_iff {level : Nat} {g : LevelGeometry} {bytes : Bytes} :
    lib.level? target level g = some bytes ↔
      ∃ data, lib.data = some data ∧ (lib.imageOffset level).1 = 0 ∧
        (lib.imageOffset level).2 + (g.layout target).size ≤ data.length ∧
        data.slice (lib.imageOffset level).2 (g.layout target).size = bytes := by
  rw [level?, Option.bind_eq_some_iff]
  simp only [Option.ite_none_right_eq_some, Bytes.range?_eq_some]

/-- Reading a level from the data either finds its bytes or fails. -/
theorem levelBytes_cases (hdata : lib.data = some data) (target : Target) (level : Nat)
    (g : LevelGeometry) :
    (∃ bytes, lib.levelBytes data level (g.layout target).size = .ok bytes ∧
        bytes.length = (g.layout target).size ∧ lib.level? target level g = some bytes) ∨
      ∃ e, lib.levelBytes data level (g.layout target).size = .error e ∧
        lib.level? target level g = none := by
  rw [level?, hdata, Option.bind_some, levelBytes]
  by_cases hcode : (lib.imageOffset level).1 = 0
  · rw [if_pos hcode]
    simp only [lib.check_of_success hcode]
    rcases hrange : data.range? (lib.imageOffset level).2 (g.layout target).size with _ | bytes
    · exact .inr ⟨_, rfl, rfl⟩
    · refine .inl ⟨bytes, rfl, ?_, rfl⟩
      obtain ⟨hin, rfl⟩ := Bytes.range?_eq_some.mp hrange
      rw [Bytes.length_slice]
      omega
  · obtain ⟨e, he⟩ := lib.check_of_failure hcode "image offset"
    rw [if_neg hcode]
    simp only [he]
    exact .inr ⟨e, rfl, trivial⟩

/-- Seen as a backend, a library fills the buffer of a level with its bytes. -/
theorem transcoder_level (hdata : lib.data = some data) (level : Nat) (layout : Layout) :
    lib.transcoder.level file target level layout =
      match lib.levelBytes data level layout.size with
      | .error e => .failed e
      | .ok bytes => .filled (bytes.getD · 0) := by
  rw [transcoder, hdata]
  rfl

theorem made?_transcoder (hdata : lib.data = some data) :
    lib.transcoder.made? file target = lib.level? target := by
  funext level g
  rw [Transcoder.made?, transcoder_level hdata]
  rcases levelBytes_cases hdata target level g with
    ⟨bytes, hbytes, hlength, hlevel⟩ | ⟨e, he, hlevel⟩
  · simp only [hbytes, hlevel]
    rw [← hlength, buffer_getD]
  · simp only [he, hlevel]

/-- What a backend was asked for, as questions to a library. -/
def Run.ofTranscription (t : Transcription) : Run :=
  ⟨t.requests.map (.imageOffset ·.level 0 0), t.levels, t.ending⟩

/-- On the data of a texture a library is such a backend, level by level. -/
theorem levelsFrom_eq (hdata : lib.data = some data) (level count : Nat) :
    lib.levelsFrom data file target level count =
      .ofTranscription (lib.transcoder.levelsFrom file target level count) := by
  induction count generalizing level with
  | zero => rfl
  | succ count ih =>
    rw [levelsFrom, Transcoder.levelsFrom]
    rcases file.geometry? level with fault | _ | g
    · rfl
    · rfl
    simp only [transcoder_level hdata]
    rcases levelBytes_cases hdata target level g with ⟨bytes, hbytes, hlength, -⟩ | ⟨e, he, -⟩
    · simp only [hbytes]
      rw [ih, ← hlength, buffer_getD]
      rfl
    · simp only [he]
      rfl

/-- The levels of a backend behind a preparation that may have failed. -/
def levelsAfter (lib : KtxLibrary) (prepared : Except FormatError Unit) (file : File) (count : Nat)
    (target : Target) : Transcription :=
  match prepared with
  | .error e => .ended (.refuse e)
  | .ok () => lib.transcoder.levelsFrom file target 0 count

/-- Whether there is data to read levels from. -/
def hasData (lib : KtxLibrary) : Except FormatError Unit :=
  if lib.data.isNone then .error (.transcode .noData) else .ok ()

theorem readBack_eq (lib : KtxLibrary) (file : File) (count : Nat) (target : Target) :
    lib.readBack file count target =
      .ofTranscription (lib.levelsAfter lib.hasData file count target) := by
  unfold readBack hasData
  rcases hdata : lib.data with _ | data
  · rfl
  · exact levelsFrom_eq hdata 0 count

/-- What is left to prepare once there is a texture. -/
def prepare (lib : KtxLibrary) (file : File) : Except FormatError Unit := do
  if file.payload?.isSome then lib.check lib.transcodeCode "transcode"
  lib.hasData

theorem withTexture_eq (lib : KtxLibrary) (file : File) (count : Nat) (target : Target) :
    lib.withTexture file count target =
      { Run.ofTranscription (lib.levelsAfter (lib.prepare file) file count target) with
        calls := (if file.payload?.isSome then [.transcode (formatNumber target) 0] else []) ++
          (Run.ofTranscription (lib.levelsAfter (lib.prepare file) file count target)).calls } := by
  unfold withTexture prepare
  split
  · rcases lib.check lib.transcodeCode "transcode" with e | ⟨⟩
    · rfl
    · rw [readBack_eq]
      rfl
  · rw [readBack_eq]
    rfl

/-- A library that has made a texture. -/
def Creates (lib : KtxLibrary) : Prop := lib.createCode = 0 ∧ lib.createsNothing = false

instance (lib : KtxLibrary) : Decidable lib.Creates := by
  unfold Creates
  infer_instance

theorem start_of_creates (h : lib.Creates) :
    lib.transcoder.start file target = lib.prepare file := by
  simp only [transcoder, lib.check_of_success h.1, h.2]
  rfl

theorem transcodeLevels_of_not_creates (h : ¬lib.Creates) (file : File) (count : Nat)
    (target : Target) :
    ∃ e, lib.transcoder.start file target = .error e ∧
      lib.transcodeLevels file count target =
        ⟨[.create file.data.length loadData], [], .refuse e⟩ := by
  by_cases hcreate : lib.createCode = 0
  · have hnothing : lib.createsNothing = true := by
      rw [← Bool.not_eq_false]
      exact fun hnothing => h ⟨hcreate, hnothing⟩
    refine ⟨.transcode .noTexture, ?_, ?_⟩
    · simp only [transcoder, lib.check_of_success hcreate, hnothing]
      rfl
    · rw [transcodeLevels, lib.check_of_success hcreate, hnothing]
      rfl
  · obtain ⟨e, he⟩ := lib.check_of_failure hcreate "create"
    refine ⟨e, ?_, ?_⟩
    · simp only [transcoder, he]
      rfl
    · rw [transcodeLevels, he]
      rfl

/-- The calls to a texture of which some levels have been asked for. -/
def conversation (file : File) (target : Target) (asked : List Nat) : List Call :=
  Call.create file.data.length loadData ::
    ((if file.payload?.isSome then [Call.transcode (formatNumber target) 0] else []) ++
      (asked.map (Call.imageOffset · 0 0) ++ [Call.destroy]))

/-- A library behaves as the backend that it is seen as, and each request to that is a question for
an offset. -/
theorem transcodeLevels_eq (lib : KtxLibrary) (file : File) (count : Nat) (target : Target) :
    lib.transcodeLevels file count target =
      ⟨if lib.Creates then
          conversation file target
            ((lib.transcoder.transcode file count target).requests.map LevelRequest.level)
        else [.create file.data.length loadData],
        (lib.transcoder.transcode file count target).levels,
        (lib.transcoder.transcode file count target).ending⟩ := by
  by_cases h : lib.Creates
  · have hrun : lib.transcoder.transcode file count target =
        lib.levelsAfter (lib.prepare file) file count target := by
      rw [Transcoder.transcode, start_of_creates h]
      rfl
    rw [if_pos h, transcodeLevels, lib.check_of_success h.1, h.2, withTexture_eq, hrun,
      conversation, List.map_map, ← List.append_assoc]
    rfl
  · obtain ⟨e, hstart, hrun⟩ := lib.transcodeLevels_of_not_creates h file count target
    rw [if_neg h, hrun, Transcoder.transcode, hstart]
    rfl

/-- All goes well between the texture and its first level. -/
def Ready (lib : KtxLibrary) (file : File) : Prop :=
  (file.payload?.isSome = true → lib.transcodeCode = 0) ∧ lib.data.isSome = true

theorem prepare_of_ready (h : lib.Ready file) : lib.prepare file = .ok () := by
  obtain ⟨hcode, hdata⟩ := h
  have hhas : lib.hasData = .ok () := if_neg (by rw [Option.isNone_eq_false_iff.mpr hdata]; decide)
  unfold prepare
  split
  next hpayload =>
    rw [lib.check_of_success (hcode hpayload), hhas]
    rfl
  next => exact hhas

theorem prepare_of_not_ready (h : ¬lib.Ready file) : ∃ e, lib.prepare file = .error e := by
  have hhas : lib.data.isSome = true ∨ lib.hasData = .error (.transcode .noData) := by
    rcases hdata : lib.data with _ | data
    · exact .inr (if_pos (by rw [hdata]; rfl))
    · exact .inl rfl
  unfold prepare
  split
  next hpayload =>
    by_cases hcode : lib.transcodeCode = 0
    · rw [lib.check_of_success hcode]
      exact ⟨_, hhas.resolve_left fun hdata => h ⟨fun _ => hcode, hdata⟩⟩
    · obtain ⟨e, he⟩ := lib.check_of_failure hcode "transcode"
      rw [he]
      exact ⟨e, rfl⟩
  next hpayload => exact ⟨_, hhas.resolve_left fun hdata => h ⟨fun hp => absurd hp hpayload, hdata⟩⟩

/-- A texture that is there, transcoded and with data is read level by level. -/
theorem transcode_of_ready (hcreates : lib.Creates) (hready : lib.Ready file) (count : Nat)
    (target : Target) :
    lib.transcoder.transcode file count target = lib.transcoder.levelsFrom file target 0 count := by
  rw [Transcoder.transcode, start_of_creates hcreates, prepare_of_ready hready]

theorem transcode_of_not_ready (h : ¬(lib.Creates ∧ lib.Ready file)) (count : Nat)
    (target : Target) :
    ∃ e, lib.transcoder.transcode file count target = .ended (.refuse e) := by
  have hstart : ∃ e, lib.transcoder.start file target = .error e := by
    by_cases hcreates : lib.Creates
    · obtain ⟨e, he⟩ := prepare_of_not_ready fun hready => h ⟨hcreates, hready⟩
      exact ⟨e, (start_of_creates hcreates).trans he⟩
    · obtain ⟨e, he, -⟩ := lib.transcodeLevels_of_not_creates hcreates file count target
      exact ⟨e, he⟩
  obtain ⟨e, he⟩ := hstart
  exact ⟨e, by rw [Transcoder.transcode, he]⟩

/-- A library never gives up without an answer. -/
theorem transcoder_level_ne_crashed (lib : KtxLibrary) (file : File) (target : Target) (level : Nat)
    (layout : Layout) : lib.transcoder.level file target level layout ≠ .crashed := by
  unfold transcoder
  simp only
  split <;> exact nofun

/-- What a library hands over. -/
theorem transcodeLevels_cases (lib : KtxLibrary) (hf : File.parse data = .ok file)
    (hdepth : file.levels ≤ 32) (target : Target) (count : Nat) :
    ((lib.Creates ∧ lib.Ready file) ∧
        HandsOver file target count (lib.level? target)
          (lib.transcodeLevels file count target).levels
          (lib.transcodeLevels file count target).ending) ∨
      (¬(lib.Creates ∧ lib.Ready file) ∧ (lib.transcodeLevels file count target).levels = [] ∧
        ∃ e, (lib.transcodeLevels file count target).ending = .refuse e) := by
  rw [transcodeLevels_eq]
  by_cases h : lib.Creates ∧ lib.Ready file
  · obtain ⟨found, hfound⟩ := Option.isSome_iff_exists.mp h.2.2
    have hover := lib.transcoder.handsOver_levelsFrom hf hdepth target count
      (lib.transcoder_level_ne_crashed file target)
    rw [made?_transcoder hfound, ← transcode_of_ready h.1 h.2] at hover
    exact .inl ⟨h, hover⟩
  · obtain ⟨e, he⟩ := transcode_of_not_ready h count target
    rw [he]
    exact .inr ⟨h, rfl, e, rfl⟩

/-- Every level that a library hands over has its size. -/
theorem geometry_of_mem (hf : File.parse data = .ok file) (hdepth : file.levels ≤ 32)
    {count level : Nat} {bytes : Bytes}
    (hp : (level, bytes) ∈ (lib.transcodeLevels file count target).levels) :
    level < file.levels ∧ ∃ g, file.geometry? level = .ok (some g) ∧
      lib.level? target level g = some bytes ∧
      bytes.length = target.format.levelSize g.width g.height := by
  rcases lib.transcodeLevels_cases hf hdepth target count with ⟨-, hover⟩ | ⟨-, hnone, -⟩
  · exact ⟨hover.lt_levels hp, hover.buffer _ hp⟩
  · rw [hnone] at hp
    cases hp

theorem exists_mem_of_ok (hf : File.parse data = .ok file) (hdepth : file.levels ≤ 32)
    {count level : Nat} (hok : (lib.transcodeLevels file count target).ending = .ok ())
    (hcount : level < count) (hlevel : level < file.levels) :
    ∃ bytes, (level, bytes) ∈ (lib.transcodeLevels file count target).levels := by
  rcases lib.transcodeLevels_cases hf hdepth target count with ⟨-, hover⟩ | ⟨-, -, e, he⟩
  · exact hover.exists_of_ok hok hcount hlevel
  · rw [he] at hok
    cases hok

theorem ok_or_refused (lib : KtxLibrary) (hf : File.parse data = .ok file)
    (hdepth : file.levels ≤ 32) (target : Target) (count : Nat) :
    (lib.transcodeLevels file count target).ending = .ok () ∨
      ∃ e, (lib.transcodeLevels file count target).ending = .refuse e := by
  rcases lib.transcodeLevels_cases hf hdepth target count with ⟨-, hover⟩ | ⟨-, -, hend⟩
  · exact hover.ok_or_refused
  · exact .inr hend

/-- One level is taken out of a run over all levels up to it, if the run ends well and has the level
in the size of the buffer. -/
theorem transcodeLevel_cases (lib : KtxLibrary) (file : File) (level : Nat) (target : Target)
    (out : Bytes) :
    (∃ bytes, (lib.transcodeLevels file (countThrough level) target).ending = .ok () ∧
        (level, bytes) ∈ (lib.transcodeLevels file (countThrough level) target).levels ∧
        bytes.length = out.length ∧
        (lib.transcodeLevel file level target out).2 = (.ok (), bytes)) ∨
      (∃ fault, (lib.transcodeLevels file (countThrough level) target).ending = .error fault ∧
        (lib.transcodeLevel file level target out).2 = (.error fault, out)) ∨
      ((∀ bytes, (level, bytes) ∈ (lib.transcodeLevels file (countThrough level) target).levels →
          ∃ bytes', (level, bytes') ∈
              (lib.transcodeLevels file (countThrough level) target).levels ∧
            bytes'.length ≠ out.length) ∧
        (lib.transcodeLevel file level target out).2 =
          (.refuse (.transcode (.notProduced level)), out)) := by
  unfold transcodeLevel
  generalize lib.transcodeLevels file (countThrough level) target = run
  simp only
  rcases run.ending with fault | ⟨⟩
  · exact .inr (.inl ⟨fault, rfl, rfl⟩)
  rcases hfind : run.levels.find? fun p => p.1 = level with _ | ⟨l, bytes⟩
  · simp only [hfind]
    refine .inr (.inr ⟨fun bytes hp => ?_, trivial⟩)
    simpa using List.find?_eq_none.mp hfind _ hp
  obtain rfl : l = level := by simpa using List.find?_some hfind
  have hmem := List.mem_of_find?_eq_some hfind
  simp only [hfind]
  by_cases hlength : bytes.length = out.length
  · exact .inl ⟨bytes, trivial, hmem, hlength, by rw [if_pos hlength]⟩
  · exact .inr (.inr ⟨fun _ _ => ⟨bytes, hmem, hlength⟩, by rw [if_neg hlength]⟩)

/-- Counts are cut where they do not fit their word, which is far behind the last level. -/
theorem countThrough_of_lt {level : Nat} (h : level < 32) : countThrough level = level + 1 :=
  Nat.min_eq_left (Nat.le_of_lt_succ (Nat.lt_of_lt_of_le (Nat.succ_lt_succ h) (by decide)))

/-- One level comes out exactly if it is in the file, all levels up to it come out, and it fills the
buffer. Otherwise the buffer stays as it is. -/
structure FillsOrLeaves (lib : KtxLibrary) (file : File) (target : Target) (level : Nat)
    (out : Bytes) : Prop where
  ok : (lib.transcodeLevel file level target out).2.1 = .ok () ↔
    level < file.levels ∧ (lib.transcodeLevels file (level + 1) target).ending = .ok () ∧
      ∃ g, file.geometry? level = .ok (some g) ∧
        out.length = target.format.levelSize g.width g.height
  written : (lib.transcodeLevel file level target out).2.1 = .ok () →
    (level, (lib.transcodeLevel file level target out).2.2) ∈
      (lib.transcodeLevels file (level + 1) target).levels
  untouched : (lib.transcodeLevel file level target out).2.1 ≠ .ok () →
    (lib.transcodeLevel file level target out).2.2 = out ∧
      ∃ e, (lib.transcodeLevel file level target out).2.1 = .refuse e

/-- A refusal that has a reason leaves the buffer alone. -/
theorem FillsOrLeaves.of_refused {level : Nat} {out : Bytes} {e : FormatError}
    (hrun : (lib.transcodeLevel file level target out).2 = (.refuse e, out))
    (hreason : ¬(level < file.levels ∧
      (lib.transcodeLevels file (level + 1) target).ending = .ok () ∧
      ∃ g, file.geometry? level = .ok (some g) ∧
        out.length = target.format.levelSize g.width g.height)) :
    lib.FillsOrLeaves file target level out := by
  constructor
  · rw [hrun]
    exact iff_of_false nofun hreason
  · rw [hrun]
    exact nofun
  · rw [hrun]
    exact fun _ => ⟨rfl, e, rfl⟩

theorem fillsOrLeaves (lib : KtxLibrary) (hf : File.parse data = .ok file)
    (hdepth : file.levels ≤ 32) (target : Target) (level : Nat) (out : Bytes) :
    lib.FillsOrLeaves file target level out := by
  have hcount : level < file.levels → countThrough level = level + 1 :=
    fun hlevel => countThrough_of_lt (hlevel.trans_le hdepth)
  rcases lib.transcodeLevel_cases file level target out with ⟨bytes, hend, hmem, hlength, hrun⟩ |
    ⟨fault, hend, hrun⟩ | ⟨hmissing, hrun⟩
  -- The level has been found.
  · obtain ⟨hlevel, g, hg, -, hsize⟩ := geometry_of_mem hf hdepth hmem
    rw [hcount hlevel] at hend hmem
    constructor
    · rw [hrun]
      exact iff_of_true rfl ⟨hlevel, hend, g, hg, hlength ▸ hsize⟩
    · rw [hrun]
      exact fun _ => hmem
    · rw [hrun]
      exact fun h => absurd rfl h
  -- The run over the levels up to it has failed.
  · obtain ⟨e, he⟩ := (lib.ok_or_refused hf hdepth target (countThrough level)).resolve_left
      (by rw [hend]; exact nofun)
    obtain rfl : fault = .format e := Except.error.inj (hend.symm.trans he)
    refine .of_refused hrun fun ⟨hlevel, hok, _⟩ => ?_
    rw [hcount hlevel, hok] at hend
    cases hend
  -- The run has ended well, but without the level in this size.
  · refine .of_refused hrun fun ⟨hlevel, hok, g, hg, hsize⟩ => ?_
    rw [hcount hlevel] at hmissing
    obtain ⟨bytes, hmem⟩ := exists_mem_of_ok hf hdepth hok (Nat.lt_succ_self level) hlevel
    obtain ⟨bytes', hmem', hother⟩ := hmissing bytes hmem
    obtain ⟨-, g', hg', -, hsize'⟩ := geometry_of_mem hf hdepth hmem'
    rw [hg] at hg'
    cases hg'
    exact hother (hsize'.trans hsize.symm)

/-- Levels are handed over in order up to the first that fails, by a backend that makes one at a
time and by a library alike. What a library hands over are pieces of its data, and a single level is
one of these. -/
theorem hands_over_prefix (hf : File.parse data = .ok file) (hdepth : file.levels ≤ 32)
    (target : Target) (count : Nat) :
    (∀ supports level, (∀ l layout, level file target l layout ≠ LevelResult.crashed) →
        HandsOver file target count ((Transcoder.ofLevels supports level).made? file target)
          ((Transcoder.ofLevels supports level).transcode file count target).levels
          ((Transcoder.ofLevels supports level).transcode file count target).ending) ∧
      ∀ lib : KtxLibrary,
        (lib.Creates ∧ lib.Ready file →
            HandsOver file target count (lib.level? target)
              (lib.transcodeLevels file count target).levels
              (lib.transcodeLevels file count target).ending) ∧
          (¬(lib.Creates ∧ lib.Ready file) →
            (lib.transcodeLevels file count target).levels = [] ∧
              ∃ e, (lib.transcodeLevels file count target).ending = .refuse e) ∧
          (∀ p ∈ (lib.transcodeLevels file count target).levels, ∃ found, lib.data = some found ∧
            (lib.imageOffset p.1).1 = 0 ∧
            (lib.imageOffset p.1).2 + p.2.length ≤ found.length ∧
            p.2 = found.slice (lib.imageOffset p.1).2 p.2.length) ∧
          ∀ level out, lib.FillsOrLeaves file target level out := by
  refine ⟨fun supports level hsound =>
    Transcoder.handsOver_levelsFrom _ hf hdepth target count hsound, fun lib => ?_⟩
  have hcases := lib.transcodeLevels_cases hf hdepth target count
  refine ⟨fun h => ?_, fun h => ?_, fun p hp => ?_, lib.fillsOrLeaves hf hdepth target⟩
  · exact (hcases.resolve_right fun hnot => hnot.1 h).2
  · exact (hcases.resolve_left fun hready => h hready.1).2
  · obtain ⟨-, g, -, hlevel, -⟩ := geometry_of_mem hf hdepth hp
    obtain ⟨found, hfound, hcode, hin, hslice⟩ := level?_eq_some_iff.mp hlevel
    have hlength : p.2.length = (g.layout target).size := by
      rw [← hslice, Bytes.length_slice]
      omega
    rw [hlength]
    exact ⟨found, hfound, hcode, hin, hslice.symm⟩

/-- A file of 8x4 pixels with two levels. -/
def twoLevelFile : Bytes :=
  Ktx2.identifier ++
    [0, 0, 0, 0, 1, 0, 0, 0, 8, 0, 0, 0, 4, 0, 0, 0, 0, 0, 0, 0, 0, 0, 0, 0, 1, 0, 0, 0,
      2, 0, 0, 0, 1, 0, 0, 0] ++ Bytes.zeros (32 + 2 * 24)

/-- A library whose data ends within the second level. -/
def shortLibrary : KtxLibrary where
  createCode := 0
  createsNothing := false
  transcodeCode := 0
  data := some (List.replicate 16 7 ++ [8, 8, 8, 8])
  imageOffset level := (0, 16 * level)
  errorText _ := none

/-- A backend that makes only the first level. -/
def firstLevelOnly (level : Nat) : LevelResult :=
  if level = 0 then .filled fun _ => 0xAA else .failed (.transcode (.backend "bad level"))

theorem hands_over_prefix_twoLevels :
    File.parse twoLevelFile = .ok (.ofBytes twoLevelFile) ∧
      (File.ofBytes twoLevelFile).levels ≤ 32 ∧
      (∃ e, ((Transcoder.ofLevels (fun _ => true) fun _ _ level _ => firstLevelOnly level).transcode
        (.ofBytes twoLevelFile) 2 .bc1).ending = .refuse e) ∧
      (∃ e, (shortLibrary.transcodeLevels (.ofBytes twoLevelFile) 2 .bc1).ending = .refuse e) ∧
      (shortLibrary.transcodeLevel (.ofBytes twoLevelFile) 0 .bc1 (.replicate 16 0)).2.1 =
        .ok () ∧
      (shortLibrary.transcodeLevel (.ofBytes twoLevelFile) 1 .bc1 (.replicate 8 0)).2.2 =
        .replicate 8 0 := by
  have hparse : File.parse twoLevelFile = .ok (.ofBytes twoLevelFile) := by decide +kernel
  have hdepth : (File.ofBytes twoLevelFile).levels ≤ 32 := by decide +kernel
  have hlevel : File.geometry? (.ofBytes twoLevelFile) 1 = .ok (some (.ofSize 4 2)) := by
    decide +kernel
  have hwanted : 1 < min 2 (File.ofBytes twoLevelFile).levels := by decide +kernel
  obtain ⟨hbackends, hlibraries⟩ := hands_over_prefix hparse hdepth .bc1 2
  obtain ⟨hready, -, -, hsingle⟩ := hlibraries shortLibrary
  refine ⟨hparse, hdepth, ?_, ?_, (hsingle 0 _).ok.mpr ?_, ((hsingle 1 _).untouched ?_).1⟩
  · refine (hbackends _ _ fun level _ => ?_).refused.mpr ⟨1, hwanted, _, hlevel, rfl⟩
    unfold firstLevelOnly
    split <;> exact nofun
  · exact (hready ⟨⟨rfl, rfl⟩, fun _ => rfl, rfl⟩).refused.mpr ⟨1, hwanted, _, hlevel, rfl⟩
  · exact ⟨by decide +kernel, by decide +kernel, .ofSize 8 4, by decide +kernel, by decide +kernel⟩
  · decide +kernel

/-- How many levels are attempted: those before the first that fails, and that one. Levels that lie
too deep to have a size are not. -/
structure Attempts (lib : KtxLibrary) (file : File) (target : Target) (count k : Nat) : Prop where
  unready : ¬lib.Ready file → k = 0
  ready : lib.Ready file → IsLeast {k | k = count ∨ k = file.levels ∨ k = 32 ∨
    ∃ l, file.Fails (lib.level? target) l ∧ k = l + 1} k

/-- The calls for some levels of a file. Without a texture there is only the attempt to create one.
A texture is transcoded if that is needed, asked for the levels that are attempted, and
destroyed. -/
structure Closes (lib : KtxLibrary) (file : File) (target : Target) (count : Nat)
    (calls : List Call) : Prop where
  refused : ¬lib.Creates → calls = [.create file.data.length loadData]
  used : lib.Creates → ∃ k, lib.Attempts file target count k ∧
    calls = conversation file target (List.range k)
  destroyed : lib.Creates → ∃ before, calls = before ++ [Call.destroy] ∧ Call.destroy ∉ before

/-- A texture that has been used is destroyed once, at the end. -/
theorem destroyed_of_conversation (file : File) (target : Target) (asked : List Nat) :
    ∃ before, conversation file target asked = before ++ [Call.destroy] ∧
      Call.destroy ∉ before := by
  refine ⟨Call.create file.data.length loadData ::
    ((if file.payload?.isSome then [Call.transcode (formatNumber target) 0] else []) ++
      asked.map (Call.imageOffset · 0 0)), ?_, ?_⟩
  · rw [conversation, List.cons_append, List.append_assoc]
  · split <;> simp

/-- A library is asked for the levels that are attempted, from the first on and without gaps. -/
theorem asked_eq_range (hcreates : lib.Creates) (file : File) (count : Nat) (target : Target) :
    ∃ k, lib.Attempts file target count k ∧
      (lib.transcoder.transcode file count target).requests.map LevelRequest.level =
        List.range k := by
  by_cases hready : lib.Ready file
  · obtain ⟨found, hfound⟩ := Option.isSome_iff_exists.mp hready.2
    obtain ⟨m, asked, hcourse⟩ := lib.transcoder.levelsFrom_course file target 0 count
    have hleast := hcourse.isLeast_requests
    rw [made?_transcoder hfound] at hleast
    refine ⟨m + asked, ⟨fun h => absurd hready h, fun _ => hleast⟩, ?_⟩
    rw [transcode_of_ready hcreates hready, hcourse.requests, List.range_eq_range']
  · obtain ⟨e, he⟩ := transcode_of_not_ready (fun h => hready h.2) count target
    refine ⟨0, ⟨fun _ => rfl, fun h => absurd h hready⟩, ?_⟩
    rw [he]
    rfl

theorem closes_transcodeLevels (lib : KtxLibrary) (file : File) (target : Target) (count : Nat) :
    lib.Closes file target count (lib.transcodeLevels file count target).calls := by
  rw [transcodeLevels_eq]
  refine ⟨fun h => if_neg h, fun h => ?_, fun h => ?_⟩
  · obtain ⟨k, hattempts, hasked⟩ := asked_eq_range h file count target
    refine ⟨k, hattempts, ?_⟩
    rw [if_pos h, hasked]
  · rw [if_pos h]
    exact destroyed_of_conversation file target _

/-- A single level takes the same calls as all levels up to it. -/
theorem calls_transcodeLevel (lib : KtxLibrary) (file : File) (level : Nat) (target : Target)
    (out : Bytes) : (lib.transcodeLevel file level target out).1 =
      (lib.transcodeLevels file (countThrough level) target).calls := by
  unfold transcodeLevel
  simp only
  split
  · rfl
  split
  · split <;> rfl
  · rfl

/-- Whatever a library answers, the calls for all levels and those for a single one are in order: a
texture that has been made is asked only for levels that are attempted, and is destroyed once, after
everything else. -/
theorem texture_is_closed (lib : KtxLibrary) (file : File) (target : Target) :
    (∀ count, lib.Closes file target count (lib.transcodeLevels file count target).calls) ∧
      ∀ level out, lib.Closes file target (countThrough level)
        (lib.transcodeLevel file level target out).1 := by
  refine ⟨lib.closes_transcodeLevels file target, fun level out => ?_⟩
  rw [calls_transcodeLevel]
  exact lib.closes_transcodeLevels file target (countThrough level)

/-- Of five levels that are wanted the second fails, and the texture goes after it. -/
theorem texture_is_closed_twoLevels :
    shortLibrary.Creates ∧ shortLibrary.Ready (.ofBytes twoLevelFile) ∧
      (∃ k, shortLibrary.Attempts (.ofBytes twoLevelFile) .bc1 5 k ∧
        (shortLibrary.transcodeLevels (.ofBytes twoLevelFile) 5 .bc1).calls =
          conversation (.ofBytes twoLevelFile) .bc1 (List.range k)) ∧
      (∃ before, (shortLibrary.transcodeLevel (.ofBytes twoLevelFile) 1 .bc1 []).1 =
        before ++ [.destroy] ∧ .destroy ∉ before) ∧
      (shortLibrary.transcodeLevels (.ofBytes twoLevelFile) 5 .bc1).calls =
        [.create 128 1, .transcode 2 0, .imageOffset 0 0 0, .imageOffset 1 0 0, .destroy] := by
  have hcreates : shortLibrary.Creates := ⟨rfl, rfl⟩
  obtain ⟨hlevels, hlevel⟩ := texture_is_closed shortLibrary (.ofBytes twoLevelFile) .bc1
  exact ⟨hcreates, ⟨fun _ => rfl, rfl⟩, (hlevels 5).used hcreates, (hlevel 1 []).destroyed hcreates,
    by decide +kernel⟩

end KtxLibrary
end TexturePack
