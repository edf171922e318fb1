import Mathlib
import TexturePack.Proofs.Load.Sizes

/-! Which byte strings are KTX2 files. A file is parsed exactly if its header is sound, its index is
there, and all that the header and the index point to lies in the file. The parts of a parsed file
are then there, however large the numbers are that point to them. -/
namespace TexturePack

namespace Ktx2

/-- The bytes of a range are in the file. -/
def ByteRange.Inside (r : ByteRange) (file : Bytes) : Prop := r.offset + r.length ≤ file.length

/-- A range that wraps around the largest word is in no file. -/
theorem ByteRange.of?_eq {r : ByteRange} {file : Bytes} (hfile : file.length < bufferLimit) :
    r.of? file = if r.offset + r.length ≤ file.length then some (file.slice r.offset r.length)
      else none := by
  have hlimit : bufferLimit < wordLimit := by decide
  unfold ByteRange.of? Bytes.range?
  split
  · rw [if_neg (by omega)]
  · rfl

theorem ByteRange.of?_eq_none_iff {r : ByteRange} {file : Bytes}
    (hfile : file.length < bufferLimit) : r.of? file = none ↔ ¬r.Inside file := by
  rw [of?_eq hfile, Inside]
  split <;> simp_all

theorem Header.validate_eq {h : Header} :
    h.validate = .ok () ↔
      h.identifier = Ktx2.identifier ∧ h.layers ≤ 1 ∧ Measured h.width h.height := by
  constructor
  · intro hv
    have hsize := validate_eq_ok hv
    unfold validate at hv
    split at hv
    · cases hv
    next hid =>
    split at hv
    · cases hv
    next hlayers =>
    exact ⟨not_not.mp hid, Nat.le_of_not_lt hlayers, hsize⟩
  · rintro ⟨hid, hlayers, hsize⟩
    unfold validate
    rw [if_neg (not_not.mpr hid), if_neg (Nat.not_lt.mpr hlayers),
      checkDimensions_of_measured hsize]

/-- A header is refused, but it does not bring the reader down. -/
theorem Header.validate_cases (h : Header) :
    h.validate = .ok () ∨ ∃ e, h.validate = .refuse e := by
  unfold validate checkDimensions
  split
  · exact .inr ⟨_, rfl⟩
  split
  · exact .inr ⟨_, rfl⟩
  split
  · exact .inr ⟨_, rfl⟩
  · exact .inl rfl

/-- Where the index says that the bytes of a level are. -/
def levelRange (data : Bytes) (level : Nat) : ByteRange :=
  ⟨data.word64 (80 + 24 * level), data.word64 (88 + 24 * level)⟩

/-- Where the header says that the data for all levels is. -/
def globalRange (data : Bytes) : ByteRange := ⟨data.word64 64, data.word64 72⟩

/-- How many levels the header says that there are, at least one. -/
def levelCount (data : Bytes) : Nat := max 1 (data.word32 40)

/-- A file of levels that all lie inside it. -/
structure WellBounded (data : Bytes) : Prop where
  header : 80 ≤ data.length
  identifier : data.take 12 = Ktx2.identifier
  layers : data.word32 32 ≤ 1
  size : Measured (data.word32 20) (data.word32 24)
  index : 80 + 24 * levelCount data ≤ data.length
  levels : ∀ level < levelCount data, (levelRange data level).Inside data
  globalData : (globalRange data).Inside data

/-- Entry by entry, the index as it is stored. -/
theorem readIndex_eq {data : Bytes} {n : Nat} (h : 80 + 24 * n ≤ data.length) :
    readIndex n (data.drop Header.byteSize) =
      (List.range n).map fun i => ⟨levelRange data i, data.word64 (96 + 24 * i)⟩ := by
  have hrows : n * LevelEntry.byteSize ≤ (data.drop Header.byteSize).length := by
    rw [List.length_drop, LevelEntry.byteSize, Header.byteSize]
    omega
  rw [readIndex, Bytes.rows_eq_slices (by decide) hrows, List.map_map]
  apply List.map_congr_left
  intro i _
  have hword : ∀ k, k + 8 ≤ 24 →
      Bytes.word64 (Bytes.slice (data.drop 80) (i * 24) 24) k = data.word64 (80 + k + 24 * i) := by
    intro k hk
    rw [Bytes.word64, Bytes.slice_slice hk, Bytes.slice_drop, Bytes.word64]
    congr 2
    omega
  simp only [Function.comp_apply, LevelEntry.ofBytes, LevelEntry.byteSize, Header.byteSize,
    levelRange, hword 0 (by decide), hword 8 (by decide), hword 16 (by decide)]

theorem firstOutside?_eq_none_iff {data : Bytes} {index : List LevelEntry}
    (hdata : data.length < bufferLimit) :
    firstOutside? data index = none ↔ ∀ e ∈ index, e.data.Inside data := by
  unfold firstOutside?
  rw [List.findIdx?_eq_none_iff]
  apply forall₂_congr
  intro e _
  rw [← Bool.not_eq_true, Option.isNone_iff_eq_none, ByteRange.of?_eq_none_iff hdata, not_not]

/-- The file that well bounded bytes are. -/
def File.ofBytes (data : Bytes) : File :=
  ⟨data, .ofBytes data, readIndex (levelCount data) (data.drop Header.byteSize)⟩

/-- Bytes are well bounded and parsed, or refused; no bytes bring the parser down. -/
theorem parse_cases {data : Bytes} (hdata : data.length < bufferLimit) :
    WellBounded data ∧ File.parse data = .ok (.ofBytes data) ∨
      ¬WellBounded data ∧ ∃ e, File.parse data = .refuse e := by
  have hlevels : (Header.ofBytes data).levels = levelCount data := Nat.max_comm ..
  have hindexEnd : Header.byteSize + levelCount data * LevelEntry.byteSize =
      80 + 24 * levelCount data := by
    rw [Header.byteSize, LevelEntry.byteSize, Nat.mul_comm]
  unfold File.parse
  by_cases hheader : data.length < Header.byteSize
  · rw [if_pos hheader]
    exact .inr ⟨fun h => absurd h.header (Nat.not_le.mpr hheader), _, rfl⟩
  rw [if_neg hheader]
  rcases (Header.ofBytes data).validate_cases with hvalid | ⟨e, hvalid⟩
  case inr =>
    refine .inr ⟨fun h => ?_, e, by simp only [hvalid]; rfl⟩
    rw [Header.validate_eq.mpr ⟨h.identifier, h.layers, h.size⟩] at hvalid
    cases hvalid
  simp only [hvalid, hlevels, hindexEnd, bind, Except.bind]
  by_cases hindex : data.length < 80 + 24 * levelCount data
  · rw [if_pos hindex]
    exact .inr ⟨fun h => absurd h.index (Nat.not_le.mpr hindex), _, rfl⟩
  rw [if_neg hindex]
  have hentries := readIndex_eq (Nat.le_of_not_lt hindex)
  -- The first level that lies outside is named in the refusal.
  rcases houtside :
      firstOutside? data (readIndex (levelCount data) (data.drop Header.byteSize)) with _ | level
  case some =>
    refine .inr ⟨fun h => ?_, _, rfl⟩
    rw [(firstOutside?_eq_none_iff hdata).mpr] at houtside
    · cases houtside
    · simpa [hentries] using h.levels
  rw [firstOutside?_eq_none_iff hdata] at houtside
  by_cases hglobal : (globalRange data).Inside data
  · obtain ⟨hid, hlayers, hsize⟩ := Header.validate_eq.mp hvalid
    refine .inl ⟨⟨Nat.le_of_not_lt hheader, hid, hlayers, hsize, Nat.le_of_not_lt hindex, ?_,
      hglobal⟩, ?_⟩
    · simpa [hentries] using houtside
    · have hsome : ((Header.ofBytes data).globalData.of? data).isNone = false := by
        rw [← Bool.not_eq_true, Option.isNone_iff_eq_none, ByteRange.of?_eq_none_iff hdata, not_not]
        exact hglobal
      simp only [hsome]
      rfl
  · have hnone : ((Header.ofBytes data).globalData.of? data).isNone = true := by
      rw [Option.isNone_iff_eq_none, ByteRange.of?_eq_none_iff hdata]
      exact hglobal
    exact .inr ⟨fun h => hglobal h.globalData, _, by simp only [hnone, if_true]; rfl⟩

/-- The entry of each level is in the index, and none behind the last. -/
theorem File.ofBytes_index {data : Bytes} (h : WellBounded data) (level : Nat) :
    (File.ofBytes data).index[level]? = if level < levelCount data then
      some ⟨levelRange data level, data.word64 (96 + 24 * level)⟩ else none := by
  rw [File.ofBytes, readIndex_eq h.index, List.getElem?_map]
  split
  next hlevel => rw [List.getElem?_range hlevel, Option.map_some]
  next hlevel => rw [List.getElem?_eq_none (by simpa using hlevel), Option.map_none]

theorem File.ofBytes_levelData? {data : Bytes} (hdata : data.length < bufferLimit)
    (h : WellBounded data) (level : Nat) :
    (File.ofBytes data).levelData? level =
      if level < levelCount data then
        some (data.slice (levelRange data level).offset (levelRange data level).length)
      else none := by
  rw [levelData?, File.ofBytes_index h]
  split
  next hlevel => exact (ByteRange.of?_eq hdata).trans (if_pos (h.levels level hlevel))
  next => rfl

theorem File.ofBytes_globalData? {data : Bytes} (hdata : data.length < bufferLimit)
    (h : WellBounded data) :
    (File.ofBytes data).globalData? = if (globalRange data).length = 0 then none
      else some (data.slice (globalRange data).offset (globalRange data).length) := by
  have hglobal : (globalRange data).of? data =
      some (data.slice (globalRange data).offset (globalRange data).length) :=
    (ByteRange.of?_eq hdata).trans (if_pos h.globalData)
  rw [← hglobal]
  rfl

/-- Bytes are parsed exactly if they are well bounded, and are refused otherwise. A parsed file has
the bytes of every level, none for levels behind the last, and the global data if there is any. -/
theorem parse_iff_wellBounded {data : Bytes} (hdata : data.length < bufferLimit) :
    ((∃ f, File.parse data = .ok f) ↔ WellBounded data) ∧
      (∀ d, File.parse data ≠ .crash d) ∧
      ∀ f, File.parse data = .ok f →
        f.levels = levelCount data ∧
        (∀ level, f.levelData? level = if level < f.levels then
          some (data.slice (levelRange data level).offset (levelRange data level).length)
          else none) ∧
        f.globalData? = if (globalRange data).length = 0 then none
          else some (data.slice (globalRange data).offset (globalRange data).length) := by
  rcases parse_cases hdata with ⟨hbounded, hparse⟩ | ⟨hnot, e, hparse⟩
  · have hlevels : (File.ofBytes data).levels = levelCount data := by
      rw [File.levels, File.ofBytes, readIndex_eq hbounded.index, List.length_map,
        List.length_range]
    refine ⟨iff_of_true ⟨_, hparse⟩ hbounded, fun d hcrash => ?_, fun f hf => ?_⟩
    · rw [hparse] at hcrash
      cases hcrash
    · obtain rfl : File.ofBytes data = f := Except.ok.inj (hparse.symm.trans hf)
      refine ⟨hlevels, ?_, File.ofBytes_globalData? hdata hbounded⟩
      rw [hlevels]
      exact File.ofBytes_levelData? hdata hbounded
  · have hno : ∀ f, File.parse data ≠ .ok f := by
      rw [hparse]
      exact fun _ => nofun
    refine ⟨iff_of_false (fun ⟨f, hf⟩ => hno f hf) hnot, fun d hcrash => ?_,
      fun f hf => absurd hf (hno f)⟩
    rw [hparse] at hcrash
    cases hcrash

/-- A file of one level of three bytes at its end, with global data at some place. -/
def smallFile (globalOffset globalLength : Bytes) : Bytes :=
  Ktx2.identifier ++
    [0, 0, 0, 0, 1, 0, 0, 0, 4, 0, 0, 0, 4, 0, 0, 0, 0, 0, 0, 0, 1, 0, 0, 0, 1, 0, 0, 0,
      0, 0, 0, 0, 1, 0, 0, 0] ++ Bytes.zeros 16 ++ globalOffset ++ globalLength ++
    [104, 0, 0, 0, 0, 0, 0, 0, 3, 0, 0, 0, 0, 0, 0, 0] ++ Bytes.zeros 8 ++ [7, 8, 9]

/-- The global data ends where the file does. -/
def touchingFile : Bytes := smallFile [105, 0, 0, 0, 0, 0, 0, 0] [2, 0, 0, 0, 0, 0, 0, 0]

/-- In words of 64 bits the global data would end within the file, before it begins. -/
def wrappingFile : Bytes := smallFile (List.replicate 8 255) [16, 0, 0, 0, 0, 0, 0, 0]

theorem parse_iff_wellBounded_touching :
    (touchingFile.length < bufferLimit ∧ WellBounded touchingFile ∧
        ∃ f, File.parse touchingFile = .ok f ∧ f.levelData? 0 = some [7, 8, 9] ∧
          f.levelData? 1 = none ∧ f.globalData? = some [8, 9]) ∧
      wrappingFile.length < bufferLimit ∧ ¬∃ f, File.parse wrappingFile = .ok f := by
  have htouching : touchingFile.length < bufferLimit := by decide
  have hwrapping : wrappingFile.length < bufferLimit := by decide
  have hparse : File.parse touchingFile = .ok (.ofBytes touchingFile) := by decide +kernel
  obtain ⟨hiff, -, hparts⟩ := parse_iff_wellBounded htouching
  obtain ⟨hlevels, hdata, hglobal⟩ := hparts _ hparse
  have hcount : levelCount touchingFile = 1 := by decide
  rw [hlevels, hcount] at hdata
  refine ⟨⟨htouching, hiff.mp ⟨_, hparse⟩, _, hparse, ?_, hdata 1, ?_⟩, hwrapping, fun hsome => ?_⟩
  · rw [hdata 0]
    decide
  · rw [hglobal]
    decide
  · have hinside := ((parse_iff_wellBounded hwrapping).1.mp hsome).globalData
    exact absurd hinside (by unfold ByteRange.Inside; decide)

end Ktx2
end TexturePack
