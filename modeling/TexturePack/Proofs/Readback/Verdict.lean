import Mathlib
import TexturePack.Proofs.Readback

/-! When a copy of a level succeeds, and what is in the buffer then. A copy says no to every buffer
that is too short, but for a distance between rows with which its own sum does not fit a word. -/
namespace TexturePack.Readback

variable {format : PixelFormat} {bytes out out' : Bytes} {width height pitch packed : Nat}

/-- The level has the bytes that its size calls for, and its rows have room in the buffer. -/
def Fits (format : PixelFormat) (bytes : Bytes) (width height : Nat) (out : Bytes)
    (pitch : Nat) : Prop :=
  if format = .rgba8 then
    4 * width ≤ pitch ∧ bytes.length = 4 * width * height ∧
      pitch * (height - 1) + 4 * width ≤ out.length
  else bytes.length ≤ out.length

/-- A size that is computed on the way does not fit a word. -/
def Overflows (format : PixelFormat) (bytes : Bytes) (width height pitch : Nat) : Prop :=
  format = .rgba8 ∧ 4 * width ≤ pitch ∧
    (wordLimit ≤ 4 * width * height ∨
      bytes.length = 4 * width * height ∧ wordLimit ≤ pitch * (height - 1) + 4 * width)

instance (format : PixelFormat) (bytes : Bytes) (width height : Nat) (out : Bytes) (pitch : Nat) :
    Decidable (Fits format bytes width height out pitch) := by
  unfold Fits
  infer_instance

instance (format : PixelFormat) (bytes : Bytes) (width height pitch : Nat) :
    Decidable (Overflows format bytes width height pitch) := by
  unfold Overflows
  infer_instance

/-- A buffer with the rows of a level in it. -/
def written (format : PixelFormat) (bytes : Bytes) (width height : Nat) (out : Bytes)
    (pitch : Nat) : Bytes :=
  if format = .rgba8 ∧ pitch ≠ 4 * width then writeRows pitch out (bytes.rows (4 * width) height)
  else overwrite out bytes

/-- Whether a level is copied in pieces does not matter where it fits. -/
theorem writeContiguous_eq_overwrite (hlen : bytes.length ≤ out.length) (inPieces : Bool) :
    writeContiguous inPieces out bytes = overwrite out bytes := by
  unfold writeContiguous
  split
  · exact overwriteInPieces_eq hlen
  · rfl

theorem writeStrided_eq_writeRows (hpacked : 0 < packed) (hpitch : packed ≤ pitch)
    (hlen : bytes.length = height * packed) (hout : extent pitch packed height ≤ out.length)
    (inPieces : Bool) :
    writeStrided inPieces pitch out (bytes.rows packed height) =
      writeRows pitch out (bytes.rows packed height) := by
  have hrows := Bytes.rows_length hpacked hlen.ge
  unfold writeStrided
  split
  · exact writeRowsInPieces_eq hpacked hpitch (by rwa [hrows])
  · rfl

theorem extent_of_pos (hheight : 0 < height) :
    extent pitch packed height = pitch * (height - 1) + packed := by
  rw [extent, if_neg hheight.ne']

/-- A level with bytes and with the length for its size has rows, and they are not empty. -/
theorem rows_pos (hbytes : bytes ≠ []) (hlen : bytes.length = 4 * width * height) :
    0 < 4 * width ∧ 0 < height := by
  have hpos : 0 < 4 * width * height := by
    rw [← hlen]
    exact List.length_pos_of_ne_nil hbytes
  exact ⟨Nat.pos_of_mul_pos_right hpos, Nat.pos_of_mul_pos_left hpos⟩

/-- What fits a buffer fits a word. -/
theorem Fits.not_overflows (h : Fits format bytes width height out pitch)
    (hbytes : bytes.length < bufferLimit) (hout : out.length < bufferLimit) :
    ¬Overflows format bytes width height pitch := by
  rintro ⟨rfl, -, hlarge⟩
  obtain ⟨-, hlen, hroom⟩ : 4 * width ≤ pitch ∧ bytes.length = 4 * width * height ∧
      pitch * (height - 1) + 4 * width ≤ out.length := by
    simpa [Fits] using h
  have hlimit : bufferLimit < wordLimit := by decide
  rcases hlarge with hlarge | ⟨-, hlarge⟩ <;> omega

/-- Rows that fit are written, whether they follow each other closely or not. -/
theorem write_of_fits (hbytes : bytes ≠ []) (h : Fits .rgba8 bytes width height out pitch)
    (inPieces : Bool) :
    (if pitch = 4 * width then writeContiguous inPieces out bytes
      else writeStrided inPieces pitch out (bytes.rows (4 * width) height)) =
      written .rgba8 bytes width height out pitch := by
  obtain ⟨hpitch, hlen, hroom⟩ : 4 * width ≤ pitch ∧ bytes.length = 4 * width * height ∧
      pitch * (height - 1) + 4 * width ≤ out.length := by
    simpa [Fits] using h
  obtain ⟨hpacked, hheight⟩ := rows_pos hbytes hlen
  unfold written
  split
  next heq =>
    have hshort : bytes.length ≤ out.length := by
      obtain ⟨n, rfl⟩ := Nat.exists_eq_succ_of_ne_zero hheight.ne'
      rwa [heq, Nat.succ_sub_one, ← Nat.mul_succ, ← hlen] at hroom
    rw [if_neg (by simp [heq]), writeContiguous_eq_overwrite hshort]
  next hne =>
    rw [if_pos ⟨rfl, hne⟩, writeStrided_eq_writeRows hpacked hpitch (by rw [hlen, Nat.mul_comm])]
    rwa [extent_of_pos hheight]

theorem copyRows_eq (hbytes : bytes ≠ []) (inPieces : Bool) :
    copyRows bytes width height out pitch inPieces =
      if Overflows .rgba8 bytes width height pitch then .error .sizeOverflow
      else if Fits .rgba8 bytes width height out pitch then
        .ok (some (written .rgba8 bytes width height out pitch))
      else .ok none := by
  unfold copyRows
  simp only
  -- In the order of the checks: the distance, the size of the level, its bytes, and the room that
  -- its rows take. The two sizes are computed before they are compared.
  by_cases hpitch : pitch < 4 * width
  · have hno : ¬Overflows .rgba8 bytes width height pitch := by simp [Overflows, hpitch]
    have hnot : ¬Fits .rgba8 bytes width height out pitch := by simp [Fits, hpitch]
    rw [if_pos hpitch, if_neg hno, if_neg hnot]
  rw [if_neg hpitch]
  have hpitch := Nat.le_of_not_lt hpitch
  by_cases hword : wordLimit ≤ 4 * width * height
  · have hover : Overflows .rgba8 bytes width height pitch := ⟨rfl, hpitch, .inl hword⟩
    rw [if_pos hword, if_pos hover]
  rw [if_neg hword]
  by_cases hlen : bytes.length = 4 * width * height
  case neg =>
    have hno : ¬Overflows .rgba8 bytes width height pitch := by simp [Overflows, hword, hlen]
    have hnot : ¬Fits .rgba8 bytes width height out pitch := by simp [Fits, hlen]
    rw [if_pos hlen, if_neg hno, if_neg hnot]
  rw [if_neg (not_not.mpr hlen), extent_of_pos (rows_pos hbytes hlen).2]
  by_cases hextent : wordLimit ≤ pitch * (height - 1) + 4 * width
  · have hover : Overflows .rgba8 bytes width height pitch := ⟨rfl, hpitch, .inr ⟨hlen, hextent⟩⟩
    rw [if_pos hextent, if_pos hover]
  have hno : ¬Overflows .rgba8 bytes width height pitch := by simp [Overflows, hword, hextent]
  rw [if_neg hextent, if_neg hno]
  by_cases hout : out.length < pitch * (height - 1) + 4 * width
  · have hnot : ¬Fits .rgba8 bytes width height out pitch := by simp [Fits, hout]
    rw [if_pos hout, if_neg hnot]
  have hfits : Fits .rgba8 bytes width height out pitch := by
    simpa [Fits, hlen] using ⟨hpitch, Nat.le_of_not_lt hout⟩
  rw [if_neg hout, if_pos hfits, ← write_of_fits hbytes hfits inPieces]
  split <;> rfl

/-- The answer to a copy does not depend on the pieces in which it is made. -/
theorem copyLevel_eq {data : LevelData} {level : Nat} (hlevel : data.level? level = some bytes)
    (piecesFrom : Nat) :
    copyLevel data level width height format out pitch piecesFrom =
      if Overflows format bytes width height pitch then .error .sizeOverflow
      else if Fits format bytes width height out pitch then
        .ok (some (written format bytes width height out pitch))
      else .ok none := by
  have hbytes := (LevelData.level?_eq_some_iff.mp hlevel).2
  unfold copyLevel
  simp only [hlevel]
  split
  next hformat =>
    subst hformat
    exact copyRows_eq hbytes _
  next hformat =>
    have hno : ¬Overflows format bytes width height pitch := by simp [Overflows, hformat]
    rw [if_neg hno]
    by_cases hout : out.length < bytes.length
    · have hnot : ¬Fits format bytes width height out pitch := by simp [Fits, hformat, hout]
      rw [if_pos hout, if_neg hnot]
    · have hroom := Nat.le_of_not_lt hout
      have hfits : Fits format bytes width height out pitch := by simp [Fits, hformat, hroom]
      rw [if_neg hout, if_pos hfits, writeContiguous_eq_overwrite hroom, written,
        if_neg (by simp [hformat])]

theorem copyLevel_of_missing {data : LevelData} {level : Nat} (hlevel : data.level? level = none)
    (piecesFrom : Nat) :
    copyLevel data level width height format out pitch piecesFrom = .ok none := by
  simp [copyLevel, hlevel]

/-- Where rows of a level are, and that nothing else of the buffer has changed. -/
structure Placed (out out' bytes : Bytes) (pitch packed height : Nat) : Prop where
  rows : ∀ r < height, out'.slice (r * pitch) packed = bytes.slice (r * packed) packed
  length : out'.length = out.length
  rest : ∀ p, (∀ r < height, p < r * pitch ∨ r * pitch + packed ≤ p) → out'[p]? = out[p]?

theorem Copied.placed (h : Copied out out' bytes pitch packed height)
    (hroom : pitch * (height - 1) + packed ≤ out.length) :
    Placed out out' bytes pitch packed height where
  rows r hr := by
    have hrows : ∀ row ∈ (List.range height).map fun r => out'.slice (r * pitch) packed,
        row.length = packed := by
      intro row hrow
      obtain ⟨k, hk, rfl⟩ := List.mem_map.mp hrow
      have hk : k ≤ height - 1 := Nat.le_sub_one_of_lt (List.mem_range.mp hk)
      have hle : k * pitch ≤ pitch * (height - 1) := by
        rw [Nat.mul_comm]
        exact Nat.mul_le_mul_left _ hk
      rw [Bytes.length_slice, h.length]
      omega
    rw [← h.rows, Bytes.slice_flatten hrows]
    simp [List.getD_eq_getElem?_getD, hr]
  length := h.length
  rest := h.rest

/-- What a copy has written is the level, row by row, and it leaves the rest of the buffer. -/
theorem placed_of_copyLevel {data : LevelData} {level piecesFrom : Nat}
    (hlevel : data.level? level = some bytes)
    (h : copyLevel data level width height format out pitch piecesFrom = .ok (some out')) :
    Placed out out' bytes pitch (shape format width height bytes).1
      (shape format width height bytes).2 := by
  obtain ⟨bytes', hlevel', hcopied⟩ := copyLevel_eq_some h
  obtain rfl := Option.some.inj (hlevel.symm.trans hlevel')
  apply hcopied.placed
  rw [copyLevel_eq hlevel] at h
  split at h
  · cases h
  split at h
  case isFalse => cases h
  case isTrue hfits =>
    unfold shape
    by_cases hformat : format = .rgba8
    · simp only [Fits, hformat, if_true] at hfits ⊢
      exact hfits.2.2
    · simpa [Fits, hformat] using hfits

/-- The answer to a copy is the same however it is divided into pieces. It is yes if the level has
bytes that fit the buffer, and the buffer then has the rows of the level at their places and is
otherwise as it was. It is no, and leaves the buffer alone, in every other case but one: there is
no answer if a size that is compared with the bytes or with the buffer does not fit a word. -/
theorem copy_verdict {data : LevelData} {level : Nat}
    (hdata : ∀ bytes, data.level? level = some bytes → bytes.length < bufferLimit)
    (hout : out.length < bufferLimit) :
    ∃ verdict : Except Defect (Option Bytes),
      (∀ piecesFrom,
        copyLevel data level width height format out pitch piecesFrom = verdict) ∧
      (∀ d, verdict = .error d ↔ d = .sizeOverflow ∧
        ∃ bytes, data.level? level = some bytes ∧ Overflows format bytes width height pitch) ∧
      ((∃ out', verdict = .ok (some out')) ↔
        ∃ bytes, data.level? level = some bytes ∧ Fits format bytes width height out pitch) ∧
      ∀ out', verdict = .ok (some out') → ∃ bytes, data.level? level = some bytes ∧
        Placed out out' bytes pitch (shape format width height bytes).1
          (shape format width height bytes).2 := by
  rcases hlevel : data.level? level with _ | bytes
  · exact ⟨.ok none, copyLevel_of_missing hlevel, by simp, by simp, by simp⟩
  simp only [Option.some.injEq, exists_eq_left']
  have heq : ∀ piecesFrom, copyLevel data level width height format out pitch piecesFrom =
      if Overflows format bytes width height pitch then .error .sizeOverflow
      else if Fits format bytes width height out pitch then
        .ok (some (written format bytes width height out pitch))
      else .ok none :=
    copyLevel_eq hlevel
  by_cases hover : Overflows format bytes width height pitch
  · have hnot : ¬Fits format bytes width height out pitch := fun hfits =>
      hfits.not_overflows (hdata bytes hlevel) hout hover
    simp only [hover, if_true] at heq
    exact ⟨.error .sizeOverflow, heq, by simp [hover, eq_comm], by simp [hnot], by simp⟩
  simp only [hover, if_false] at heq
  by_cases hfits : Fits format bytes width height out pitch
  case neg =>
    simp only [hfits, if_false] at heq
    exact ⟨.ok none, heq, by simp [hover], by simp [hfits], by simp⟩
  simp only [hfits, if_true] at heq
  refine ⟨_, heq, by simp [hover], by simp [hfits], ?_⟩
  intro out' h
  exact placed_of_copyLevel hlevel ((heq 0).trans h)

/-- One level of three rows, each a pixel wide. -/
def column : LevelData := ⟨.rgba8, [[1, 2, 3, 4, 5, 6, 7, 8, 9, 10, 11, 12]], .transparent⟩

theorem copy_verdict_spreadColumn :
    (∀ bytes, column.level? 0 = some bytes → bytes.length < bufferLimit) ∧
      (Bytes.zeros 14).length < bufferLimit ∧
      ∃ verdict out' bytes,
        (∀ piecesFrom, copyLevel column 0 1 3 .rgba8 (Bytes.zeros 14) 5 piecesFrom = verdict) ∧
        verdict = .ok (some out') ∧ column.level? 0 = some bytes ∧
        Placed (Bytes.zeros 14) out' bytes 5 4 3 := by
  have hdata : ∀ bytes, column.level? 0 = some bytes → bytes.length < bufferLimit := by
    intro bytes h
    obtain rfl := Option.some.inj h
    decide
  have hout : (Bytes.zeros 14).length < bufferLimit := by decide
  obtain ⟨verdict, hsame, -, hyes, hplaced⟩ :=
    @copy_verdict .rgba8 (Bytes.zeros 14) 1 3 5 column 0 hdata hout
  obtain ⟨out', rfl⟩ := hyes.mpr ⟨_, rfl, by decide⟩
  obtain ⟨bytes, hlevel, hrows⟩ := hplaced out' rfl
  exact ⟨hdata, hout, _, out', bytes, hsame, rfl, hlevel, hrows⟩

/-- Rows that are half of all addresses apart do not fit any buffer, and yet the answer is not
no. -/
theorem wide_pitch_overflows :
    ¬Fits .rgba8 [1, 2, 3, 4, 5, 6, 7, 8, 9, 10, 11, 12] 1 3 (Bytes.zeros 12)
        0x8000000000000000 ∧
      ∀ piecesFrom, copyLevel column 0 1 3 .rgba8 (Bytes.zeros 12) 0x8000000000000000 piecesFrom =
        .error .sizeOverflow := by
  refine ⟨by decide, fun piecesFrom => ?_⟩
  rw [copyLevel_eq rfl, if_pos (by decide)]

end TexturePack.Readback
