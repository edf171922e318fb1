import Mathlib
import TexturePack.Readback
import TexturePack.Proofs.Bytes
import TexturePack.Proofs.LevelData

/-! What a copy of a level writes. Pieces change nothing in it, the rows hold the bytes of the
level in their order, and nothing else of the buffer is written. -/
namespace TexturePack.Readback

theorem writeRows_nil (pitch : Nat) (out : Bytes) : writeRows pitch out [] = out := by
  cases out <;> rfl

theorem writeRows_cons (pitch : Nat) (out row : Bytes) (rows : List Bytes) :
    writeRows pitch out (row :: rows) =
      overwrite (out.take pitch) row ++ writeRows pitch (out.drop pitch) rows := by
  cases out <;> rfl

/-- What lies behind the places of all rows stays as it is. -/
theorem writeRows_take {pitch n : Nat} {rows : List Bytes} (hn : pitch * rows.length ≤ n)
    (out : Bytes) : writeRows pitch (out.take n) rows ++ out.drop n = writeRows pitch out rows := by
  induction rows generalizing out n with
  | nil => rw [writeRows_nil, writeRows_nil, List.take_append_drop]
  | cons row rows ih =>
    rw [List.length_cons, Nat.mul_succ] at hn
    have hfirst : (out.take n).take pitch = out.take pitch := by
      rw [List.take_take, Nat.min_eq_left (by omega)]
    have hrest : (out.take n).drop pitch = (out.drop pitch).take (n - pitch) := List.drop_take ..
    have hlast : out.drop n = (out.drop pitch).drop (n - pitch) := by
      rw [List.drop_drop, Nat.add_sub_cancel' (by omega)]
    rw [writeRows_cons, writeRows_cons, hfirst, hrest, hlast, List.append_assoc,
      ih (by omega)]

/-- Rows can be written in two lots, each into its own part of the buffer. -/
theorem writeRows_append (pitch : Nat) (out : Bytes) (rows rows' : List Bytes) :
    writeRows pitch out (rows ++ rows') =
      writeRows pitch (out.take (pitch * rows.length)) rows ++
        writeRows pitch (out.drop (pitch * rows.length)) rows' := by
  induction rows generalizing out with
  | nil => simp [writeRows_nil]
  | cons row rows ih =>
    have hfirst : (out.take (pitch * (rows.length + 1))).take pitch = out.take pitch := by
      rw [List.take_take, Nat.min_eq_left (by rw [Nat.mul_succ]; omega)]
    have hrest : (out.take (pitch * (rows.length + 1))).drop pitch =
        (out.drop pitch).take (pitch * rows.length) := by
      rw [List.drop_take, Nat.mul_succ, Nat.add_sub_cancel]
    have hlast : out.drop (pitch * (rows.length + 1)) =
        (out.drop pitch).drop (pitch * rows.length) := by
      rw [List.drop_drop, Nat.mul_succ, Nat.add_comm]
    rw [List.cons_append, writeRows_cons, List.length_cons, writeRows_cons, hfirst, hrest, hlast,
      List.append_assoc, ih]

theorem groups_nil {α : Type} (size count : Nat) : groups size count ([] : List α) = [] := by
  cases count <;> rfl

theorem groups_succ {α : Type} {items : List α} (h : items ≠ []) (size count : Nat) :
    groups size (count + 1) items = items.take size :: groups size count (items.drop size) := by
  rw [groups, if_neg (by simpa using h)]

/-- A level without rows is written over the front of the buffer, piece by piece or not. -/
theorem writeRows_groups {pitch count : Nat} (hpitch : 0 < pitch) {out bytes : Bytes}
    (hlen : out.length = bytes.length) (hcount : bytes.length ≤ count) :
    writeRows pitch out (groups pitch count bytes) = bytes := by
  induction count generalizing out bytes with
  | zero =>
    obtain rfl := List.length_eq_zero_iff.mp (Nat.le_zero.mp hcount)
    obtain rfl := List.length_eq_zero_iff.mp hlen
    rfl
  | succ count ih =>
    rcases hb : bytes with _ | ⟨b, bs⟩
    · rw [hb] at hlen
      rw [groups_nil, writeRows_nil, List.length_eq_zero_iff.mp hlen]
    rw [← hb]
    have hfront : overwrite (out.take pitch) (bytes.take pitch) = bytes.take pitch := by
      rw [overwrite, List.drop_of_length_le, List.append_nil]
      rw [List.length_take, List.length_take, hlen]
    have hpos : 0 < bytes.length := by
      rw [hb]
      exact Nat.succ_pos _
    have hrest : writeRows pitch (out.drop pitch) (groups pitch count (bytes.drop pitch)) =
        bytes.drop pitch := by
      apply ih
      · rw [List.length_drop, List.length_drop, hlen]
      · rw [List.length_drop]
        omega
    rw [groups_succ (by simp [hb]), writeRows_cons, hfront, hrest, List.take_append_drop]

theorem overwriteInPieces_eq {out bytes : Bytes} (hlen : bytes.length ≤ out.length) :
    overwriteInPieces out bytes = overwrite out bytes := by
  unfold overwriteInPieces
  simp only
  rw [writeRows_groups (by decide) (by rw [List.length_take]; omega) le_rfl]
  rfl

/-- The last rows fit behind the places of the first ones. -/
theorem extent_drop {pitch packed n k : Nat} {out : Bytes}
    (h : extent pitch packed (n + k) ≤ out.length) :
    extent pitch packed n ≤ (out.drop (pitch * k)).length := by
  rw [extent, List.length_drop]
  split
  · exact Nat.zero_le _
  next hne =>
    obtain ⟨m, rfl⟩ := Nat.exists_eq_succ_of_ne_zero hne
    rw [extent, if_neg (by omega), Nat.succ_add, Nat.succ_sub_one, Nat.mul_add] at h
    rw [Nat.succ_sub_one]
    omega

/-- Groups of rows have their own parts of the buffer, which follow each other. -/
theorem writeRows_parts {pitch size packed m n : Nat} (hsize : 0 < size) (hpacked : 0 < packed)
    (hpitch : packed ≤ pitch) {out : Bytes} {rows : List Bytes} (hm : rows.length ≤ m)
    (hn : out.length ≤ n) (hout : extent pitch packed rows.length ≤ out.length) :
    ((((groups (pitch * size) n out).zip (groups size m rows)).map
        fun (part, rows) => writeRows pitch part rows).flatten ++
      out.drop (pitch * size *
        min (groups (pitch * size) n out).length (groups size m rows).length)) =
      writeRows pitch out rows := by
  induction m generalizing n out rows with
  | zero =>
    obtain rfl := List.length_eq_zero_iff.mp (Nat.le_zero.mp hm)
    simp [groups_nil, writeRows_nil]
  | succ m ih =>
    by_cases hrows : rows = []
    · subst hrows
      simp [groups_nil, writeRows_nil]
    have hlen : 0 < rows.length := List.length_pos_of_ne_nil hrows
    have hne : out ≠ [] := by
      rw [extent, if_neg (by omega)] at hout
      rw [← List.length_pos_iff]
      omega
    obtain ⟨n, rfl⟩ : ∃ k, n = k + 1 := Nat.exists_eq_succ_of_ne_zero (by
      have := List.length_pos_of_ne_nil hne
      omega)
    have hpart : 0 < pitch * size := Nat.mul_pos (by omega) hsize
    rw [groups_succ hne, groups_succ hrows, List.zip_cons_cons, List.map_cons, List.flatten_cons,
      List.length_cons, List.length_cons, Nat.succ_min_succ, Nat.mul_succ, Nat.add_comm,
      ← List.drop_drop, List.append_assoc]
    rcases Nat.lt_or_ge size rows.length with hmore | hlast
    · have htake : (rows.take size).length = size := by
        rw [List.length_take]
        omega
      have hextent : extent pitch packed (rows.drop size).length ≤
          (out.drop (pitch * size)).length := by
        apply extent_drop
        rwa [List.length_drop, Nat.sub_add_cancel hmore.le]
      rw [ih (by rw [List.length_drop]; omega) (by rw [List.length_drop]; omega) hextent]
      conv_rhs => rw [← List.take_append_drop size rows, writeRows_append, htake]
    · have hnone : rows.drop size = [] := List.drop_eq_nil_of_le hlast
      have hfits : pitch * rows.length ≤ pitch * size := Nat.mul_le_mul_left _ hlast
      rw [hnone, List.take_of_length_le hlast, ← writeRows_take hfits out]
      simp [groups_nil]

/-- Pieces of a level of rows change nothing in the copy. -/
theorem writeRowsInPieces_eq {pitch packed : Nat} (hpacked : 0 < packed) (hpitch : packed ≤ pitch)
    {out : Bytes} {rows : List Bytes} (hout : extent pitch packed rows.length ≤ out.length) :
    writeRowsInPieces pitch out rows = writeRows pitch out rows :=
  writeRows_parts (by decide) hpacked hpitch le_rfl le_rfl hout

/-- What a copy has done to a buffer: rows hold some bytes in their order, and all else is as
it was. -/
structure Copied (out out' bytes : Bytes) (pitch packed height : Nat) : Prop where
  rows : ((List.range height).map fun r => out'.slice (r * pitch) packed).flatten = bytes
  length : out'.length = out.length
  rest : ∀ p, (∀ r < height, p < r * pitch ∨ r * pitch + packed ≤ p) → out'[p]? = out[p]?

theorem copied_overwrite {out bytes : Bytes} {packed height : Nat}
    (hlen : bytes.length = height * packed) (hout : bytes.length ≤ out.length) :
    Copied out (overwrite out bytes) bytes packed packed height where
  rows := by
    rw [Bytes.flatten_slices, overwrite, ← hlen, List.take_left]
  length := by
    rw [overwrite, List.length_append, List.length_drop]
    omega
  rest p hp := by
    have hbehind : bytes.length ≤ p := by
      by_contra hlt
      have hpos : 0 < packed := by
        by_contra h0
        obtain rfl : packed = 0 := by omega
        omega
      have hrow := hp (p / packed) (by
        rw [Nat.div_lt_iff_lt_mul hpos]
        omega)
      have hle := Nat.div_mul_le_self p packed
      have hlt' := Nat.lt_div_mul_add (a := p) hpos
      omega
    rw [overwrite, List.getElem?_append_right hbehind, List.getElem?_drop,
      Nat.add_sub_cancel' hbehind]

/-- A copy of rows goes on behind the place of the row before them. -/
theorem Copied.cons {pitch packed n : Nat} {out row rest bytes : Bytes} (hrow : row.length = packed)
    (hpitch : packed ≤ pitch) (hfirst : packed ≤ out.length) (hmore : 0 < n → pitch ≤ out.length)
    (h : Copied (out.drop pitch) rest bytes pitch packed n) :
    Copied out (overwrite (out.take pitch) row ++ rest) (row ++ bytes) pitch packed (n + 1) := by
  have hlength : (overwrite (out.take pitch) row).length = min pitch out.length := by
    rw [overwrite, List.length_append, List.length_drop, List.length_take, hrow]
    omega
  have hslice : (overwrite (out.take pitch) row ++ rest).slice 0 packed = row := by
    rw [overwrite, Bytes.slice, List.drop_zero, List.append_assoc, ← hrow, List.take_left]
  have hplace (p : Nat) (hp : packed ≤ p) (hp' : p < pitch) :
      (overwrite (out.take pitch) row)[p]? = out[p]? := by
    rw [overwrite, List.getElem?_append_right (by omega), List.getElem?_drop, hrow,
      Nat.add_sub_cancel' hp, List.getElem?_take, if_pos hp']
  generalize overwrite (out.take pitch) row = first at *
  constructor
  · rw [List.range_succ_eq_map, List.map_cons, List.flatten_cons, List.map_map, Nat.zero_mul,
      hslice, ← h.rows]
    congr 2
    apply List.map_congr_left
    intro r hr
    have hlong := hmore (Nat.zero_lt_of_lt (List.mem_range.mp hr))
    have hfull : first.length = pitch := by omega
    simp only [Function.comp_apply, Bytes.slice]
    rw [Nat.succ_mul, Nat.add_comm, ← List.drop_drop, List.drop_left' hfull]
  · rw [List.length_append, hlength, h.length, List.length_drop]
    omega
  · intro p hp
    have hp0 := hp 0 (Nat.succ_pos _)
    rcases Nat.lt_or_ge p first.length with hlt | hge
    · rw [List.getElem?_append_left hlt]
      apply hplace <;> omega
    rw [List.getElem?_append_right hge]
    rcases Nat.lt_or_ge out.length pitch with hshort | hlong
    · rw [List.getElem?_eq_none (by rw [h.length, List.length_drop]; omega),
        List.getElem?_eq_none (by omega)]
    have hfull : first.length = pitch := by omega
    rw [hfull, h.rest (p - pitch), List.getElem?_drop, Nat.add_sub_cancel' (by omega)]
    intro r hr
    have hnext := hp (r + 1) (Nat.succ_lt_succ hr)
    rw [Nat.succ_mul] at hnext
    omega

theorem copied_writeRows {pitch packed : Nat} (hpitch : packed ≤ pitch) {out : Bytes}
    {rows : List Bytes} (hrows : ∀ row ∈ rows, row.length = packed)
    (hout : extent pitch packed rows.length ≤ out.length) :
    Copied out (writeRows pitch out rows) rows.flatten pitch packed rows.length := by
  induction rows generalizing out with
  | nil =>
    rw [writeRows_nil]
    exact ⟨rfl, rfl, fun _ _ => rfl⟩
  | cons row rows ih =>
    rw [List.length_cons] at hout
    have hrest := extent_drop hout
    rw [Nat.mul_one] at hrest
    rw [extent, if_neg (Nat.succ_ne_zero _), Nat.add_sub_cancel] at hout
    have hmore (hn : 0 < rows.length) : pitch ≤ out.length := by
      have := Nat.le_mul_of_pos_right pitch hn
      omega
    rw [writeRows_cons, List.flatten_cons, List.length_cons]
    apply Copied.cons (hrows row (List.mem_cons_self ..)) hpitch (by omega) hmore
    apply ih _ hrest
    intro r hr
    exact hrows r (List.mem_cons_of_mem _ hr)

/-- The rows in which a level is copied: how long they are, and how many. Levels of blocks are
copied in one. -/
def shape (format : PixelFormat) (width height : Nat) (bytes : Bytes) : Nat × Nat :=
  if format = .rgba8 then (4 * width, height) else (bytes.length, 1)

theorem copied_writeContiguous {out bytes : Bytes} {packed height : Nat}
    (hlen : bytes.length = height * packed) (hout : bytes.length ≤ out.length) (inPieces : Bool) :
    Copied out (writeContiguous inPieces out bytes) bytes packed packed height := by
  unfold writeContiguous
  split
  · rw [overwriteInPieces_eq hout]
    exact copied_overwrite hlen hout
  · exact copied_overwrite hlen hout

/-- Where there is only one row, the distance between rows does not matter. -/
theorem Copied.single {out out' bytes : Bytes} {pitch packed : Nat}
    (h : Copied out out' bytes pitch packed 1) (pitch' : Nat) :
    Copied out out' bytes pitch' packed 1 where
  rows := by simpa using h.rows
  length := h.length
  rest p hp := h.rest p fun r hr => by
    obtain rfl : r = 0 := by omega
    simpa using hp 0 hr

theorem copied_writeStrided {out bytes : Bytes} {pitch packed height : Nat} (hpacked : 0 < packed)
    (hpitch : packed ≤ pitch) (hlen : bytes.length = height * packed)
    (hout : extent pitch packed height ≤ out.length) (inPieces : Bool) :
    Copied out (writeStrided inPieces pitch out (bytes.rows packed height)) bytes pitch packed
      height := by
  have hrows := Bytes.rows_length hpacked hlen.ge
  have hout' : extent pitch packed (bytes.rows packed height).length ≤ out.length := by
    rwa [hrows]
  have hcopied := copied_writeRows hpitch
    (fun row hrow => Bytes.length_of_mem_rows hlen.ge hrow) hout'
  rw [Bytes.flatten_rows hlen.ge, List.take_of_length_le hlen.le, hrows] at hcopied
  unfold writeStrided
  split
  · rwa [writeRowsInPieces_eq hpacked hpitch hout']
  · exact hcopied

/-- The checks that come before the first byte. -/
theorem copyRows_checks {bytes out out' : Bytes} {width height pitch : Nat} {inPieces : Bool}
    (h : copyRows bytes width height out pitch inPieces = .ok (some out')) :
    4 * width ≤ pitch ∧ bytes.length = height * (4 * width) ∧
      extent pitch (4 * width) height ≤ out.length ∧
      out' = if pitch = 4 * width then writeContiguous inPieces out bytes
        else writeStrided inPieces pitch out (bytes.rows (4 * width) height) := by
  unfold copyRows at h
  simp only at h
  split at h
  · cases h
  next hpitch =>
  split at h
  · cases h
  split at h
  · cases h
  next hlen =>
  split at h
  · cases h
  split at h
  · cases h
  next hout =>
    rw [not_not, Nat.mul_comm] at hlen
    refine ⟨Nat.le_of_not_lt hpitch, hlen, Nat.le_of_not_lt hout, ?_⟩
    split at h
    next heq =>
      cases h
      rw [if_pos heq]
    next hne =>
      cases h
      rw [if_neg hne]

theorem copyRows_eq_some {bytes out out' : Bytes} {width height pitch : Nat} {inPieces : Bool}
    (hbytes : bytes ≠ [])
    (h : copyRows bytes width height out pitch inPieces = .ok (some out')) :
    Copied out out' bytes pitch (4 * width) height := by
  obtain ⟨hpitch, hlen, hout, rfl⟩ := copyRows_checks h
  have hpos : 0 < height * (4 * width) := by
    rw [← hlen]
    exact List.length_pos_of_ne_nil hbytes
  split
  next heq =>
    rw [heq] at hout ⊢
    apply copied_writeContiguous hlen
    obtain ⟨n, rfl⟩ := Nat.exists_eq_succ_of_ne_zero (Nat.pos_of_mul_pos_right hpos).ne'
    rw [extent, if_neg (Nat.succ_ne_zero n), Nat.succ_sub_one] at hout
    rw [hlen, Nat.succ_mul, Nat.mul_comm]
    exact hout
  · exact copied_writeStrided (Nat.pos_of_mul_pos_left hpos) hpitch hlen hout inPieces

/-- A copy that succeeds has written the bytes of the level, row after row, and nothing
else. -/
theorem copyLevel_eq_some {data : LevelData} {level width height pitch piecesFrom : Nat}
    {format : PixelFormat} {out out' : Bytes}
    (h : copyLevel data level width height format out pitch piecesFrom = .ok (some out')) :
    ∃ bytes, data.level? level = some bytes ∧
      Copied out out' bytes pitch (shape format width height bytes).1
        (shape format width height bytes).2 := by
  unfold copyLevel at h
  rcases hlevel : data.level? level with _ | bytes
  · simp [hlevel] at h
  simp only [hlevel] at h
  refine ⟨bytes, rfl, ?_⟩
  obtain ⟨-, hbytes⟩ := LevelData.level?_eq_some_iff.mp hlevel
  unfold shape
  split at h
  next hf =>
    rw [if_pos hf]
    exact copyRows_eq_some hbytes h
  next hf =>
    rw [if_neg hf]
    split at h
    · cases h
    next hout =>
      cases h
      exact (copied_writeContiguous (Nat.one_mul _).symm (Nat.le_of_not_lt hout) _).single pitch

theorem writeContiguous_eq {out bytes : Bytes} (hlen : out.length = bytes.length)
    (inPieces : Bool) :
    writeContiguous inPieces out bytes = bytes := by
  have hover : overwrite out bytes = bytes := by
    rw [overwrite, List.drop_of_length_le hlen.le, List.append_nil]
  unfold writeContiguous
  split
  · rw [overwriteInPieces_eq hlen.ge, hover]
  · exact hover

/-- A level that has all bytes of its size is copied into a buffer of that size, row to row. -/
theorem copyLevel_full {data : LevelData} {level width height pitch : Nat} {format : PixelFormat}
    {bytes out : Bytes} (hlevel : data.level? level = some bytes)
    (hbytes : bytes.length = format.packedSize width height) (hlt : bytes.length < wordLimit)
    (hout : out.length = bytes.length) (hpitch : format = .rgba8 → pitch = 4 * width)
    (piecesFrom : Nat) :
    copyLevel data level width height format out pitch piecesFrom = .ok (some bytes) := by
  unfold copyLevel
  simp only [hlevel]
  split
  next hformat =>
    have hpacked : bytes.length = 4 * width * height := by
      rw [hbytes, hformat]
      simp only [PixelFormat.packedSize, PixelFormat.blockSize?, if_true]
      rw [Nat.mul_comm, Nat.mul_assoc]
    have hextent : extent (4 * width) (4 * width) height = bytes.length := by
      rw [extent, hpacked]
      split
      next h => rw [h, Nat.mul_zero]
      next h => rw [← Nat.mul_succ, Nat.succ_eq_add_one, Nat.sub_add_cancel (by omega)]
    rw [hpitch hformat]
    simp only [copyRows, hextent, ← hpacked, hout, writeContiguous_eq hout, Nat.not_le.mpr hlt,
      lt_irrefl, ne_eq, not_true_eq_false, if_false, if_true]
  next hformat =>
    rw [if_neg (by omega), writeContiguous_eq hout]

end TexturePack.Readback
