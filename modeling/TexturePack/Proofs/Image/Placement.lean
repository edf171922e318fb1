import Mathlib
import TexturePack.Proofs.Image.Padding

/-! Where the pixels of an image are in its level. Whether rows are copied one by one or all at
once, the image stands in the upper left corner, transparent black stands everywhere else, and only
pixels of the image itself decide whether it is transparent. -/
namespace TexturePack

namespace Image

variable {bytes : Bytes} {width height levelWidth levelHeight : Nat}

/-- The four bytes of the pixel in column `x` of row `y`, in rows of `stride` pixels. -/
def pixelAt (pixels : Bytes) (stride x y : Nat) : Bytes := pixels.slice (4 * (y * stride + x)) 4

/-- A pixel of a row, found in that row. -/
theorem pixelAt_eq_slice {stride x : Nat} (hx : x < stride) (pixels : Bytes) (y : Nat) :
    pixelAt pixels stride x y = (pixels.slice (y * (4 * stride)) (4 * stride)).slice (4 * x) 4 := by
  rw [Bytes.slice_slice (by omega), pixelAt, Nat.mul_add, Nat.mul_left_comm]

/-- A row of the level: a row of the image and what fills it up, or nothing but that. -/
def levelRow (image : Bytes) (width height levelWidth y : Nat) : Bytes :=
  if y < height then padRow width levelWidth (image.slice (y * (4 * width)) (4 * width))
  else Bytes.zeros (4 * levelWidth)

def levelRows (image : Bytes) (width height levelWidth levelHeight : Nat) : Bytes :=
  ((List.range levelHeight).map (levelRow image width height levelWidth)).flatten

theorem length_imageRow {y : Nat} (hlong : 4 * width * height ≤ bytes.length) (hy : y < height) :
    (bytes.slice (y * (4 * width)) (4 * width)).length = 4 * width := by
  have hrow : y * (4 * width) + 4 * width ≤ 4 * width * height := by
    rw [← Nat.succ_mul, Nat.mul_comm]
    exact Nat.mul_le_mul_left _ hy
  rw [Bytes.length_slice]
  omega

theorem length_levelRow (hw : width ≤ levelWidth) (hlong : 4 * width * height ≤ bytes.length)
    (y : Nat) : (levelRow bytes width height levelWidth y).length = 4 * levelWidth := by
  unfold levelRow
  split
  next hy =>
    rw [padRow, List.length_append, length_imageRow hlong hy, Bytes.length_zeros]
    omega
  next => exact Bytes.length_zeros _

theorem length_of_mem_levelRows (hw : width ≤ levelWidth)
    (hlong : 4 * width * height ≤ bytes.length) :
    ∀ row ∈ (List.range levelHeight).map (levelRow bytes width height levelWidth),
      row.length = 4 * levelWidth := by
  simp only [List.forall_mem_map]
  exact fun y _ => length_levelRow hw hlong y

theorem length_levelRows (hw : width ≤ levelWidth) (hlong : 4 * width * height ≤ bytes.length)
    (levelHeight : Nat) :
    (levelRows bytes width height levelWidth levelHeight).length =
      4 * levelWidth * levelHeight := by
  rw [levelRows, Bytes.length_flatten (length_of_mem_levelRows hw hlong), List.length_map,
    List.length_range, Nat.mul_comm]

theorem slice_levelRows (hw : width ≤ levelWidth) (hlong : 4 * width * height ≤ bytes.length)
    {y : Nat} (hy : y < levelHeight) :
    (levelRows bytes width height levelWidth levelHeight).slice (y * (4 * levelWidth))
      (4 * levelWidth) = levelRow bytes width height levelWidth y := by
  rw [levelRows, Bytes.slice_flatten (length_of_mem_levelRows hw hlong),
    List.getD_eq_getElem?_getD, List.getElem?_map, List.getElem?_range hy, Option.map_some,
    Option.getD_some]

/-- An image is no larger than the level that it fits. -/
theorem area_le (hw : width ≤ levelWidth) (hh : height ≤ levelHeight) :
    4 * width * height ≤ 4 * levelWidth * levelHeight :=
  Nat.mul_le_mul (Nat.mul_le_mul_left 4 hw) hh

/-- The rows of a level: those that the image has, and empty ones. -/
theorem levelRows_eq_append (hh : height ≤ levelHeight) :
    levelRows bytes width height levelWidth levelHeight =
      ((List.range height).map fun y =>
        padRow width levelWidth (bytes.slice (y * (4 * width)) (4 * width))).flatten ++
        Bytes.zeros (4 * levelWidth * (levelHeight - height)) := by
  have hrows : ∀ y ∈ List.range height, levelRow bytes width height levelWidth y =
      padRow width levelWidth (bytes.slice (y * (4 * width)) (4 * width)) :=
    fun y hy => if_pos (List.mem_range.mp hy)
  obtain ⟨more, rfl⟩ := Nat.exists_eq_add_of_le hh
  have hempty : ∀ row ∈ (List.range more).map
      (levelRow bytes width height levelWidth ∘ (height + ·)),
      row = Bytes.zeros (4 * levelWidth) := by
    simp only [List.forall_mem_map]
    exact fun y _ => if_neg (Nat.not_lt.mpr (Nat.le_add_right height y))
  rw [Nat.add_sub_cancel_left, levelRows, List.range_add, List.map_append, List.map_map,
    List.flatten_append, List.map_congr_left hrows, List.eq_replicate_of_mem hempty,
    List.length_map, List.length_range, Bytes.zeros, List.flatten_replicate_replicate,
    Nat.mul_comm more, Bytes.zeros]

/-- Both ways to copy an image make the same rows. -/
theorem padIntoLevel_eq_rows (hpos : 0 < width) (hw : width ≤ levelWidth)
    (hh : height ≤ levelHeight) (hlong : 4 * width * height ≤ bytes.length)
    (hbuffer : 4 * levelWidth * levelHeight < bufferLimit) :
    padIntoLevel bytes width height levelWidth levelHeight =
      .ok (levelRows bytes width height levelWidth levelHeight) := by
  have hword : 4 * width * height < wordLimit :=
    ((area_le hw hh).trans_lt hbuffer).trans (by decide)
  rw [padIntoLevel, if_neg (by omega), if_neg (Nat.not_le.mpr hword), if_neg (Nat.not_lt.mpr hlong),
    if_neg (Nat.not_le.mpr hbuffer), levelRows_eq_append hh]
  split
  next heq =>
    subst heq
    simp only [padRow, Nat.sub_self, Nat.mul_zero, Bytes.zeros, List.replicate_zero,
      List.append_nil, Bytes.flatten_slices, Nat.mul_comm height]
  next =>
    have hrows : height * (4 * width) ≤ bytes.length := by rwa [Nat.mul_comm]
    rw [if_neg hpos.ne', Bytes.rows_eq_slices (by omega) hrows, List.map_map]
    rfl

/-- A pixel of the level is the one of the image, or transparent black outside of it. -/
theorem pixelAt_levelRows (hw : width ≤ levelWidth) (hlong : 4 * width * height ≤ bytes.length)
    {x y : Nat} (hx : x < levelWidth) (hy : y < levelHeight) :
    pixelAt (levelRows bytes width height levelWidth levelHeight) levelWidth x y =
      if x < width ∧ y < height then pixelAt bytes width x y else Bytes.zeros 4 := by
  rw [pixelAt_eq_slice hx, slice_levelRows hw hlong hy, levelRow]
  by_cases hrow : y < height
  · have hlen := length_imageRow hlong hrow
    rw [if_pos hrow, padRow]
    by_cases hcolumn : x < width
    · rw [if_pos ⟨hcolumn, hrow⟩, Bytes.slice_append_left (by omega), ← pixelAt_eq_slice hcolumn]
    · rw [if_neg (fun h => hcolumn h.1), Bytes.slice_append_right (by omega)]
      exact Bytes.slice_zeros (by omega)
  · rw [if_neg hrow, if_neg (fun h => hrow h.2)]
    exact Bytes.slice_zeros (by omega)

/-- A row is translucent if one of its pixels has an alpha that says so. -/
theorem translucent_iff (row : Bytes) :
    translucent row = true ↔ ∃ x a, row[4 * x + 3]? = some a ∧ a ≠ 0xFF := by
  fun_induction translucent row with
  | case1 r g b a rest ih =>
    rw [Bool.or_eq_true, ih, bne_iff_ne]
    constructor
    · rintro (ha | ⟨x, a', hx, ha⟩)
      · exact ⟨0, a, rfl, ha⟩
      · exact ⟨x + 1, a', hx, ha⟩
    · rintro ⟨_ | x, a', hx, ha⟩
      · cases hx
        exact .inl ha
      · exact .inr ⟨x, a', hx, ha⟩
  | case2 row hshort =>
    refine iff_of_false (by simp) ?_
    rintro ⟨x, a, hx, -⟩
    rcases row with _ | ⟨r, _ | ⟨g, _ | ⟨b, _ | ⟨a', rest⟩⟩⟩⟩
    case cons.cons.cons.cons => exact hshort _ _ _ _ _ rfl
    all_goals simp at hx

/-- Some pixel of an image is not fully covered. -/
def ShowsThrough (bytes : Bytes) (width height : Nat) : Prop :=
  ∃ x < width, ∃ y < height, (pixelAt bytes width x y)[3]? ≠ some 0xFF

instance (bytes : Bytes) (width height : Nat) : Decidable (ShowsThrough bytes width height) := by
  unfold ShowsThrough
  infer_instance

/-- Only rows and columns of the image are searched. -/
theorem any_translucent_iff (hpos : 0 < width) (hw : width ≤ levelWidth) (hh : height ≤ levelHeight)
    (hlong : 4 * width * height ≤ bytes.length) :
    ((Bytes.rows (4 * levelWidth) height (levelRows bytes width height levelWidth levelHeight)).any
      fun row => translucent (row.take (4 * width))) = true ↔ ShowsThrough bytes width height := by
  have hroom : height * (4 * levelWidth) ≤
      (levelRows bytes width height levelWidth levelHeight).length := by
    rw [length_levelRows hw hlong, Nat.mul_comm]
    exact Nat.mul_le_mul_left _ hh
  have hrow : ∀ y < height, ((levelRows bytes width height levelWidth levelHeight).slice
      (y * (4 * levelWidth)) (4 * levelWidth)).take (4 * width) =
        bytes.slice (y * (4 * width)) (4 * width) := by
    intro y hy
    rw [slice_levelRows hw hlong (hy.trans_le hh), levelRow, if_pos hy, padRow,
      List.take_left' (length_imageRow hlong hy)]
  rw [Bytes.rows_eq_slices (by omega) hroom, List.any_map, List.any_eq_true]
  constructor
  · rintro ⟨y, hy, hsheer⟩
    rw [List.mem_range] at hy
    rw [Function.comp_apply, hrow y hy, translucent_iff] at hsheer
    obtain ⟨x, a, hx, ha⟩ := hsheer
    have hcolumn : 4 * x + 3 < 4 * width := by
      rw [← length_imageRow hlong hy]
      exact (List.getElem?_eq_some_iff.mp hx).1
    refine ⟨x, by omega, y, hy, ?_⟩
    rw [pixelAt_eq_slice (by omega), Bytes.getElem?_slice _ (by decide), hx]
    simpa using ha
  · rintro ⟨x, hx, y, hy, hsheer⟩
    refine ⟨y, List.mem_range.mpr hy, ?_⟩
    rw [Function.comp_apply, hrow y hy, translucent_iff]
    rw [pixelAt_eq_slice hx, Bytes.getElem?_slice _ (by decide)] at hsheer
    have hin : 4 * x + 3 < (bytes.slice (y * (4 * width)) (4 * width)).length := by
      rw [length_imageRow hlong hy]
      omega
    rw [List.getElem?_eq_getElem hin] at hsheer
    exact ⟨x, _, List.getElem?_eq_getElem hin, by simpa using hsheer⟩

/-- What is made of an image that fits: its rows, and what its own pixels say. -/
theorem finish_eq (hpos : 0 < width) (hw : width ≤ levelWidth) (hh : height ≤ levelHeight)
    (hlong : 4 * width * height ≤ bytes.length)
    (hbuffer : 4 * levelWidth * levelHeight < bufferLimit) (hasAlpha : Bool) :
    finish bytes width height levelWidth levelHeight hasAlpha =
      .ok ⟨levelRows bytes width height levelWidth levelHeight, width, height,
        if hasAlpha = true ∧ ShowsThrough bytes width height then .transparent else .solid⟩ := by
  have hscan := any_translucent_iff hpos hw hh hlong
  refine Decode.bind_eq_ok.mpr ⟨_, padIntoLevel_eq_rows hpos hw hh hlong hbuffer, ?_⟩
  cases hasAlpha with
  | false =>
    rw [if_neg (by simp)]
    rfl
  | true =>
    refine Decode.bind_eq_ok.mpr ⟨_, ?_, rfl⟩
    rw [scanAlpha, if_neg (hpos.trans_le hw).ne']
    by_cases hshows : ShowsThrough bytes width height
    · rw [if_pos (hscan.mpr hshows), if_pos ⟨rfl, hshows⟩]
    · rw [if_neg (mt hscan.mp hshows), if_neg (fun h => hshows h.2)]

/-- An image in its level: in the upper left corner, with transparent black around it. What lies
behind the image and what is filled in have no say in whether it is transparent. -/
structure Placed (i : Image) (bytes : Bytes) (w h levelWidth levelHeight : Nat) (hasAlpha : Bool) :
    Prop where
  width : i.width = w
  height : i.height = h
  length : i.pixels.length = 4 * levelWidth * levelHeight
  pixel : ∀ x < levelWidth, ∀ y < levelHeight, pixelAt i.pixels levelWidth x y =
    if x < w ∧ y < h then pixelAt bytes w x y else Bytes.zeros 4
  alpha : i.alpha = if hasAlpha = true ∧ ShowsThrough bytes w h then .transparent else .solid

/-- The image is no larger than the level, and all of its bytes are there. -/
def Fits (bytes : Bytes) (width height levelWidth levelHeight : Nat) : Prop :=
  (width ≤ levelWidth ∧ height ≤ levelHeight) ∧ 4 * width * height ≤ bytes.length

instance (bytes : Bytes) (width height levelWidth levelHeight : Nat) :
    Decidable (Fits bytes width height levelWidth levelHeight) := by
  unfold Fits
  infer_instance

theorem finish_placed (hpos : 0 < width) (h : Fits bytes width height levelWidth levelHeight)
    (hbuffer : 4 * levelWidth * levelHeight < bufferLimit) (hasAlpha : Bool) :
    ∃ i, finish bytes width height levelWidth levelHeight hasAlpha = .ok i ∧
      i.Placed bytes width height levelWidth levelHeight hasAlpha := by
  obtain ⟨⟨hw, hh⟩, hlong⟩ := h
  exact ⟨_, finish_eq hpos hw hh hlong hbuffer hasAlpha, rfl, rfl,
    length_levelRows hw hlong levelHeight, fun _ hx _ hy => pixelAt_levelRows hw hlong hx hy, rfl⟩

/-- What is said of an image that does not fit. The sizes are compared first. -/
def refusal (bytes : Bytes) (width height levelWidth levelHeight : Nat) : FormatError :=
  if levelWidth < width ∨ levelHeight < height then
    .sizeChanged width height levelWidth levelHeight
  else .shortRead (4 * width * height) bytes.length

theorem finish_of_not_fits (hsize : 4 * levelWidth * levelHeight < wordLimit)
    (h : ¬Fits bytes width height levelWidth levelHeight) (hasAlpha : Bool) :
    finish bytes width height levelWidth levelHeight hasAlpha =
      .refuse (refusal bytes width height levelWidth levelHeight) := by
  unfold refusal
  by_cases hsmall : levelWidth < width ∨ levelHeight < height
  · rw [if_pos hsmall, finish_of_small bytes hasAlpha hsmall]
  · have hin : width ≤ levelWidth ∧ height ≤ levelHeight := by omega
    have hword : 4 * width * height < wordLimit := (area_le hin.1 hin.2).trans_lt hsize
    have hshort : bytes.length < 4 * width * height := Nat.lt_of_not_le fun hlong => h ⟨hin, hlong⟩
    rw [if_neg hsmall, finish, padIntoLevel, if_neg hsmall, if_neg (Nat.not_le.mpr hword),
      if_pos hshort]
    rfl

/-- A level for which there is no buffer brings the decoder down, whatever the image is. -/
theorem finish_of_unbuffered (hsize : 4 * levelWidth * levelHeight < wordLimit)
    (h : Fits bytes width height levelWidth levelHeight)
    (hbuffer : bufferLimit ≤ 4 * levelWidth * levelHeight) (hasAlpha : Bool) :
    finish bytes width height levelWidth levelHeight hasAlpha = .crash .sizeOverflow := by
  obtain ⟨⟨hw, hh⟩, hlong⟩ := h
  have hword : 4 * width * height < wordLimit := (area_le hw hh).trans_lt hsize
  rw [finish, padIntoLevel, if_neg (by omega), if_neg (Nat.not_le.mpr hword),
    if_neg (Nat.not_lt.mpr hlong), if_pos hbuffer]
  rfl

/-- An image is refused exactly if it does not fit, and else it is placed in its level. Only a level
for which there is no buffer has no answer. -/
theorem image_refused_or_placed (bytes : Bytes) (hasAlpha : Bool) (hwidth : 0 < width)
    (hsize : 4 * levelWidth * levelHeight < wordLimit) :
    (∀ e, finish bytes width height levelWidth levelHeight hasAlpha = .refuse e ↔
        ¬Fits bytes width height levelWidth levelHeight ∧
          e = refusal bytes width height levelWidth levelHeight) ∧
      (Fits bytes width height levelWidth levelHeight →
        4 * levelWidth * levelHeight < bufferLimit →
        ∃ i, finish bytes width height levelWidth levelHeight hasAlpha = .ok i ∧
          i.Placed bytes width height levelWidth levelHeight hasAlpha) ∧
      (Fits bytes width height levelWidth levelHeight →
        bufferLimit ≤ 4 * levelWidth * levelHeight →
        finish bytes width height levelWidth levelHeight hasAlpha = .crash .sizeOverflow) := by
  refine ⟨fun e => ⟨fun he => ?_, fun ⟨hnot, he⟩ => he ▸ finish_of_not_fits hsize hnot hasAlpha⟩,
    fun hfits hbuffer => finish_placed hwidth hfits hbuffer hasAlpha,
    fun hfits hbuffer => finish_of_unbuffered hsize hfits hbuffer hasAlpha⟩
  by_cases hfits : Fits bytes width height levelWidth levelHeight
  · rcases Nat.lt_or_ge (4 * levelWidth * levelHeight) bufferLimit with hbuffer | hbuffer
    · obtain ⟨i, hi, -⟩ := finish_placed hwidth hfits hbuffer hasAlpha
      rw [hi] at he
      cases he
    · rw [finish_of_unbuffered hsize hfits hbuffer] at he
      cases he
  · rw [finish_of_not_fits hsize hfits hasAlpha] at he
    cases he
    exact ⟨hfits, rfl⟩

/-- Two covered pixels with a byte behind them, in a level of three columns and two rows. -/
theorem image_refused_or_placed_corner :
    0 < 2 ∧ 4 * 3 * 2 < wordLimit ∧ Fits [1, 2, 3, 255, 4, 5, 6, 255, 7] 2 1 3 2 ∧
      4 * 3 * 2 < bufferLimit ∧
      (∃ i, finish [1, 2, 3, 255, 4, 5, 6, 255, 7] 2 1 3 2 true = .ok i ∧
        i.Placed [1, 2, 3, 255, 4, 5, 6, 255, 7] 2 1 3 2 true ∧ i.alpha = .solid) ∧
      ¬Fits [1, 2, 3, 255, 4, 5, 6, 255, 7] 2 1 3 0 ∧
      finish [1, 2, 3, 255, 4, 5, 6, 255, 7] 2 1 3 0 true = .refuse (.sizeChanged 2 1 3 0) := by
  have hfits : Fits [1, 2, 3, 255, 4, 5, 6, 255, 7] 2 1 3 2 := by decide
  have hnot : ¬Fits [1, 2, 3, 255, 4, 5, 6, 255, 7] 2 1 3 0 := by decide
  have hpos : 0 < 2 := by decide
  obtain ⟨i, hi, hplaced⟩ := (image_refused_or_placed [1, 2, 3, 255, 4, 5, 6, 255, 7] true hpos
    (by decide)).2.1 hfits (by decide)
  refine ⟨hpos, by decide, hfits, by decide, ⟨i, hi, hplaced, ?_⟩, hnot, ?_⟩
  · rw [hplaced.alpha]
    decide
  · exact ((image_refused_or_placed _ true hpos (by decide)).1 _).mpr ⟨hnot, rfl⟩

/-- A level of 2^63 bytes can be counted in a word, but no buffer has that many. -/
theorem halfAddressSpace_crashes :
    0 < 1 ∧ 4 * 2147483648 * 1073741824 < wordLimit ∧
      Fits [1, 2, 3, 255] 1 1 2147483648 1073741824 ∧
      finish [1, 2, 3, 255] 1 1 2147483648 1073741824 true = .crash .sizeOverflow := by
  decide

end Image
end TexturePack
