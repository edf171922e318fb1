import Mathlib
import TexturePack.Png
import TexturePack.Zim
import TexturePack.Proofs.Bytes

/-! An image that has been padded fills its level. -/
namespace TexturePack

namespace Image

theorem length_flatten_padRows {width levelWidth height : Nat} {bs : Bytes} (hw : 0 < width)
    (hle : width ≤ levelWidth) (h : height * (4 * width) ≤ bs.length) :
    ((bs.rows (4 * width) height).map (padRow width levelWidth)).flatten.length =
      height * (4 * levelWidth) := by
  have hrow : ∀ row ∈ (bs.rows (4 * width) height).map (padRow width levelWidth),
      row.length = 4 * levelWidth := by
    intro row hrow
    obtain ⟨line, hline, rfl⟩ := List.mem_map.mp hrow
    rw [padRow, List.length_append, Bytes.length_of_mem_rows h hline, Bytes.length_zeros]
    omega
  rw [Bytes.length_flatten hrow, List.length_map, Bytes.rows_length (by omega) h]

/-- A padded image fills its level, which is no smaller than the image and fits a buffer. -/
theorem length_padIntoLevel {image pixels : Bytes} {width height levelWidth levelHeight : Nat}
    (h : padIntoLevel image width height levelWidth levelHeight = .ok pixels) :
    pixels.length = 4 * levelWidth * levelHeight ∧ pixels.length < bufferLimit ∧
      width ≤ levelWidth ∧ height ≤ levelHeight := by
  unfold padIntoLevel at h
  split at h
  · cases h
  next hfits =>
  split at h
  · cases h
  split at h
  · cases h
  next hlong =>
  split at h
  · cases h
  next hbuffer =>
  have hw : width ≤ levelWidth := by omega
  have hh : height ≤ levelHeight := by omega
  have hlen : 4 * width * height ≤ image.length := Nat.le_of_not_lt hlong
  suffices hfills : pixels.length = 4 * levelWidth * levelHeight by
    exact ⟨hfills, hfills ▸ Nat.lt_of_not_le hbuffer, hw, hh⟩
  have hsplit : 4 * levelWidth * levelHeight =
      4 * levelWidth * height + 4 * levelWidth * (levelHeight - height) := by
    rw [← Nat.mul_add, Nat.add_sub_cancel' hh]
  split at h
  next heq =>
    cases h
    rw [List.length_append, List.length_take, Nat.min_eq_left hlen, Bytes.length_zeros, hsplit, heq]
  split at h
  · cases h
  next hzero =>
    cases h
    have hrows : height * (4 * width) ≤ image.length := by rwa [Nat.mul_comm]
    rw [List.length_append, length_flatten_padRows (by omega) hw hrows, Bytes.length_zeros, hsplit,
      Nat.mul_comm height]

/-- An image fills a level that has pixels. -/
structure Fills (i : Image) (levelWidth levelHeight : Nat) : Prop where
  length : i.pixels.length = 4 * levelWidth * levelHeight
  length_lt : i.pixels.length < bufferLimit
  width_pos : 0 < levelWidth
  height_pos : 0 < levelHeight

theorem fills_finish {image : Bytes} {width height levelWidth levelHeight : Nat} {alpha : Bool}
    {i : Image} (hw : 0 < width) (hh : 0 < height)
    (h : finish image width height levelWidth levelHeight alpha = .ok i) :
    i.Fills levelWidth levelHeight := by
  obtain ⟨padded, hpad, h⟩ := Decode.bind_eq_ok.mp h
  have hpixels : i.pixels = padded := by
    cases alpha
    · obtain ⟨_, -, h⟩ := Decode.bind_eq_ok.mp h
      cases h
      rfl
    · obtain ⟨_, -, h⟩ := Decode.bind_eq_ok.mp h
      cases h
      rfl
  obtain ⟨hlen, hlt, hlw, hlh⟩ := length_padIntoLevel hpad
  exact ⟨hpixels ▸ hlen, hpixels ▸ hlt, hw.trans_le hlw, hh.trans_le hlh⟩

end Image

theorem ZimHeader.validate_eq_ok {h : ZimHeader} {u : Unit} (hv : h.validate = .ok u) :
    Measured h.width h.height := by
  unfold validate at hv
  split at hv
  · cases hv
  split at hv
  · cases hv
  · exact checkDimensions_eq_ok hv

theorem Zim.fills_decode {data : Bytes} {levelWidth levelHeight : Nat} {i : Image}
    (h : decode data levelWidth levelHeight = .ok i) : i.Fills levelWidth levelHeight := by
  unfold decode at h
  split at h
  · cases h
  obtain ⟨_, hvalid, h⟩ := Decode.bind_eq_ok.mp h
  obtain ⟨wanted, -, h⟩ := Decode.bind_eq_ok.mp h
  obtain ⟨found, -, h⟩ := Decode.bind_eq_ok.mp h
  have hsize := ZimHeader.validate_eq_ok hvalid
  split at h
  · cases h
  · exact Image.fills_finish hsize.width_pos hsize.height_pos h

theorem Png.Header.ofBytes?_eq_some {bs : Bytes} {h : Png.Header} (ho : ofBytes? bs = some h) :
    0 < h.width ∧ 0 < h.height := by
  simp only [ofBytes?, Option.bind_eq_bind, Option.bind_none] at ho
  split at ho
  · cases ho
  split at ho
  · cases ho
  next hsize =>
  obtain ⟨color, -, ho⟩ := Option.bind_eq_some_iff.mp ho
  split at ho
  · cases ho
  split at ho
  · cases ho
  split at ho <;> cases ho <;> simp only <;> omega

theorem Png.parts?_header {data : Bytes} {p : Parts} (hp : parts? data = some p) :
    0 < p.header.width ∧ 0 < p.header.height := by
  simp only [parts?, Option.bind_eq_bind, Option.bind_none] at hp
  split at hp
  · cases hp
  split at hp
  · split at hp
    · cases hp
    obtain ⟨h, hheader, hp⟩ := Option.bind_eq_some_iff.mp hp
    obtain ⟨⟨setup, run⟩, -, hp⟩ := Option.bind_eq_some_iff.mp hp
    simp only at hp
    split at hp
    · cases hp
    split at hp
    · cases hp
    cases hp
    exact Png.Header.ofBytes?_eq_some hheader
  · cases hp

theorem Png.fills_decode {data : Bytes} {levelWidth levelHeight : Nat} {i : Image}
    (h : decode data levelWidth levelHeight = .ok i) : i.Fills levelWidth levelHeight := by
  unfold decode at h
  split at h
  · cases h
  next p hp =>
    have hpos := Png.parts?_header hp
    simp only at h
    split at h
    · cases h
    split at h
    · cases h
    · exact Image.fills_finish hpos.1 hpos.2 h

end TexturePack
