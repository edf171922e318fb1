import Mathlib
import TexturePack.Proofs.Image

/-! One image in levels of different sizes. What a decode makes of a file at one size tells what it
makes of it at every other: an image that is there fits the level or not, and if it fits, only a
level of which no buffer can be made is a crash. -/
namespace TexturePack

/-- An image of a size that a container may give takes no more than 4 GiB. -/
theorem Measured.bytes_le {width height : Nat} (h : Measured width height) :
    4 * width * height ≤ 0x100000000 := by
  have hpixels := Nat.mul_le_mul h.width_le h.height_le
  rw [Nat.mul_assoc]
  unfold maxDimension at hpixels
  omega

namespace Image

variable {bytes : Bytes} {width height levelWidth levelHeight : Nat}

theorem scanAlpha_isOk {stride : Nat} (hstride : 0 < stride) (pixels : Bytes) (width height : Nat) :
    ∃ alpha, scanAlpha pixels stride width height = .ok alpha := by
  rw [scanAlpha, if_neg hstride.ne']
  split <;> exact ⟨_, rfl⟩

theorem padIntoLevel_of_fits (hm : Measured width height)
    (hlong : 4 * width * height ≤ bytes.length) (hw : width ≤ levelWidth)
    (hh : height ≤ levelHeight) (hbuffer : 4 * levelWidth * levelHeight < bufferLimit) :
    ∃ pixels, padIntoLevel bytes width height levelWidth levelHeight = .ok pixels := by
  have hword : 4 * width * height < wordLimit := hm.bytes_le.trans_lt (by decide)
  rw [padIntoLevel, if_neg (by omega), if_neg (Nat.not_le.mpr hword), if_neg (Nat.not_lt.mpr hlong),
    if_neg (Nat.not_le.mpr hbuffer)]
  split
  · exact ⟨_, rfl⟩
  · rw [if_neg hm.width_pos.ne']
    exact ⟨_, rfl⟩

theorem finish_of_small (bytes : Bytes) (alpha : Bool)
    (h : levelWidth < width ∨ levelHeight < height) :
    finish bytes width height levelWidth levelHeight alpha =
      .refuse (.sizeChanged width height levelWidth levelHeight) := by
  rw [finish, padIntoLevel, if_pos h]
  rfl

theorem finish_of_short (hm : Measured width height) (alpha : Bool)
    (hshort : bytes.length < 4 * width * height) (levelWidth levelHeight : Nat) :
    ∃ e, finish bytes width height levelWidth levelHeight alpha = .refuse e := by
  by_cases hsmall : levelWidth < width ∨ levelHeight < height
  · exact ⟨_, finish_of_small bytes alpha hsmall⟩
  · have hword : 4 * width * height < wordLimit := hm.bytes_le.trans_lt (by decide)
    rw [finish, padIntoLevel, if_neg hsmall, if_neg (Nat.not_le.mpr hword), if_pos hshort]
    exact ⟨_, rfl⟩

theorem finish_of_large (hm : Measured width height) (alpha : Bool)
    (hlong : 4 * width * height ≤ bytes.length) (hw : width ≤ levelWidth)
    (hh : height ≤ levelHeight) (hbuffer : bufferLimit ≤ 4 * levelWidth * levelHeight) :
    finish bytes width height levelWidth levelHeight alpha = .crash .sizeOverflow := by
  have hword : 4 * width * height < wordLimit := hm.bytes_le.trans_lt (by decide)
  rw [finish, padIntoLevel, if_neg (by omega), if_neg (Nat.not_le.mpr hword),
    if_neg (Nat.not_lt.mpr hlong), if_pos hbuffer]
  rfl

theorem finish_of_fits (hm : Measured width height) (alpha : Bool)
    (hlong : 4 * width * height ≤ bytes.length) (hw : width ≤ levelWidth)
    (hh : height ≤ levelHeight) (hbuffer : 4 * levelWidth * levelHeight < bufferLimit) :
    ∃ image, finish bytes width height levelWidth levelHeight alpha = .ok image ∧
      image.Fills levelWidth levelHeight := by
  obtain ⟨pixels, hpixels⟩ := padIntoLevel_of_fits hm hlong hw hh hbuffer
  obtain ⟨found, hfound⟩ := scanAlpha_isOk (hm.width_pos.trans_le hw) pixels width height
  have hfinish : ∃ image, finish bytes width height levelWidth levelHeight alpha = .ok image := by
    cases alpha with
    | false => exact ⟨_, Decode.bind_eq_ok.mpr ⟨pixels, hpixels,
        Decode.bind_eq_ok.mpr ⟨.solid, rfl, rfl⟩⟩⟩
    | true => exact ⟨_, Decode.bind_eq_ok.mpr ⟨pixels, hpixels,
        Decode.bind_eq_ok.mpr ⟨found, hfound, rfl⟩⟩⟩
  obtain ⟨image, himage⟩ := hfinish
  exact ⟨image, himage, fills_finish hm.width_pos hm.height_pos himage⟩

/-- The decodes of one file at all sizes: no image at any of them, or one image that is padded. -/
def Pads (decode : Nat → Nat → Decode Image) (width height : Nat) : Prop :=
  (∃ e, (∀ d, e = .defect d → d = .partialColor) ∧
      ∀ levelWidth levelHeight, decode levelWidth levelHeight = .error e) ∨
    ∃ bytes alpha, ∀ levelWidth levelHeight,
      decode levelWidth levelHeight = finish bytes width height levelWidth levelHeight alpha

/-- What becomes of an image in a level, beside what it is in its own size. -/
inductive Rescaled (width height levelWidth levelHeight : Nat) :
    Decode Image → Decode Image → Prop
  | refused (e e' : FormatError) :
      Rescaled width height levelWidth levelHeight (.refuse e) (.refuse e')
  /-- A palette that ends within a colour. -/
  | broken : Rescaled width height levelWidth levelHeight (.crash .partialColor)
      (.crash .partialColor)
  | small (own : Image) (h : levelWidth < width ∨ levelHeight < height) :
      Rescaled width height levelWidth levelHeight (.ok own)
        (.refuse (.sizeChanged width height levelWidth levelHeight))
  | large (own : Image) (hw : width ≤ levelWidth) (hh : height ≤ levelHeight)
      (hbuffer : bufferLimit ≤ 4 * levelWidth * levelHeight) :
      Rescaled width height levelWidth levelHeight (.ok own) (.crash .sizeOverflow)
  | filled (own image : Image) (hw : width ≤ levelWidth) (hh : height ≤ levelHeight)
      (hfills : image.Fills levelWidth levelHeight) :
      Rescaled width height levelWidth levelHeight (.ok own) (.ok image)

theorem Pads.rescaled {decode : Nat → Nat → Decode Image} (h : Pads decode width height)
    (hm : Measured width height) (levelWidth levelHeight : Nat) :
    Rescaled width height levelWidth levelHeight (decode width height)
      (decode levelWidth levelHeight) := by
  obtain ⟨e, hdefect, hdecode⟩ | ⟨bytes, alpha, hdecode⟩ := h
  · rw [hdecode, hdecode]
    rcases e with e | d
    · exact .refused e e
    · obtain rfl := hdefect d rfl
      exact .broken
  rw [hdecode, hdecode]
  rcases Nat.lt_or_ge bytes.length (4 * width * height) with hshort | hlong
  · obtain ⟨e, he⟩ := finish_of_short hm alpha hshort width height
    obtain ⟨e', he'⟩ := finish_of_short hm alpha hshort levelWidth levelHeight
    rw [he, he']
    exact .refused e e'
  obtain ⟨own, hown, -⟩ := finish_of_fits hm alpha hlong le_rfl le_rfl
    (hm.bytes_le.trans_lt (by decide))
  rw [hown]
  by_cases hsmall : levelWidth < width ∨ levelHeight < height
  · rw [finish_of_small bytes alpha hsmall]
    exact .small own hsmall
  obtain ⟨hw, hh⟩ : width ≤ levelWidth ∧ height ≤ levelHeight := by omega
  rcases Nat.lt_or_ge (4 * levelWidth * levelHeight) bufferLimit with hbuffer | hbuffer
  · obtain ⟨image, himage, hfills⟩ := finish_of_fits hm alpha hlong hw hh hbuffer
    rw [himage]
    exact .filled own image hw hh hfills
  · rw [finish_of_large hm alpha hlong hw hh hbuffer]
    exact .large own hw hh hbuffer

/-- In its own size an image always has a buffer. -/
theorem Pads.own_defect {decode : Nat → Nat → Decode Image} (h : Pads decode width height)
    (hm : Measured width height) {d : Defect} (hd : decode width height = .crash d) :
    d = .partialColor := by
  have hown := h.rescaled hm width height
  rw [hd] at hown
  cases hown
  rfl

end Image

open Image

namespace ZimHeader

theorem validate_error {h : ZimHeader} {e : Fault} (hv : h.validate = .error e) :
    ∃ x, e = .format x := by
  unfold validate checkDimensions at hv
  split_ifs at hv <;> cases hv <;> exact ⟨_, rfl⟩

theorem levelBytes_error {h : ZimHeader} {e : Fault} (hb : h.levelBytes = .error e) :
    ∃ x, e = .format x := by
  unfold levelBytes at hb
  split at hb <;> cases hb
  exact ⟨_, rfl⟩

end ZimHeader

theorem Zim.pixels_error {h : ZimHeader} {payload : Bytes} {wanted : Nat} {e : Fault}
    (hp : pixels h payload wanted = .error e) : ∃ x, e = .format x := by
  unfold pixels at hp
  split at hp
  · cases hp
    exact ⟨_, rfl⟩
  split at hp
  · split at hp <;> cases hp
    exact ⟨_, rfl⟩
  · cases hp

theorem Zim.pads (data : Bytes) :
    Pads (decode data) (ZimHeader.ofBytes data).width (ZimHeader.ofBytes data).height := by
  have hrefused : ∀ {e : Fault}, (∃ x, e = .format x) → ∀ d, e = .defect d → d = .partialColor := by
    rintro e ⟨x, rfl⟩ d hd
    cases hd
  unfold decode
  by_cases hshort : data.length < ZimHeader.size
  · exact .inl ⟨_, by simp, fun _ _ => if_pos hshort⟩
  simp only [if_neg hshort]
  rcases hv : (ZimHeader.ofBytes data).validate with e | u
  · exact .inl ⟨e, hrefused (ZimHeader.validate_error hv), fun _ _ => rfl⟩
  rcases hb : (ZimHeader.ofBytes data).levelBytes with e | wanted
  · exact .inl ⟨e, hrefused (ZimHeader.levelBytes_error hb), fun _ _ => rfl⟩
  change Pads (fun levelWidth levelHeight =>
    pixels (.ofBytes data) (data.drop ZimHeader.size) wanted >>= fun found =>
      if found.length < wanted then .refuse (.shortRead wanted found.length)
      else finish found (ZimHeader.ofBytes data).width (ZimHeader.ofBytes data).height levelWidth
        levelHeight true) _ _
  rcases hp : pixels (.ofBytes data) (data.drop ZimHeader.size) wanted with e | found
  · exact .inl ⟨e, hrefused (Zim.pixels_error hp), fun _ _ => rfl⟩
  by_cases hfound : found.length < wanted
  · exact .inl ⟨_, hrefused ⟨_, rfl⟩, fun _ _ => if_pos hfound⟩
  · exact .inr ⟨found, true, fun _ _ => if_neg hfound⟩

namespace Png

/-- A header has 13 bytes, the size in front. -/
theorem Header.ofBytes?_size {bs : Bytes} {h : Header} (ho : ofBytes? bs = some h) :
    bs.length = 13 ∧ h.width = (bs.slice 0 4).toNatBE ∧ h.height = (bs.slice 4 4).toNatBE := by
  simp only [ofBytes?, Option.bind_eq_bind, Option.bind_none] at ho
  split at ho
  · cases ho
  next hlen =>
  split at ho
  · cases ho
  obtain ⟨color, -, ho⟩ := Option.bind_eq_some_iff.mp ho
  split at ho
  · cases ho
  split at ho
  · cases ho
  split at ho <;> cases ho <;> exact ⟨not_not.mp hlen, rfl, rfl⟩

/-- The first chunk of a file, if it is whole. -/
theorem chunks_cons {fuel : Nat} {bs : Bytes} {first : Chunk} {rest : List Chunk}
    (hc : chunks fuel bs = first :: rest) (hintact : first.intact = true) :
    first.body = bs.slice 8 (Bytes.toNatBE (bs.take 4)) := by
  rcases fuel with _ | fuel
  · cases hc
  rw [chunks] at hc
  simp only at hc
  split at hc
  · cases hc
  split at hc
  · cases hc
    cases hintact
  · cases hc
    rfl

/-- The size of an image stands at the same place in every file. -/
theorem parts?_size {data : Bytes} {p : Parts} (hp : parts? data = some p) :
    p.header.width = (data.slice 16 4).toNatBE ∧ p.header.height = (data.slice 20 4).toNatBE := by
  simp only [parts?, Option.bind_eq_bind, Option.bind_none] at hp
  split at hp
  · cases hp
  split at hp
  next first rest hchunks =>
    split at hp
    · cases hp
    next hfirst =>
    obtain ⟨h, hheader, hp⟩ := Option.bind_eq_some_iff.mp hp
    obtain ⟨⟨setup, run⟩, -, hp⟩ := Option.bind_eq_some_iff.mp hp
    simp only at hp
    split at hp
    · cases hp
    split at hp
    · cases hp
    cases hp
    have hintact : first.intact = true := by
      rw [← Bool.not_eq_false]
      exact fun hno => hfirst (.inr (by rw [hno]; rfl))
    obtain ⟨hlen, hw, hh⟩ := Header.ofBytes?_size hheader
    have hbody := chunks_cons hchunks hintact
    have hlong : 13 ≤ Bytes.toNatBE ((data.drop 8).take 4) := by
      rw [hbody, Bytes.length_slice] at hlen
      omega
    rw [hw, hh, hbody, Bytes.slice_slice (by omega), Bytes.slice_slice (by omega),
      Bytes.slice_drop, Bytes.slice_drop]
    exact ⟨rfl, rfl⟩
  · cases hp

theorem pads (data : Bytes) :
    Pads (decode data) (data.slice 16 4).toNatBE (data.slice 20 4).toNatBE := by
  unfold decode
  rcases hp : parts? data with _ | p
  · exact .inl ⟨.format .image, by simp, fun _ _ => rfl⟩
  obtain ⟨hw, hh⟩ := parts?_size hp
  rw [← hw, ← hh]
  rcases hbroken : p.brokenPalette && p.reachesColors (decompress p.header.room p.data.pieces) with
    _ | _
  · rcases hpixels : p.pixels? (decompress p.header.room p.data.pieces) with _ | bytes
    · refine .inl ⟨.format .image, by simp, fun _ _ => ?_⟩
      simp only [hbroken, hpixels]
      rfl
    · refine .inr ⟨bytes, p.hasAlpha, fun _ _ => ?_⟩
      simp only [hbroken, hpixels]
      rfl
  · refine .inl ⟨.defect .partialColor, by simp, fun _ _ => ?_⟩
    simp only [hbroken]
    rfl

end Png
end TexturePack
