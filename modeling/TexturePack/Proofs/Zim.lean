import Mathlib
import TexturePack.Proofs.Zlib
import TexturePack.Proofs.Image.Placement

/-! Which byte strings are images of the ZIM container. Whether the pixels are plain or in a zlib
stream, only the first of them are read, and what follows has no say in the image. -/
namespace TexturePack

open Image

namespace ZimHeader

theorem validate_iff (h : ZimHeader) :
    h.validate = .ok () ↔ h.magic = mark ∧ h.format = 0 ∧ Measured h.width h.height := by
  constructor
  · intro hv
    have hsize := validate_eq_ok hv
    unfold validate at hv
    split at hv
    · cases hv
    next hmark =>
    split at hv
    · cases hv
    next hformat =>
    exact ⟨not_not.mp hmark, by simpa [isRgba8] using hformat, hsize⟩
  · rintro ⟨hmark, hformat, hsize⟩
    unfold validate
    rw [if_neg (not_not.mpr hmark), if_neg (by simp [isRgba8, hformat]),
      checkDimensions_of_measured hsize]

theorem levelBytes_of_measured {h : ZimHeader} (hm : Measured h.width h.height) :
    h.levelBytes = .ok (4 * h.width * h.height) := by
  have hpacked : PixelFormat.rgba8.packedSize h.width h.height = 4 * h.width * h.height := by
    rw [Nat.mul_assoc, Nat.mul_comm 4]
    rfl
  have hword : 4 * h.width * h.height < wordLimit := hm.bytes_le.trans_lt (by decide)
  unfold levelBytes PixelFormat.checkedLevelSize?
  rw [hpacked, if_pos hword]

end ZimHeader

namespace Zim

theorem and_two_pow_eq_zero_iff (n i : Nat) : n &&& 2 ^ i = 0 ↔ n.testBit i = false := by
  rw [Nat.and_two_pow]
  cases n.testBit i <;> simp

/-- The bytes of the pixels: all that follows the header, or what comes out of it. -/
def payload (data : Bytes) : Bytes :=
  if data.word32 12 &&& 0x100 = 0 then data.drop 16 else Zlib.yielded (data.drop 16)

/-- The payload delivers what is wanted. -/
theorem pixels_of_enough {data : Bytes} {wanted : Nat} (hplain : data.word32 12 &&& 0x1000 = 0)
    (h : wanted ≤ (payload data).length) :
    pixels (.ofBytes data) (data.drop 16) wanted = .ok ((payload data).take wanted) := by
  have hzstd : (ZimHeader.ofBytes data).zstdCompressed = false :=
    (and_two_pow_eq_zero_iff _ 12).mp hplain
  have hzlib : data.word32 12 &&& 0x100 = 0 ↔ (ZimHeader.ofBytes data).zlibCompressed = false :=
    and_two_pow_eq_zero_iff _ 8
  unfold payload at h ⊢
  unfold pixels
  rw [if_neg (by simp [hzstd])]
  split at h
  next hraw => rw [if_neg (by simp [hzlib.mp hraw]), if_pos hraw]
  next hstream =>
    have hset : (ZimHeader.ofBytes data).zlibCompressed = true := by
      rw [← Bool.not_eq_false]
      exact mt hzlib.mpr hstream
    rw [if_pos hset, Zlib.deliver?_of_enough h, if_neg hstream]

/-- The payload delivers less than is wanted. -/
theorem length_lt_of_pixels {data found : Bytes} {wanted : Nat}
    (h : (payload data).length < wanted)
    (hp : pixels (.ofBytes data) (data.drop 16) wanted = .ok found) : found.length < wanted := by
  have hzlib : data.word32 12 &&& 0x100 = 0 ↔ (ZimHeader.ofBytes data).zlibCompressed = false :=
    and_two_pow_eq_zero_iff _ 8
  unfold payload at h
  unfold pixels at hp
  split at hp
  · cases hp
  split at hp
  next hset =>
    rw [if_neg (by simp [hzlib, hset])] at h
    split at hp
    next hd =>
      cases hp
      exact Zlib.length_lt_of_deliver? h hd
    next => cases hp
  next hclear =>
    rw [if_pos (by simpa [hzlib] using hclear)] at h
    cases hp
    rw [List.length_take]
    omega

/-- A file whose first level can be shown at a size. -/
structure Usable (data : Bytes) (levelWidth levelHeight : Nat) : Prop where
  header : 16 ≤ data.length
  mark : data.take 4 = ZimHeader.mark
  format : data.word32 12 &&& 0x0F = 0
  notZstd : data.word32 12 &&& 0x1000 = 0
  size : Measured (data.word32 4) (data.word32 8)
  fits : Fits (payload data) (data.word32 4) (data.word32 8) levelWidth levelHeight

variable {data : Bytes} {levelWidth levelHeight : Nat}

/-- The pixels alone fit as well. -/
theorem Usable.fits_take (h : Usable data levelWidth levelHeight) :
    Fits ((payload data).take (4 * data.word32 4 * data.word32 8)) (data.word32 4) (data.word32 8)
      levelWidth levelHeight :=
  ⟨h.fits.1, (List.length_take_of_le h.fits.2).ge⟩

/-- What is done with a file whose header is sound. -/
theorem decode_of_valid (hheader : 16 ≤ data.length)
    (hvalid : (ZimHeader.ofBytes data).validate = .ok ()) (levelWidth levelHeight : Nat) :
    decode data levelWidth levelHeight =
      pixels (.ofBytes data) (data.drop 16) (4 * data.word32 4 * data.word32 8) >>= fun found =>
        if found.length < 4 * data.word32 4 * data.word32 8 then
          .refuse (.shortRead (4 * data.word32 4 * data.word32 8) found.length)
        else finish found (data.word32 4) (data.word32 8) levelWidth levelHeight true := by
  have hwanted : (ZimHeader.ofBytes data).levelBytes = .ok (4 * data.word32 4 * data.word32 8) :=
    ZimHeader.levelBytes_of_measured ((ZimHeader.validate_iff _).mp hvalid).2.2
  rw [decode, if_neg (show ¬data.length < ZimHeader.size from Nat.not_lt.mpr hheader)]
  simp only [hvalid, hwanted]
  rfl

/-- Of a usable file the first bytes of the payload are padded. -/
theorem decode_of_usable (h : Usable data levelWidth levelHeight) :
    decode data levelWidth levelHeight =
      finish ((payload data).take (4 * data.word32 4 * data.word32 8)) (data.word32 4)
        (data.word32 8) levelWidth levelHeight true := by
  have hformat : data.word32 12 % 2 ^ 4 = 0 := by
    rw [← Nat.and_two_pow_sub_one_eq_mod]
    exact h.format
  have hvalid : (ZimHeader.ofBytes data).validate = .ok () :=
    (ZimHeader.validate_iff _).mpr ⟨h.mark, hformat, h.size⟩
  rw [decode_of_valid h.header hvalid, pixels_of_enough h.notZstd h.fits.2]
  exact if_neg (Nat.not_lt.mpr h.fits_take.2)

/-- A file with a sound header whose pixels are all there is usable if they fit the level. -/
theorem usable_of_pixels {found : Bytes} (hheader : 16 ≤ data.length)
    (hvalid : (ZimHeader.ofBytes data).validate = .ok ())
    (hpixels : pixels (.ofBytes data) (data.drop 16) (4 * data.word32 4 * data.word32 8) =
      .ok found)
    (hfound : 4 * data.word32 4 * data.word32 8 ≤ found.length)
    (hw : data.word32 4 ≤ levelWidth) (hh : data.word32 8 ≤ levelHeight) :
    Usable data levelWidth levelHeight := by
  obtain ⟨hmark, hformat, hmeasured⟩ := (ZimHeader.validate_iff _).mp hvalid
  have hplain : (ZimHeader.ofBytes data).zstdCompressed = false := by
    by_contra hzstd
    rw [pixels, if_pos (by simpa using hzstd)] at hpixels
    cases hpixels
  have henough : 4 * data.word32 4 * data.word32 8 ≤ (payload data).length := by
    by_contra hfew
    have := length_lt_of_pixels (Nat.lt_of_not_le hfew) hpixels
    omega
  refine ⟨hheader, hmark, ?_, (and_two_pow_eq_zero_iff _ 12).mpr hplain, hmeasured, ⟨hw, hh⟩,
    henough⟩
  rw [show (0x0F : Nat) = 2 ^ 4 - 1 from rfl, Nat.and_two_pow_sub_one_eq_mod]
  exact hformat

/-- Every other file is refused: for its header, its pixels, or the level that is too small. -/
theorem decode_of_not_usable (h : ¬Usable data levelWidth levelHeight) :
    ∃ e, decode data levelWidth levelHeight = .refuse e := by
  by_cases hshort : data.length < ZimHeader.size
  · exact ⟨_, if_pos hshort⟩
  have hheader : 16 ≤ data.length := Nat.le_of_not_lt hshort
  rcases hvalid : (ZimHeader.ofBytes data).validate with e | ⟨⟩
  · obtain ⟨x, rfl⟩ := ZimHeader.validate_error hvalid
    refine ⟨x, ?_⟩
    rw [decode, if_neg hshort]
    simp only [hvalid]
    rfl
  rw [decode_of_valid hheader hvalid]
  rcases hpixels : pixels (.ofBytes data) (data.drop 16) (4 * data.word32 4 * data.word32 8) with
    e | found
  · obtain ⟨x, rfl⟩ := Zim.pixels_error hpixels
    exact ⟨x, rfl⟩
  by_cases hfound : found.length < 4 * data.word32 4 * data.word32 8
  · exact ⟨_, if_pos hfound⟩
  -- All is there, so the level is what is too small.
  have hsmall : levelWidth < data.word32 4 ∨ levelHeight < data.word32 8 := by
    by_contra hfits
    have hin : data.word32 4 ≤ levelWidth ∧ data.word32 8 ≤ levelHeight := by omega
    exact h (usable_of_pixels hheader hvalid hpixels (Nat.le_of_not_lt hfound) hin.1 hin.2)
  exact ⟨_, (if_neg hfound).trans (finish_of_small found true hsmall)⟩

theorem decode_placed (h : Usable data levelWidth levelHeight)
    (hbuffer : 4 * levelWidth * levelHeight < bufferLimit) :
    ∃ i, decode data levelWidth levelHeight = .ok i ∧
      i.Placed ((payload data).take (4 * data.word32 4 * data.word32 8)) (data.word32 4)
        (data.word32 8) levelWidth levelHeight true := by
  rw [decode_of_usable h]
  exact finish_placed h.size.width_pos h.fits_take hbuffer true

theorem decode_of_unbuffered (hsize : 4 * levelWidth * levelHeight < wordLimit)
    (h : Usable data levelWidth levelHeight)
    (hbuffer : bufferLimit ≤ 4 * levelWidth * levelHeight) :
    decode data levelWidth levelHeight = .crash .sizeOverflow := by
  rw [decode_of_usable h]
  exact finish_of_unbuffered hsize h.fits_take hbuffer true

theorem usable_of_ok (hsize : 4 * levelWidth * levelHeight < wordLimit) {i : Image}
    (hi : decode data levelWidth levelHeight = .ok i) :
    Usable data levelWidth levelHeight ∧ 4 * levelWidth * levelHeight < bufferLimit := by
  have husable : Usable data levelWidth levelHeight := by
    by_contra hnot
    obtain ⟨e, he⟩ := decode_of_not_usable hnot
    rw [hi] at he
    cases he
  refine ⟨husable, Nat.lt_of_not_le fun hbuffer => ?_⟩
  rw [decode_of_unbuffered hsize husable hbuffer] at hi
  cases hi

/-- A file with the pixels of another one in a sound zlib stream. -/
structure Packs (packed data : Bytes) : Prop where
  header : 16 ≤ data.length
  header_packed : 16 ≤ packed.length
  start : packed.take 12 = data.take 12
  plain : data.word32 12 &&& 0x100 = 0
  flags : packed.word32 12 = data.word32 12 ||| 0x100
  sound : (Zlib.inflate .streaming true (packed.drop 16)).stop = none
  content : (Zlib.inflate .streaming true (packed.drop 16)).output.toList = data.drop 16

namespace Packs

variable {packed : Bytes}

theorem ofBytes_eq (h : Packs packed data) : ZimHeader.ofBytes packed =
    { ZimHeader.ofBytes data with flags := data.word32 12 ||| 0x100 } := by
  have hslice : ∀ start len : Nat, start + len ≤ 12 →
      packed.slice start len = data.slice start len := by
    intro start len hin
    rw [← Bytes.slice_take hin, h.start, Bytes.slice_take hin]
  have hword : ∀ start : Nat, start + 4 ≤ 12 → packed.word32 start = data.word32 start :=
    fun start hin => congrArg Bytes.toNatLE (hslice start 4 hin)
  rw [ZimHeader.ofBytes, ZimHeader.ofBytes, hslice 0 4 (by decide), hword 4 (by decide),
    hword 8 (by decide), h.flags]

/-- The flag of the stream is none of those that are checked. -/
theorem validate_eq (h : Packs packed data) :
    (ZimHeader.ofBytes packed).validate = (ZimHeader.ofBytes data).validate := by
  have hformat : (data.word32 12 ||| 0x100) % 2 ^ 4 = data.word32 12 % 2 ^ 4 := by
    rw [Nat.or_mod_two_pow]
    exact Nat.or_zero _
  have hsame : (ZimHeader.ofBytes packed).format = (ZimHeader.ofBytes data).format := by
    rw [h.ofBytes_eq]
    exact hformat
  unfold ZimHeader.validate ZimHeader.isRgba8
  rw [hsame, h.ofBytes_eq]

theorem payload_eq (h : Packs packed data) : payload packed = payload data := by
  have hset : (packed.word32 12).testBit 8 = true := by
    rw [h.flags, Nat.testBit_or]
    exact Bool.or_true _
  have hstream : ¬packed.word32 12 &&& 0x100 = 0 := fun hclear =>
    Bool.false_ne_true (((and_two_pow_eq_zero_iff _ 8).mp hclear).symm.trans hset)
  rw [payload, payload, if_neg hstream, if_pos h.plain, Zlib.yielded_of_sound h.sound, h.content]

theorem pixels_eq (h : Packs packed data) (wanted : Nat) :
    pixels (.ofBytes packed) (packed.drop 16) wanted =
      pixels (.ofBytes data) (data.drop 16) wanted := by
  have hzstd : (ZimHeader.ofBytes packed).zstdCompressed =
      (ZimHeader.ofBytes data).zstdCompressed := by
    rw [h.ofBytes_eq, ZimHeader.zstdCompressed, Nat.testBit_or]
    exact Bool.or_false _
  have hset : (ZimHeader.ofBytes packed).zlibCompressed = true := by
    rw [h.ofBytes_eq, ZimHeader.zlibCompressed, Nat.testBit_or]
    exact Bool.or_true _
  have hclear : (ZimHeader.ofBytes data).zlibCompressed = false :=
    (and_two_pow_eq_zero_iff _ 8).mp h.plain
  have hdelivered : Zlib.deliver? (packed.drop 16) wanted = some ((data.drop 16).take wanted) := by
    rw [Zlib.deliver?_of_sound h.sound, h.content]
  rw [pixels, pixels, hzstd, hset, hclear, hdelivered]
  rfl

/-- A file and its packed form decode to the same result, also where that is a refusal. -/
theorem decode_eq (h : Packs packed data) (levelWidth levelHeight : Nat) :
    decode packed levelWidth levelHeight = decode data levelWidth levelHeight := by
  have hlevel : (ZimHeader.ofBytes packed).levelBytes = (ZimHeader.ofBytes data).levelBytes := by
    rw [h.ofBytes_eq]
    rfl
  have hwidth : (ZimHeader.ofBytes packed).width = (ZimHeader.ofBytes data).width := by
    rw [h.ofBytes_eq]
  have hheight : (ZimHeader.ofBytes packed).height = (ZimHeader.ofBytes data).height := by
    rw [h.ofBytes_eq]
  rw [decode, decode,
    if_neg (show ¬packed.length < ZimHeader.size from Nat.not_lt.mpr h.header_packed),
    if_neg (show ¬data.length < ZimHeader.size from Nat.not_lt.mpr h.header)]
  simp only [h.validate_eq, hlevel, hwidth, hheight, ZimHeader.size, h.pixels_eq]

end Packs

/-- A file with its pixels in a stream of stored blocks. -/
def pack (data : Bytes) : Bytes :=
  data.take 12 ++ (Bytes.ofNatLE 4 (data.word32 12 ||| 0x100) ++ Zlib.store (data.drop 16))

/-- Every file with plain pixels has a packed form. -/
theorem packs_pack (hheader : 16 ≤ data.length) (hplain : data.word32 12 &&& 0x100 = 0) :
    Packs (pack data) data := by
  have hstart : (data.take 12).length = 12 := List.length_take_of_le (by omega)
  have hflags : data.word32 12 < 2 ^ 32 := by
    have hbytes : (data.slice 12 4).length ≤ 4 := List.length_take_le ..
    exact (Bytes.toNatLE_lt _).trans_le (Nat.pow_le_pow_right (by decide) hbytes)
  have hword : data.word32 12 ||| 0x100 < 2 ^ 32 := Nat.or_lt_two_pow hflags (by decide)
  have hrest : (pack data).drop 16 = Zlib.store (data.drop 16) := by
    rw [pack, ← List.append_assoc, List.drop_left' (by simp [hstart])]
  obtain ⟨houtput, hsound⟩ := Zlib.inflate_store (data.drop 16)
  refine ⟨hheader, ?_, List.take_left' hstart, hplain, ?_, ?_, ?_⟩
  · rw [pack, List.length_append, List.length_append, hstart, Bytes.length_ofNatLE]
    omega
  · have hslice : (pack data).slice 12 4 = Bytes.ofNatLE 4 (data.word32 12 ||| 0x100) :=
      Bytes.slice_middle _ _ rfl hstart (Bytes.length_ofNatLE 4 _)
    rw [Bytes.word32, hslice, Bytes.toNatLE_ofNatLE hword]
  · rw [hrest, hsound]
  · rw [hrest, houtput]

/-- A usable file has its first level placed, unless the level has no buffer, and any other file is
refused. Only the first bytes of the payload count, so neither a stream around it nor smaller levels
behind it make a difference. -/
theorem usable_or_refused (data : Bytes) (hsize : 4 * levelWidth * levelHeight < wordLimit) :
    ((∃ i, decode data levelWidth levelHeight = .ok i) ↔
        Usable data levelWidth levelHeight ∧ 4 * levelWidth * levelHeight < bufferLimit) ∧
      (∀ i, decode data levelWidth levelHeight = .ok i →
        i.Placed ((payload data).take (4 * data.word32 4 * data.word32 8)) (data.word32 4)
          (data.word32 8) levelWidth levelHeight true) ∧
      ((∃ e, decode data levelWidth levelHeight = .refuse e) ↔
        ¬Usable data levelWidth levelHeight) ∧
      (Usable data levelWidth levelHeight → bufferLimit ≤ 4 * levelWidth * levelHeight →
        decode data levelWidth levelHeight = .crash .sizeOverflow) ∧
      (∀ other, Usable data levelWidth levelHeight → Usable other levelWidth levelHeight →
        other.word32 4 = data.word32 4 → other.word32 8 = data.word32 8 →
        (payload other).take (4 * data.word32 4 * data.word32 8) =
          (payload data).take (4 * data.word32 4 * data.word32 8) →
        decode other levelWidth levelHeight = decode data levelWidth levelHeight) ∧
      (∀ packed, Packs packed data → payload packed = payload data ∧
        decode packed levelWidth levelHeight = decode data levelWidth levelHeight) ∧
      (16 ≤ data.length → data.word32 12 &&& 0x100 = 0 → Packs (pack data) data) := by
  refine ⟨⟨fun ⟨i, hi⟩ => usable_of_ok hsize hi, fun ⟨h, hbuffer⟩ => ?_⟩, fun i hi => ?_,
    ⟨fun ⟨e, he⟩ h => ?_, decode_of_not_usable⟩, decode_of_unbuffered hsize,
    fun other h h' hw hh hsame => ?_, fun packed h => ⟨h.payload_eq, h.decode_eq _ _⟩, packs_pack⟩
  · obtain ⟨i, hi, -⟩ := decode_placed h hbuffer
    exact ⟨i, hi⟩
  · obtain ⟨h, hbuffer⟩ := usable_of_ok hsize hi
    obtain ⟨j, hj, hplaced⟩ := decode_placed h hbuffer
    rw [hi] at hj
    cases hj
    exact hplaced
  · rcases Nat.lt_or_ge (4 * levelWidth * levelHeight) bufferLimit with hbuffer | hbuffer
    · obtain ⟨i, hi, -⟩ := decode_placed h hbuffer
      rw [hi] at he
      cases he
    · rw [decode_of_unbuffered hsize h hbuffer] at he
      cases he
  · rw [decode_of_usable h', decode_of_usable h, hw, hh, hsame]

/-- One covered pixel and a byte behind it. -/
def onePixelFile : Bytes :=
  ZimHeader.mark ++ [1, 0, 0, 0, 1, 0, 0, 0, 0, 0, 0, 0, 1, 2, 3, 255, 9]

/-- The pixel is placed in a level of two columns, plain or packed, and refused by an empty one. -/
theorem usable_or_refused_onePixel :
    4 * 2 * 1 < wordLimit ∧ 4 * 0 * 1 < wordLimit ∧
      (∃ i, decode onePixelFile 2 1 = .ok i ∧ decode (pack onePixelFile) 2 1 = .ok i ∧
        i.pixels.length = 8 ∧ pixelAt i.pixels 2 0 0 = [1, 2, 3, 255] ∧
        pixelAt i.pixels 2 1 0 = [0, 0, 0, 0] ∧ i.alpha = .solid) ∧
      ∃ e, decode onePixelFile 0 1 = .refuse e := by
  have husable : Usable onePixelFile 2 1 :=
    ⟨by decide, by decide, by decide, by decide, ⟨by decide, by decide, by decide, by decide⟩,
      by decide⟩
  obtain ⟨hok, hplaced, -, -, -, hpacked, hpacks⟩ :=
    usable_or_refused onePixelFile (show 4 * 2 * 1 < wordLimit by decide)
  obtain ⟨i, hi⟩ := hok.mpr ⟨husable, by decide⟩
  have hplace := hplaced i hi
  refine ⟨by decide, by decide, ⟨i, hi, ?_, hplace.length, ?_, ?_, ?_⟩, ?_⟩
  · rw [(hpacked _ (hpacks (by decide) (by decide))).2, hi]
  · rw [hplace.pixel 0 (by decide) 0 (by decide)]
    decide
  · rw [hplace.pixel 1 (by decide) 0 (by decide)]
    decide
  · rw [hplace.alpha]
    decide
  · refine (usable_or_refused onePixelFile (show 4 * 0 * 1 < wordLimit by decide)).2.2.1.mpr ?_
    exact fun h => absurd h.fits.1.1 (by decide)

/-- A usable file has no image in a level of 2^63 bytes. -/
theorem onePixelFile_crashes :
    4 * 2147483648 * 1073741824 < wordLimit ∧ Usable onePixelFile 2147483648 1073741824 ∧
      decode onePixelFile 2147483648 1073741824 = .crash .sizeOverflow :=
  ⟨by decide, ⟨by decide, by decide, by decide, by decide,
    ⟨by decide, by decide, by decide, by decide⟩, by decide⟩, by decide⟩

end Zim
end TexturePack
