import Mathlib
import TexturePack.Proofs.Ktx2.Parsing

/-! The sizes of the levels of a KTX2 file. Sizes are halved from level to level and fit their
words. A level that lies deeper than a dimension has bits has no size, though a file may have
it. -/
namespace TexturePack.Ktx2

theorem blocksFor_eq_ceilDiv (n : Nat) : blocksFor n = n ⌈/⌉ 4 := rfl

theorem halved_eq (dimension level : Nat) :
    halved dimension level = max 1 (dimension / 2 ^ level) := by
  rw [halved, Nat.shiftRight_eq_div_pow, Nat.max_comm]

theorem halved_succ_le (dimension level : Nat) :
    halved dimension (level + 1) ≤ halved dimension level := by
  have hshift : dimension >>> (level + 1) ≤ dimension >>> level := by
    rw [Nat.shiftRight_succ]
    exact Nat.div_le_self ..
  unfold halved
  omega

/-- The geometry of a level below a first one of some size. -/
structure LevelGeometry.Measures (g : LevelGeometry) (width height level : Nat) : Prop where
  width : g.width = max 1 (width / 2 ^ level)
  height : g.height = max 1 (height / 2 ^ level)
  blocksX : g.blocksX = g.width ⌈/⌉ 4
  blocksY : g.blocksY = g.height ⌈/⌉ 4
  /-- All blocks together can be counted in 32 bits. -/
  blocks : g.blocks < halfWordLimit
  size : ∀ target, (g.layout target).size = target.format.levelSize g.width g.height

/-- Sizes that a container may give are measured without an overflow. -/
theorem measures_ofSize {width height : Nat} (h : Measured width height) (level : Nat) :
    (LevelGeometry.ofSize (halved width level) (halved height level)).Measures width height
      level where
  width := halved_eq width level
  height := halved_eq height level
  blocksX := blocksFor_eq_ceilDiv _
  blocksY := blocksFor_eq_ceilDiv _
  blocks := by
    have hw := blocksFor_le (Harvest.halved_le h.width_le level)
    have hh := blocksFor_le (Harvest.halved_le h.height_le level)
    exact (Nat.mul_le_mul hw hh).trans_lt (by decide)
  size target := by
    have hfits := target.format.packedSize_lt (Harvest.halved_le h.width_le level)
      (Harvest.halved_le h.height_le level)
    rw [Harvest.layout_size_ofSize, PixelFormat.levelSize, PixelFormat.checkedLevelSize?,
      LevelGeometry.ofSize, if_pos hfits, Option.getD_some]

/-- Every level of a parsed file has the size that its depth calls for, no level is larger than the
one before, and the levels behind the last have none. Only a level that is deeper than a dimension
has bits has no answer. -/
theorem geometry_of_level {data : Bytes} {f : File} (hf : File.parse data = .ok f) :
    (∀ level < f.levels, level < 32 →
        ∃ g, f.geometry? level = .ok (some g) ∧
          g.Measures (data.word32 20) (data.word32 24) level) ∧
      (∀ level < f.levels, 32 ≤ level → f.geometry? level = .crash .depthOverflow) ∧
      (∀ level, f.levels ≤ level → f.geometry? level = .ok none) ∧
      ∀ level g g', f.geometry? level = .ok (some g) → f.geometry? (level + 1) = .ok (some g') →
        g'.width ≤ g.width ∧ g'.height ≤ g.height := by
  obtain ⟨hheader, hsize⟩ := File.parse_eq_ok hf
  have hwidth : f.header.width = data.word32 20 := by rw [hheader]; rfl
  have hheight : f.header.height = data.word32 24 := by rw [hheader]; rfl
  rw [hwidth, hheight] at hsize
  refine ⟨fun level hlevel hdepth => ?_, fun level hlevel hdepth => ?_, fun level hlevel => ?_, ?_⟩
  · refine ⟨_, ?_, measures_ofSize hsize level⟩
    rw [File.geometry?, if_neg (Nat.not_le.mpr hlevel), if_neg (Nat.not_le.mpr hdepth), hwidth,
      hheight]
  · rw [File.geometry?, if_neg (Nat.not_le.mpr hlevel), if_pos hdepth]
  · rw [File.geometry?, if_pos hlevel]
  · intro level g g' hg hg'
    rw [Harvest.geometry?_eq_some hg, Harvest.geometry?_eq_some hg']
    exact ⟨halved_succ_le .., halved_succ_le ..⟩

/-- A file of 8x4 pixels whose index has 33 levels. -/
def deepFile : Bytes :=
  Ktx2.identifier ++
    [0, 0, 0, 0, 1, 0, 0, 0, 8, 0, 0, 0, 4, 0, 0, 0, 0, 0, 0, 0, 0, 0, 0, 0, 1, 0, 0, 0,
      33, 0, 0, 0, 1, 0, 0, 0] ++ Bytes.zeros (32 + 33 * 24)

theorem deepFile_parse : File.parse deepFile = .ok (.ofBytes deepFile) := by
  decide +kernel

theorem geometry_of_level_deepFile :
    File.parse deepFile = .ok (.ofBytes deepFile) ∧
      31 < (File.ofBytes deepFile).levels ∧ 31 < 32 ∧
      ∃ g, File.geometry? (.ofBytes deepFile) 31 = .ok (some g) ∧ g.Measures 8 4 31 := by
  have hlevel : 31 < (File.ofBytes deepFile).levels := by decide +kernel
  exact ⟨deepFile_parse, hlevel, by decide,
    (geometry_of_level deepFile_parse).1 31 hlevel (by decide)⟩

/-- The last level of the file has a place in its index, but no size. -/
theorem deepest_level_has_no_size :
    File.parse deepFile = .ok (.ofBytes deepFile) ∧ 32 < (File.ofBytes deepFile).levels ∧
      File.geometry? (.ofBytes deepFile) 32 = .crash .depthOverflow := by
  decide +kernel

end TexturePack.Ktx2
