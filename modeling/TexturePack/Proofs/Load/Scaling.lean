import Mathlib
import TexturePack.Proofs.Load.Sizes

/-! The size that a level calls for, and the size of the first level that a file yields. -/
namespace TexturePack

theorem scaleExact?_eq_some {value num den s : Nat} (h : scaleExact? value num den = some s) :
    scaleTruncating value num den = s ∧ den ≠ 0 ∧ value * num = den * s := by
  unfold scaleExact? at h
  split at h
  · cases h
  next hd =>
    obtain ⟨hden, hmod, hlt⟩ : den ≠ 0 ∧ value * num % den = 0 ∧
        value * num / den < halfWordLimit := by
      simpa only [not_or, not_not, Nat.not_le] using hd
    cases h
    refine ⟨?_, hden, ?_⟩
    · rw [scaleTruncating, if_neg hden, Nat.min_eq_left (by omega)]
    · exact (Nat.mul_div_cancel' (Nat.dvd_of_mod_eq_zero hmod)).symm

/-- A ratio that leaves something of one dimension leaves something of each that it divides
evenly. -/
theorem scaleExact?_pos {value value' num den s : Nat} (h : scaleExact? value num den = some s)
    (hvalue : 0 < value) (hpos : 0 < scaleTruncating value' num den) : 0 < s := by
  obtain ⟨-, hden, heq⟩ := scaleExact?_eq_some h
  have hnum : 0 < num := by
    rw [scaleTruncating, if_neg hden] at hpos
    by_contra hzero
    obtain rfl : num = 0 := by omega
    simp at hpos
  by_contra hs
  obtain rfl : s = 0 := by omega
  have := Nat.mul_pos hvalue hnum
  omega

namespace Request

theorem rescale?_eq_some {r : Request} {width height : Nat} {s : Nat × Nat}
    (h : r.rescale? width height = some s) :
    scaleExact? width r.width r.authoredWidth = some s.1 ∧
      scaleExact? height r.height r.authoredHeight = some s.2 := by
  unfold rescale? at h
  simp only [Option.bind_eq_bind, Option.bind_eq_some_iff, Option.pure_def,
    Option.some.injEq] at h
  obtain ⟨w, hw, h', hh, rfl⟩ := h
  exact ⟨hw, hh⟩

theorem rescaleTruncating_of_rescale? {r : Request} {width height : Nat} {s : Nat × Nat}
    (h : r.rescale? width height = some s) : r.rescaleTruncating width height = s := by
  obtain ⟨hw, hh⟩ := rescale?_eq_some h
  exact Prod.ext (scaleExact?_eq_some hw).1 (scaleExact?_eq_some hh).1

theorem rescale?_pos {r : Request} {width height width' height' : Nat} {s : Nat × Nat}
    (h : r.rescale? width height = some s) (hw : 0 < width) (hh : 0 < height)
    (hw' : 0 < (r.rescaleTruncating width' height').1)
    (hh' : 0 < (r.rescaleTruncating width' height').2) : 0 < s.1 ∧ 0 < s.2 := by
  obtain ⟨hsw, hsh⟩ := rescale?_eq_some h
  exact ⟨scaleExact?_pos hsw hw hw', scaleExact?_pos hsh hh hh'⟩

end Request

namespace Chain

theorem levelSize?_zero (c : Chain) (r : Request) (h : FileHeader) :
    c.levelSize? r h 0 = some (r.rescaleTruncating h.width h.height) := rfl

/-- A level behind the first has the size that the first one calls for. -/
theorem levelSize?_eq_some {c : Chain} {r : Request} {h : FileHeader} {i : Nat} {s : Nat × Nat}
    (hi : 0 < i) (hs : c.levelSize? r h i = some s) :
    r.rescale? h.width h.height = some s ∧
      ∃ base, c.levels.head? = some base ∧ s = (base.width >>> i, base.height >>> i) := by
  unfold levelSize? at hs
  rw [if_neg (by omega)] at hs
  simp only [Option.bind_eq_bind, Option.bind_eq_some_iff] at hs
  obtain ⟨size, hsize, base, hbase, hs⟩ := hs
  split at hs
  next heq =>
    cases hs
    exact ⟨hsize, base, hbase, heq⟩
  · cases hs

end Chain

/-- The size of the first level that a file yields. Universal textures are not scaled. -/
def topSize (kind : Container) (h : FileHeader) (scaled : Nat × Nat) : Nat × Nat :=
  if kind = .ktx2 then (h.width, h.height) else scaled

namespace Harvest

theorem ofFile_sound {t : Option Transcoder} {r : Request} {i : Nat} {kind : Container}
    {h : FileHeader} {width height : Nat} {f : OpenFile}
    (hdds : ∀ info, h.dds = some info → info.format ≠ .undefined)
    (hktx : ∀ file, kind = .ktx2 → f.readAll f.size >>= Ktx2.File.parse = .ok file →
      h.width = file.header.width ∧ h.height = file.header.height) :
    (ofFile t r i kind h width height f).Sound (topSize kind h (width, height)).1
      (topSize kind h (width, height)).2 := by
  cases kind with
  | ktx2 =>
    simp only [ofFile, topSize, if_true]
    rcases hparse : f.readAll f.size >>= Ktx2.File.parse with e | file
    · exact sound_of_nil _ _ (by simp [ofKtx2, hparse, nothing])
        (by simp [ofKtx2, hparse, nothing])
    · obtain ⟨hw, hh⟩ := hktx file rfl hparse
      rw [hw, hh]
      exact ofKtx2_sound hparse i
  | dds => exact ofDds_sound hdds i width height f
  | zim => exact ofImage_sound (fun _ _ h => Zim.fills_decode h) i f
  | png => exact ofImage_sound (fun _ _ h => Png.fills_decode h) i f
  | basis | invalid => exact sound_of_nil _ _ rfl (by simp [ofFile, nothing, Decode.refuse])

/-- Nothing comes behind a file of many levels. -/
theorem ofKtx2_ne_more (t : Option Transcoder) (r : Request) (i : Nat) (f : OpenFile)
    (format : PixelFormat) : (ofKtx2 t r i f).ending ≠ .ok (.more, format) := by
  unfold ofKtx2
  rcases f.readAll f.size >>= Ktx2.File.parse with e | file
  · simp [nothing]
  rcases hp : file.payload? with _ | p
  · simp [hp, nothing, Decode.refuse]
  rcases t with _ | t
  · simp [hp, nothing, Decode.refuse]
  simp only [hp, ofUniversal]
  split
  · simp [Decode.crash]
  · simp [found_ne_more]

/-- Only a failure can stand for a refusal. -/
theorem ending_of_settled {g : Harvest} {promised format : PixelFormat} {result : LoadResult}
    (hresult : result ≠ .failed) (h : (g.settled promised).ending = .ok (result, format)) :
    g.ending = .ok (result, format) := by
  unfold settled at h
  rcases hg : g.ending with (e | d) | ended
  · simp only [hg, Except.ok.injEq, Prod.mk.injEq] at h
    exact absurd h.1.symm hresult
  · simp [hg] at h
  · simpa [hg] using h

theorem ofImage_ne_finished (i width height : Nat) (f : OpenFile)
    (decode : Bytes → Nat → Nat → Decode Image) (format : PixelFormat) :
    (ofImage i width height f decode).ending ≠ .ok (.finished, format) := by
  unfold ofImage
  rcases f.readAll f.size >>= fun bytes => decode bytes width height with e | image
  · simp [nothing]
  · simp

end Harvest

namespace Chain

theorem harvest_ne_more {f : OpenFile} (hk : f.identify.1.container = .ktx2) (c : Chain)
    (t : Option Transcoder) (r : Request) (i : Nat) (format : PixelFormat) :
    (c.harvest t r i f).ending ≠ .ok (.more, format) := by
  unfold harvest
  rcases FileHeader.read f.identify.1 f.identify.2 r.support with (e | d) | header
  · exact fun h => by cases h
  · exact fun h => by cases h
  simp only
  rcases c.levelSize? r header i with _ | ⟨width, height⟩
  · exact fun h => by cases h
  rcases f.identify.2.rewind with _ | f'
  · exact fun h => by cases h
  rw [hk]
  exact fun h => Harvest.ofKtx2_ne_more t r i f' format
    (Harvest.ending_of_settled LoadResult.noConfusion h)

/-- A file that ends the chain with levels is one of many levels. -/
theorem harvest_finished_container {c : Chain} {t : Option Transcoder} {r : Request} {i : Nat}
    {f : OpenFile} {format : PixelFormat}
    (h : (c.harvest t r i f).ending = .ok (.finished, format)) :
    f.identify.1.container = .dds ∨ f.identify.1.container = .ktx2 := by
  unfold harvest at h
  rcases hread : FileHeader.read f.identify.1 f.identify.2 r.support with (e | d) | header
  · simp [hread, Harvest.nothing, Harvest.settled] at h
  · simp [hread, Harvest.nothing, Harvest.settled] at h
  simp only [hread] at h
  rcases hs : c.levelSize? r header i with _ | ⟨width, height⟩
  · simp [hs, Harvest.nothing] at h
  rcases hw : f.identify.2.rewind with _ | f'
  · simp [hs, hw, Harvest.nothing] at h
  simp only [hs, hw] at h
  have hfile := Harvest.ending_of_settled LoadResult.noConfusion h
  cases hk : f.identify.1.container with
  | dds => exact .inl rfl
  | ktx2 => exact .inr rfl
  | zim =>
    rw [hk] at hfile
    exact absurd hfile (Harvest.ofImage_ne_finished i width height f' Zim.decode format)
  | png =>
    rw [hk] at hfile
    exact absurd hfile (Harvest.ofImage_ne_finished i width height f' Png.decode format)
  | basis | invalid =>
    rw [hk] at hfile
    cases hfile

/-- What an open file yields is nothing, or levels of the size in its header, scaled unless
the file is a universal texture. -/
theorem harvest_sound (c : Chain) (t : Option Transcoder) (r : Request) (i : Nat) (f : OpenFile) :
    ((c.harvest t r i f).layers = [] ∧
        ∃ format, (c.harvest t r i f).ending = .ok (.failed, format) ∨
          ∃ d, (c.harvest t r i f).ending = .error (.defect d)) ∨
      ∃ h size, FileHeader.read f.identify.1 f.identify.2 r.support = .ok h ∧
        c.levelSize? r h i = some size ∧
        (c.harvest t r i f).Sound (topSize f.identify.1.container h size).1
          (topSize f.identify.1.container h size).2 := by
  unfold harvest
  rcases hread : FileHeader.read f.identify.1 f.identify.2 r.support with (e | d) | h
  · exact .inl ⟨rfl, .undefined, .inl rfl⟩
  · exact .inl ⟨rfl, .undefined, .inr ⟨d, rfl⟩⟩
  simp only
  rcases hs : c.levelSize? r h i with _ | ⟨width, height⟩
  · exact .inl ⟨rfl, h.format, .inl rfl⟩
  rcases hw : f.identify.2.rewind with _ | f'
  · exact .inl ⟨rfl, h.format, .inl rfl⟩
  refine .inr ⟨h, (width, height), rfl, hs, Harvest.settled_sound (Harvest.ofFile_sound ?_ ?_) _⟩
  · intro info hinfo
    exact Support.ne_undefined (FileHeader.read_dds_allows hread hinfo)
  · intro file hk hparse
    have hvalid : f.identify.1.container ≠ .invalid := by
      rw [hk]
      exact Container.noConfusion
    rw [OpenFile.rewind_identify hvalid hw] at hparse
    exact FileHeader.read_ktx2 hk hread hparse

end Chain
end TexturePack
