import Mathlib
import TexturePack.Proofs.Load.Residue

/-! What a load into an empty entry says about transparency. The images that it lists decide,
unless the file behind them is one of many levels: what that file says counts, whatever becomes
of its levels. -/
namespace TexturePack

open Chain

namespace OpenFile

/-- What a universal texture holds. -/
def payload? (f : OpenFile) : Option Ktx2.Payload :=
  match f.identify.1.container with
  | .ktx2 => (f.contents? Ktx2.File.parse).bind Ktx2.File.payload?
  | _ => none

/-- What a file of many levels says about its transparency, before any of its levels is there. -/
def declaredAlpha? (f : OpenFile) (t : Option Transcoder) : Option Alpha :=
  match f.identify.1.container with
  | .dds => some .unknown
  | .ktx2 => if t.isSome then f.payload?.map Ktx2.Payload.alpha else none
  | _ => none

end OpenFile

namespace Sources

variable (src : Sources)

def payload? (l : LevelRecord) : Option Ktx2.Payload := (src.openFile? l).bind OpenFile.payload?

/-- The transparency of a level by itself. -/
def ownAlpha (l : LevelRecord) : Alpha :=
  match src.image? l with
  | some image => image.alpha
  | none => (src.payload? l).elim .unknown Ktx2.Payload.alpha

/-- The transparency of the listed levels: that of the first, unless an image is transparent. -/
def keptAlpha (levels : List LevelRecord) : Alpha :=
  if (src.images levels).any (fun image => image.alpha = .transparent) then .transparent
  else levels.head?.elim .unknown src.ownAlpha

/-- What the file behind the images says, if it is of the size that the next level calls for. -/
def lateAlpha? (r : Request) (cut : Option Nat) (levels : List LevelRecord) : Option Alpha := do
  let i := (src.images levels).length
  if i = 0 then none
  else
    let f ← src.candidate? r cut i
    let h ← (FileHeader.read f.identify.1 f.identify.2 r.support).toOption
    let size ← r.rescale? h.width h.height
    let base ← levels.head?
    if size = (base.width >>> i, base.height >>> i) ∧ f.identify.2.seekable then
      f.declaredAlpha? src.transcoder
    else none

/-- What the first file of a request says, if it is one of many levels. -/
def firstAlpha? (r : Request) : Option Alpha := do
  let f ← src.candidate? r none 0
  let _ ← (FileHeader.read f.identify.1 f.identify.2 r.support).toOption
  if f.identify.2.seekable then f.declaredAlpha? src.transcoder else none

variable {src}

theorem images_append (ls ls' : List LevelRecord) :
    src.images (ls ++ ls') = src.images ls ++ src.images ls' :=
  List.filterMap_append

theorem images_singleton {l : LevelRecord} {image : Image} (h : src.image? l = some image) :
    src.images [l] = [image] := by
  rw [images, List.filterMap_cons_some h]
  rfl

/-- One more image overrides what was said before only if it is transparent. -/
theorem keptAlpha_concat {l : LevelRecord} {image : Image} (h : src.image? l = some image)
    (levels : List LevelRecord) :
    src.keptAlpha (levels ++ [l]) =
      if levels = [] ∨ image.alpha = .transparent then image.alpha else src.keptAlpha levels := by
  have hown : src.ownAlpha l = image.alpha := by
    rw [ownAlpha, h]
  rw [keptAlpha, images_append, images_singleton h, List.any_append, List.any_cons, List.any_nil,
    Bool.or_false]
  by_cases hlast : image.alpha = .transparent
  · simp [hlast]
  rcases levels with _ | ⟨first, rest⟩
  · simp [images, hown, hlast]
  · simp [keptAlpha, hlast]

/-- Levels without an image do not count behind the first. -/
theorem keptAlpha_append {levels ls : List LevelRecord} (hls : src.images ls = [])
    (hlevels : levels ≠ []) : src.keptAlpha (levels ++ ls) = src.keptAlpha levels := by
  rw [keptAlpha, keptAlpha, images_append, hls, List.append_nil,
    List.head?_append_of_ne_nil _ hlevels]

end Sources

namespace Harvest

variable {t : Option Transcoder} {r : Request} {i width height : Nat} {f : OpenFile}
  {h : FileHeader}

theorem ofImage_alpha {decode : Bytes → Nat → Nat → Decode Image}
    (he : ∀ found, (ofImage i width height f decode).ending ≠ .ok (.more, found)) :
    (ofImage i width height f decode).alpha = none := by
  unfold ofImage at he ⊢
  rcases hd : f.readAll f.size >>= fun bytes => decode bytes width height with e | image
  · rfl
  · simp only [hd] at he
    exact absurd rfl (he .rgba8)

theorem ofDds_alpha {info : Dds.Info} (hinfo : h.dds = some info) :
    (ofDds h i width height f).alpha = some .unknown := by
  unfold ofDds
  simp only [hinfo]
  split <;> rfl

theorem ofKtx2_alpha (hk : f.identify.1.container = .ktx2) :
    (ofKtx2 t r i f.identify.2).alpha = f.declaredAlpha? t := by
  unfold ofKtx2 OpenFile.declaredAlpha? OpenFile.payload? OpenFile.contents?
  rw [hk]
  rcases f.identify.2.readAll f.identify.2.size >>= Ktx2.File.parse with e | file
  · simp [nothing, Except.toOption]
  rcases hp : file.payload? with _ | p
  · simp [nothing, Except.toOption, hp]
  rcases t with _ | t
  · simp [nothing, hp]
  · simp [ofUniversal, Except.toOption, hp]

theorem ofKtx2_layers_of_none (r : Request) (i : Nat) (f : OpenFile) :
    (ofKtx2 none r i f).layers = [] := by
  unfold ofKtx2
  rcases f.readAll f.size >>= Ktx2.File.parse with e | file
  · rfl
  rcases hp : file.payload? with _ | p
  · simp [hp, nothing]
  · simp [hp, nothing]

/-- A file that has no image for the level says what it says of all its levels. -/
theorem ofFile_alpha (hdds : f.identify.1.container = .dds → h.dds.isSome = true)
    (he : ∀ found, (ofFile t r i f.identify.1.container h width height f.identify.2).ending ≠
      .ok (.more, found)) :
    (ofFile t r i f.identify.1.container h width height f.identify.2).alpha =
      f.declaredAlpha? t := by
  cases hk : f.identify.1.container with
  | ktx2 => exact ofKtx2_alpha hk
  | dds =>
    obtain ⟨info, hinfo⟩ := Option.isSome_iff_exists.mp (hdds hk)
    rw [OpenFile.declaredAlpha?, hk]
    exact ofDds_alpha hinfo
  | zim =>
    rw [hk] at he
    rw [OpenFile.declaredAlpha?, hk]
    exact ofImage_alpha he
  | png =>
    rw [hk] at he
    rw [OpenFile.declaredAlpha?, hk]
    exact ofImage_alpha he
  | basis | invalid =>
    rw [OpenFile.declaredAlpha?, hk]
    rfl

end Harvest

theorem FileHeader.read_dds_isSome {found : Identified} {f : OpenFile} {s : Support}
    {h : FileHeader} (hr : read found f s = .ok h) (hk : found.container = .dds) :
    h.dds.isSome = true := by
  unfold read at hr
  rw [hk] at hr
  obtain ⟨⟨info, f'⟩, -, hr⟩ := Decode.bind_eq_ok.mp hr
  cases hr
  rfl

namespace Chain

variable {src : Sources} {r : Request} {cut : Option Nat} {i : Nat} {name : String}
  {file : FileReference} {f : OpenFile} {entry : LevelData} {c d : Chain}

theorem alpha_of_decoded {t : Option Transcoder} {h : FileHeader} {size : Nat × Nat}
    (hread : FileHeader.read f.identify.1 f.identify.2 r.support = .ok h)
    (heq : c.harvest t r i f = (Harvest.ofFile t r i f.identify.1.container h size.1 size.2
      f.identify.2).settled h.format)
    (he : ∀ found, (c.harvest t r i f).ending ≠ .ok (.more, found)) :
    (c.harvest t r i f).alpha = f.declaredAlpha? t := by
  rw [heq] at he ⊢
  apply Harvest.ofFile_alpha (FileHeader.read_dds_isSome hread)
  intro found hmore
  apply he found
  rw [Harvest.settled, hmore]

/-- A file that brings levels says what they are like. -/
theorem harvest_alpha_of_layers {t : Option Transcoder}
    (he : ∀ found, (c.harvest t r i f).ending ≠ .ok (.more, found))
    (hlayers : (c.harvest t r i f).layers ≠ []) :
    (c.harvest t r i f).alpha = f.declaredAlpha? t := by
  rcases c.harvest_cases t r i f with ⟨ending, heq, -⟩ | ⟨h, size, hread, -, -, heq⟩
  · rw [heq] at hlayers
    exact absurd rfl hlayers
  · exact alpha_of_decoded hread heq he

/-- What is said of the transparency by a file that has no image for the level. -/
theorem harvest_alpha {t : Option Transcoder}
    (he : ∀ found, (c.harvest t r i f).ending ≠ .ok (.more, found)) :
    (c.harvest t r i f).alpha = (do
      let h ← (FileHeader.read f.identify.1 f.identify.2 r.support).toOption
      let _ ← c.levelSize? r h i
      if f.identify.2.seekable then f.declaredAlpha? t else none) := by
  rcases c.harvest_cases t r i f with
    ⟨ending, heq, -, hunfit⟩ | ⟨h, size, hread, hsize, hseek, heq⟩
  · rw [heq]
    rcases hread : FileHeader.read f.identify.1 f.identify.2 r.support with e | h
    · rfl
    rcases hs : c.levelSize? r h i with _ | size
    · simp [Except.toOption, Harvest.nothing, hs]
    · simp [Except.toOption, Harvest.nothing, hunfit h size hread hs]
  · rw [alpha_of_decoded hread heq he]
    simp [hread, Except.toOption, hsize, hseek]

/-- What images make of the transparency. -/
theorem Pictured.alpha_eq (hc : c.Pictured src r entry i) : c.alpha = src.keptAlpha c.levels := by
  induction hc with
  | start => rfl
  | @next i c name file f found hc ho he ih =>
    obtain ⟨width, height, image, heq, hlevels, himage⟩ := hc.levels_eq ho he
    have hfirst : i = 0 ↔ c.levels = [] := by
      rw [← List.length_eq_zero_iff, hc.length]
    rw [hlevels, Sources.keptAlpha_concat himage, laid_alpha, heq, ← ih]
    simp only [Harvest.ofPicture, hfirst]
    split <;> rfl

/-- What is said late is said by the file that follows the images. -/
theorem lateAlpha?_eq (hi : 0 < i) {levels : List LevelRecord}
    (himages : (src.images levels).length = i) (hhead : levels.head? = d.levels.head?) :
    src.lateAlpha? r cut levels = (src.candidate? r cut i).bind fun f => (do
      let h ← (FileHeader.read f.identify.1 f.identify.2 r.support).toOption
      let _ ← d.levelSize? r h i
      if f.identify.2.seekable then f.declaredAlpha? src.transcoder else none) := by
  unfold Sources.lateAlpha? levelSize?
  rw [himages]
  simp only [if_neg hi.ne', hhead, Option.bind_eq_bind]
  congr 1
  funext f
  congr 1
  funext h
  rw [Option.bind_assoc]
  congr 1
  funext size
  rw [Option.bind_assoc]
  congr 1
  funext base
  by_cases hsize : size = (base.width >>> i, base.height >>> i)
  · simp [hsize]
  · simp [hsize]

theorem lateAlpha?_of_candidate (hi : 0 < i) {levels : List LevelRecord}
    (himages : (src.images levels).length = i) (hhead : levels.head? = d.levels.head?)
    (hf : src.candidate? r cut i = some f)
    (he : ∀ found, (d.harvest src.transcoder r i f).ending ≠ .ok (.more, found)) :
    src.lateAlpha? r cut levels = (d.harvest src.transcoder r i f).alpha := by
  rw [lateAlpha?_eq hi himages hhead, hf, harvest_alpha he]
  rfl

/-- A file of many levels that brings some speaks for itself. -/
theorem ownAlpha_of_finished (ho : src.Opens name file f) {found : PixelFormat}
    (he : (c.harvest src.transcoder r i f).ending = .ok (.finished, found))
    (hlayers : (c.harvest src.transcoder r i f).layers ≠ []) (width height : Nat) :
    src.ownAlpha ⟨width, height, some file⟩ =
      (c.harvest src.transcoder r i f).alpha.getD .unknown := by
  have hkind := harvest_finished_container he
  have himage : src.image? ⟨width, height, some file⟩ = none := by
    rw [Sources.image?, Sources.openFile?_of_opens ho, Option.bind_some, OpenFile.image?]
    rcases hkind with hk | hk
    · rw [hk]
    · rw [hk]
  rw [harvest_alpha_of_layers (by simp [he]) hlayers, Sources.ownAlpha, himage, Sources.payload?,
    Sources.openFile?_of_opens ho, Option.bind_some, OpenFile.declaredAlpha?]
  rcases hkind with hk | hk
  · rw [OpenFile.payload?, hk]
    rfl
  have hbackend : src.transcoder.isSome = true := by
    rw [Option.isSome_iff_ne_none]
    intro hnone
    rw [hnone] at hlayers
    rcases c.harvest_cases none r i f with ⟨ending, heq, -⟩ | ⟨h, size, -, -, -, heq⟩
    · exact hlayers (by rw [heq]; rfl)
    · rw [heq, hk] at hlayers
      exact hlayers (Harvest.ofKtx2_layers_of_none r i _)
  rw [hk]
  simp only [hbackend, if_true]
  rcases f.payload? with _ | p <;> rfl

/-- A first file of many levels speaks for them. -/
theorem Ended.alpha_of_first (hd : d.Pictured src r entry 0) (hc : Ended src r cut 0 d c)
    (hlevels : c.levels ≠ []) : c.alpha = src.keptAlpha c.levels := by
  have hnil := List.length_eq_zero_iff.mp hd.length
  cases hc with
  | short _ halike => exact absurd (halike.levels.trans hnil) hlevels
  | foreign _ _ hi => exact absurd hi (Nat.lt_irrefl 0)
  | last _ ho he hresult =>
    rcases hd.last_levels ho he hresult with ⟨-, hsame⟩ | ⟨l, ls, hlayers, rfl, hlaid, hnone⟩
    · exact absurd (hsame.trans hnil) hlevels
    · have hown := ownAlpha_of_finished ho he (by simp [hlayers]) l.width l.height
      rw [laid_alpha, hlaid, hnil, List.nil_append, Sources.keptAlpha, hnone, hd.alpha_eq, hnil]
      exact hown.symm

/-- What follows the images neither changes the first level nor counts for the kept ones. -/
theorem Ended.kept (hd : d.Pictured src r entry i) (hc : Ended src r cut i d c) (hi : 0 < i) :
    c.levels.head? = d.levels.head? ∧ src.keptAlpha c.levels = d.alpha := by
  have hne : d.levels ≠ [] := List.ne_nil_of_length_pos (hd.length ▸ hi)
  have hsame (h : c.levels = d.levels) :
      c.levels.head? = d.levels.head? ∧ src.keptAlpha c.levels = d.alpha := by
    rw [h]
    exact ⟨rfl, hd.alpha_eq.symm⟩
  cases hc with
  | short _ halike => exact hsame halike.levels
  | foreign => exact hsame (discardFrom_laid_levels d _ hd.length)
  | last _ ho he hresult =>
    rcases hd.last_levels ho he hresult with ⟨-, hlaid⟩ | ⟨l, ls, -, -, hlaid, hnone⟩
    · exact hsame hlaid
    · rw [hlaid, Sources.keptAlpha_append hnone hne]
      exact ⟨List.head?_append_of_ne_nil _ hne, hd.alpha_eq.symm⟩

/-- Behind images the next file has the last word, whatever becomes of its levels. -/
theorem Ended.alpha_of_late (hd : d.Pictured src r entry i) (hc : Ended src r cut i d c)
    (hi : 0 < i) : c.alpha = (src.lateAlpha? r cut c.levels).getD d.alpha := by
  have himages := hc.images_length hd
  have hhead := (hc.kept hd hi).1
  cases hc with
  | short hnone halike =>
    rw [lateAlpha?_eq hi himages hhead, hnone]
    exact halike.alpha
  | last hf _ he hresult =>
    rw [lateAlpha?_of_candidate hi himages hhead hf]
    · exact laid_alpha ..
    · intro found hmore
      rw [he] at hmore
      cases hmore
      exact hresult rfl
  | foreign hf _ _ he =>
    rw [lateAlpha?_of_candidate hi himages hhead hf (by simp [he])]
    exact laid_alpha ..

/-- What a load into an empty entry says of the transparency of its levels. -/
theorem Ended.alpha_eq (hd : d.Pictured src r entry i) (hc : Ended src r cut i d c)
    (hlevels : c.levels ≠ []) :
    c.alpha = (src.lateAlpha? r cut c.levels).getD (src.keptAlpha c.levels) := by
  rcases Nat.eq_zero_or_pos i with rfl | hi
  · -- Without an image nothing comes late.
    have hlate : src.lateAlpha? r cut c.levels = none := by
      rw [Sources.lateAlpha?, hc.images_length hd]
      rfl
    rw [hlate, Option.getD_none]
    exact hc.alpha_of_first hd hlevels
  · rw [(hc.kept hd hi).2]
    exact hc.alpha_of_late hd hi

/-- A walk that lists nothing has met one file at most. -/
theorem walk_unlisted {w w' : Walk}
    (hw : (start entry).walk src r cut 0 w (r.names.take maxLevels) = (c, .ok w'))
    (hnone : c.levels = []) : c.alpha = .unknown ∨ src.firstAlpha? r = some c.alpha := by
  cases walk_begun hw with
  | nothing halike => exact .inl halike.alpha
  | cached _ hlevels => exact absurd hnone hlevels
  | @fresh name file f result found hname ho _ he _ hlast hmore =>
    have hresult : result ≠ .more := fun h => hmore h hnone
    have hfirst : src.candidate? r none 0 = some f :=
      Sources.candidate?_eq_some.mpr
        ⟨by simp, name, file, List.head?_eq_getElem?.symm.trans hname, ho⟩
    have halpha : ((start entry).harvest src.transcoder r 0 f).alpha = src.firstAlpha? r := by
      rw [harvest_alpha (by simp [he, hresult]), Sources.firstAlpha?, hfirst]
      rfl
    rw [hlast hresult, laid_alpha, halpha]
    rcases src.firstAlpha? r with _ | a
    · exact .inl rfl
    · exact .inr rfl

end Chain

/-- A load that lists nothing has no format, and says of transparency what the first file says, if
anything. -/
theorem outcome_of_nothing {src : Sources} {r : Request} {cut : Option Nat} {entry : LevelData}
    {o : LoadOutcome} (hload : (loadLevels src r cut entry).outcome = some o)
    (hnone : o.levels = []) :
    o.format = .undefined ∧ (o.alpha = .unknown ∨ src.firstAlpha? r = some o.alpha) := by
  obtain ⟨c, w, hw, rfl, -⟩ := walk_of_loadLevels hload
  have hc : c.levels = [] := hnone
  exact ⟨if_pos (by rw [hc]; rfl), walk_unlisted hw hc⟩

/-- A load into an empty entry takes its transparency from the levels that it lists, unless the
file behind its images has something to say: then that counts, also if none of its levels is
kept. -/
theorem alpha_of_load {src : Sources} {r : Request} {cut : Option Nat} {entry : LevelData}
    {o : LoadOutcome} (hempty : entry.isEmpty = true)
    (hload : (loadLevels src r cut entry).outcome = some o) (hlevels : o.levels ≠ []) :
    o.alpha = (src.lateAlpha? r cut o.levels).getD (src.keptAlpha o.levels) ∧
      (o.alpha = src.keptAlpha o.levels ↔
        ∀ late, src.lateAlpha? r cut o.levels = some late → late = src.keptAlpha o.levels) := by
  obtain ⟨i, d, c, w, hd, hc, rfl, -⟩ := loadLevels_course hempty hload
  have halpha : (c.outcome w).alpha = (src.lateAlpha? r cut (c.outcome w).levels).getD
      (src.keptAlpha (c.outcome w).levels) := hc.alpha_eq hd hlevels
  refine ⟨halpha, ?_⟩
  rw [halpha]
  rcases src.lateAlpha? r cut (c.outcome w).levels with _ | late
  · simp
  · simp

/-- The image is transparent, and the blocks behind it, which are thrown away, say that nothing is
known. -/
theorem alpha_of_load_imageThenBlocks :
    let levels : List LevelRecord := [⟨4, 4, some ⟨"a.zim", 0⟩⟩]
    imageThenBlocks.keptAlpha levels = .transparent ∧
      imageThenBlocks.lateAlpha? imageAndBlocks none levels = some .unknown ∧
      (loadLevels imageThenBlocks imageAndBlocks none .empty).outcome.map LoadOutcome.alpha =
        some .unknown := by
  intro levels
  have hempty : LevelData.empty.isEmpty = true := rfl
  have hload : (loadLevels imageThenBlocks imageAndBlocks none .empty).outcome =
      some ⟨[⟨4, 4, some ⟨"a.zim", 0⟩⟩], .rgba8, .unknown, .finished, false⟩ := by
    decide +kernel
  have hkept : imageThenBlocks.keptAlpha levels = .transparent := by decide +kernel
  have halpha : Alpha.unknown =
      (imageThenBlocks.lateAlpha? imageAndBlocks none levels).getD
        (imageThenBlocks.keptAlpha levels) :=
    (alpha_of_load hempty hload (List.cons_ne_nil _ _)).1
  refine ⟨hkept, ?_, by rw [hload, Option.map_some]⟩
  rw [hkept] at halpha
  cases hlate : imageThenBlocks.lateAlpha? imageAndBlocks none levels with
  | none =>
    rw [hlate] at halpha
    cases halpha
  | some late =>
    rw [hlate] at halpha
    exact congrArg some halpha.symm

/-- The one level that is listed is a transparent image, but the file that was thrown away has
the say. -/
theorem blocks_hide_transparency :
    (loadLevels imageThenBlocks imageAndBlocks none .empty).outcome.map
        (fun o => (o.levels, o.alpha)) = some ([⟨4, 4, some ⟨"a.zim", 0⟩⟩], .unknown) ∧
      imageThenBlocks.keptAlpha [⟨4, 4, some ⟨"a.zim", 0⟩⟩] = .transparent := by
  decide +kernel

end TexturePack
