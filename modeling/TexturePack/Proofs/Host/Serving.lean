import Mathlib
import TexturePack.Proofs.Host.Entries
import TexturePack.Proofs.Load.Presence

/-! What the generation that a texture has recorded says about the entry with its bytes. As
long as the entry still has that generation, the levels of the texture are there. -/
namespace TexturePack

namespace LevelData

/-- All levels of a list are in the entry, or the first of them has no pixels. -/
def Shows (d : LevelData) (levels : List LevelRecord) : Prop :=
  (∀ k < levels.length, d.has k = true) ∨
    ∃ base, levels.head? = some base ∧ (base.width = 0 ∨ base.height = 0)

theorem Backs.shows {d : LevelData} {levels : List LevelRecord} (h : d.Backs levels) :
    d.Shows levels :=
  h.imp_right fun h => h.2

theorem shows_nil (d : LevelData) : d.Shows [] := .inl (by simp)

/-- Another load of the entry leaves it alone, because the first level is there. -/
theorem Shows.load {d : LevelData} {levels : List LevelRecord} (h : d.Shows levels) (src : Sources)
    (r : Request) (cut : Option Nat) : (loadLevels src r cut d).entry.Shows levels := by
  rcases h with h | h
  · rcases levels with _ | ⟨l, ls⟩
    · exact shows_nil _
    · have hfirst : d.has 0 = true := h 0 (Nat.succ_pos _)
      rw [loadLevels_of_has src r cut hfirst]
      exact .inl h
  · exact .inr h

end LevelData

/-- What an entry has left of levels that came out of a load at some generation. -/
structure CacheEntry.Serves (c : CacheEntry) (generation : Nat) (levels : List LevelRecord) :
    Prop where
  le : generation ≤ c.generation
  shows : generation = c.generation → c.data.Shows levels

namespace Host

variable {src : Sources} {ok : Attachment → Prop} {h h' : Host} {i e g : Nat} {t t' : Texture}
  {c c' : CacheEntry} {levels : List LevelRecord}

theorem serves_discard (hc : c.Serves g levels) : c.discard.Serves g levels := by
  have hle := hc.le
  unfold CacheEntry.discard
  split
  · exact hc
  · exact ⟨Nat.le_succ_of_le hle, fun heq => by simp only at heq; omega⟩

theorem Change.serves (hch : Change src h e c c') (hc : c.Serves g levels) :
    c'.Serves g levels := by
  cases hch with
  | keep => exact hc
  | touch now => exact ⟨hc.le, hc.shows⟩
  | purge threshold held =>
    unfold CacheEntry.purgeIfOlder
    split
    · exact serves_discard hc
    · exact hc
  | discard => exact serves_discard hc
  | @load i t a ht ha he cut => exact ⟨hc.le, fun heq => (hc.shows heq).load src a.request cut⟩

/-- An entry serves levels as long as it has their generation. -/
def Serves (h : Host) (e g : Nat) (levels : List LevelRecord) : Prop :=
  ∃ c, h.entries[e]? = some c ∧ c.Serves g levels

theorem Serves.act (hs : h.Serves e g levels) (ha : Act (Work src) ok h h') :
    h'.Serves e g levels := by
  obtain ⟨c, hc, hserves⟩ := hs
  obtain ⟨c', hc', hch⟩ := ha.change hc
  exact ⟨c', hc', hch.serves hserves⟩

theorem Serves.clear (hs : h.Serves e g levels) : h.Serves e g [] := by
  obtain ⟨c, hc, hserves⟩ := hs
  exact ⟨c, hc, hserves.le, fun _ => c.data.shows_nil⟩

/-- The entry serves what a load into it has just brought. -/
theorem Loads.serves {a : Attachment} {o : LoadOutcome} (hl : Loads src h h' a o g) :
    h'.Serves a.entry g o.levels := by
  obtain ⟨c, cut, -, rfl, ho, hc'⟩ := hl
  exact ⟨_, hc', le_rfl, fun _ => (loadLevels_backs ho).shows⟩

end Host

/-- What a texture shows, or what its task has in hand for it, has a property of entry,
generation and levels. -/
structure Texture.Vouched (Q : Nat → Nat → List LevelRecord → Prop) (p : Option Progress)
    (t : Texture) : Prop where
  loaded : ∀ o g a, p = some (.loaded o g) → t.data.attachment = some a → Q a.entry g o.levels
  shown : ∀ e, t.state = .active ∨ p = some (.committed true) → t.data.cache = some e →
    Q e t.data.generation t.data.levels

namespace Texture

variable {Q : Nat → Nat → List LevelRecord → Prop} {p : Option Progress} {t : Texture}

theorem vouched_of_hidden (hstate : t.state ≠ .active) (hp : p = none ∨ p = some .queued) :
    t.Vouched Q p := by
  constructor
  · rintro o g a rfl
    simp at hp
  · rintro e (hs | rfl)
    · exact absurd hs hstate
    · simp at hp

theorem Vouched.imp {R : Nat → Nat → List LevelRecord → Prop} (hv : t.Vouched Q p)
    (h : ∀ e g levels, Q e g levels → R e g levels) : t.Vouched R p :=
  ⟨fun o g a hp ha => h _ _ _ (hv.loaded o g a hp ha),
    fun e hs he => h _ _ _ (hv.shown e hs he)⟩

end Texture

namespace Host

variable {src : Sources} {ok : Attachment → Prop} {h h' : Host} {i : Nat} {t : Texture}

/-- A step of the task of a texture, where a load brings something with the property. -/
theorem Move.vouched {Q : Nat → Nat → List LevelRecord → Prop} {q p : Progress}
    {f : Texture → Texture} (hm : Move q p f) (hv : t.Vouched Q (some q)) {entries : Nat}
    (hb : t.data.Bound ok entries) (hs : t.Sound (some q)) (htask : t.task ≠ none)
    (hload : ∀ o g a, q = .queued → p = .loaded o g → t.data.attachment = some a →
      Q a.entry g o.levels)
    (hclear : ∀ e g levels, Q e g levels → Q e g []) : (f t).Vouched Q (some p) := by
  cases hm with
  | load o g =>
    constructor
    · rintro o' g' a ⟨⟩ ha
      exact hload o g a rfl rfl ha
    · exact fun e hshown he => hv.shown e (.inl (hshown.resolve_right (by simp))) he
  | crash | skip | lose | discard | signal =>
    exact ⟨by simp, fun e hshown he => hv.shown e (.inl (hshown.resolve_right (by simp))) he⟩
  | release =>
    refine ⟨by simp, fun e hshown he => ?_⟩
    exact hclear _ _ _ (hv.shown e (.inl (hshown.resolve_right (by simp))) he)
  | commit o g =>
    refine ⟨by simp, fun e _ he => ?_⟩
    unfold Texture.take at he ⊢
    rcases ha : t.data.attachment with _ | a
    · simp only [ha] at he
      obtain ⟨a, ha', -⟩ := hb.cached e he
      rw [ha] at ha'
      cases ha'
    · simp only [ha, TextureData.commit] at he ⊢
      split at he
      · cases he
      · cases he
        exact hv.loaded o g a rfl ha
  | publish found =>
    refine ⟨by simp, fun e hshown he => ?_⟩
    have hactive := hshown.resolve_right (by simp)
    have hfound : found = true := by
      by_contra hnot
      rcases underway hs htask (by simp) (by simp) with hstate | hstate
      · simp [Texture.publish, TextureState.publish, hstate, hnot] at hactive
      · simp [Texture.publish, TextureState.publish, hstate] at hactive
    exact hv.shown e (.inr (by rw [hfound])) he

/-- The entries serve what textures show. -/
def Coherent (h : Host) : Prop :=
  ∀ (i : Nat) (t : Texture), h.textures[i]? = some t → t.Vouched h.Serves (h.heldProgress t)

theorem coherent_start : start.Coherent := by simp [Coherent, start]

namespace Coherent

theorem congr (hco : h.Coherent) (ht : h'.textures = h.textures) (hk : h'.tasks = h.tasks)
    (hserves : ∀ e g levels, h.Serves e g levels → h'.Serves e g levels) : h'.Coherent := by
  intro i t hi
  rw [heldProgress_congr hk]
  exact (hco i t (ht ▸ hi)).imp hserves

theorem modify (hco : h.Coherent) {j : Nat} {f : Texture → Texture}
    (hf : ∀ t, h.textures[j]? = some t → t.Vouched h.Serves (h.heldProgress t) →
      (f t).Vouched h.Serves (h.heldProgress (f t))) : (h.modifyTexture j f).Coherent := by
  intro i t' hi
  obtain ⟨t, ht, ⟨rfl, rfl⟩ | ⟨-, rfl⟩⟩ := textures_of_modifyTexture hi
  · exact hf t ht (hco _ t ht)
  · exact hco i _ ht

theorem work (hco : h.Coherent) (hs : h.Sound) (hb : h.Bound ok) (hw : Work src h h') :
    h'.Coherent := by
  have hserves (e g : Nat) (levels : List LevelRecord) (hold : h.Serves e g levels) :
      h'.Serves e g levels := hold.act (.work hw : Act (Work src) ok h h')
  intro i t' hi
  obtain ⟨t, ht⟩ := hw.texture_before hi
  rcases hs.work_texture hw ht with ⟨ht', hsame⟩ | ⟨q, p, f, hm, htask, hq, ht', hp, hload⟩
  · obtain rfl := Option.some.inj (ht'.symm.trans hi)
    rw [hsame]
    exact (hco i t ht).imp hserves
  · obtain rfl := Option.some.inj (ht'.symm.trans hi)
    have hv := (hco i t ht).imp hserves
    rw [hq] at hv
    rw [hp]
    refine hm.vouched hv (hb i t ht) (hq ▸ hs.texture i t ht) htask ?_ fun _ _ _ hold => hold.clear
    intro o g a _ hloaded ha
    obtain ⟨a', ha', hl⟩ := hload o g hloaded
    obtain rfl := Option.some.inj (ha.symm.trans ha')
    exact hl.serves

theorem submit (hco : h.Coherent) (hs : h.Sound) {j : Nat} (ht : h.textures[j]? = some t)
    (hstate : t.state = .populated) : (h.startDecode j).Coherent := by
  have hidle := (hs.texture j t ht).idle (.inr hstate)
  rw [startDecode_eq]
  split
  · have hqueued : Coherent { h with tasks := h.tasks ++ [⟨j, .queued⟩] } := by
      intro i t' hi
      rw [hs.heldProgress_append hi]
      exact hco i t' hi
    exact hqueued.modify fun t' _ _ =>
      Texture.vouched_of_hidden (by simp) (.inr heldProgress_enqueue)
  · refine hco.modify fun t' ht' _ => Texture.vouched_of_hidden (by simp) (.inl ?_)
    obtain rfl := Option.some.inj (ht.symm.trans ht')
    exact heldProgress_of_idle hidle

theorem act (hco : h.Coherent) (hs : h.Sound) (hb : h.Bound ok) (ha : Act (Work src) ok h h') :
    h'.Coherent := by
  have hserves (e g : Nat) (levels : List LevelRecord) (hold : h.Serves e g levels) :
      h'.Serves e g levels := hold.act ha
  cases ha with
  | createTexture now =>
    intro i t hi
    rcases textures_of_createTexture hi with ht | rfl
    · exact hco i t ht
    · exact Texture.vouched_of_hidden (by simp [Texture.create]) (.inl rfl)
  | createEntry | touch | purge | note | dropContext => exact hco.congr rfl rfl hserves
  | @attach j a hok hattach =>
    refine hco.modify fun t ht _ => Texture.vouched_of_hidden (by simp [Texture.attach]) (.inl ?_)
    have hidle : t.task = none := by
      apply (hs.texture j t ht).idle
      simpa [attachable, ht, Texture.populatable] using (Bool.and_eq_true_iff.mp hattach).1
    exact heldProgress_of_idle hidle
  | use j now => exact hco.modify fun t _ hv => ⟨hv.loaded, hv.shown⟩
  | join =>
    refine hco.modify fun t _ hv => ⟨by simp [heldProgress], fun e hshown he => ?_⟩
    exact hv.shown e (.inl (hshown.resolve_right (by simp [heldProgress]))) he
  | @revert j t ht hnone hstate =>
    refine hco.modify fun t' ht' _ => Texture.vouched_of_hidden (by simp) (.inl ?_)
    obtain rfl := Option.some.inj (ht.symm.trans ht')
    exact heldProgress_of_idle hnone
  | submit ht hstate hown => exact hco.submit hs ht hstate
  | work hw => exact hco.work hs hb hw
  | beginDrop j =>
    apply hco.modify
    intro t _ hv
    unfold Texture.beginDrop
    split
    · exact hv
    · refine ⟨hv.loaded, fun e hshown he => hv.shown e (hshown.imp_left ?_) he⟩
      simp only
      split
      · simp
      · exact id
  | leave ht hnone =>
    refine hco.modify fun t _ hv => ⟨hv.loaded, fun e hshown he => ?_⟩
    exact (hv.shown e hshown he).clear

end Coherent

/-- What every run of a host keeps to. -/
theorem Coherent.acts (hco : h.Coherent) (hs : h.Sound) (hb : h.Bound ok) (ha : Acts src ok h h') :
    h'.Coherent :=
  (ha.preserves (P := fun h => h.Sound ∧ h.Bound ok ∧ h.Coherent)
    (fun _ _ ha hP => ⟨hP.1.act ha, hP.2.1.act ha, hP.2.2.act hP.1 hP.2.1 ha⟩) ⟨hs, hb, hco⟩).2.2

theorem coherent_run (src : Sources) (events : List (Instant × HostEvent)) :
    (start.run src events).Coherent := by
  have hacts : Acts src (fun _ => True) start (start.run src events) :=
    run_acts start fun _ _ _ _ => trivial
  exact coherent_start.acts sound_start (bound_start _) hacts

end Host
end TexturePack
