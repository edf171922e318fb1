import Mathlib
import TexturePack.Proofs.Host.Action

/-! The life of a texture beside its decode task. One invariant ties the state of the texture
to the handle that it holds and to how far the task behind the handle has come. -/
namespace TexturePack

namespace Texture

/-- Takes over the result of a load into the entry of its request. -/
def take (o : LoadOutcome) (generation : Nat) (t : Texture) : Texture :=
  match t.data.attachment with
  | none => t
  | some a => { t with data := t.data.commit o a.entry generation }

def release (t : Texture) : Texture := { t with data := { t.data with levels := [] } }

def publish (found : Bool) (t : Texture) : Texture :=
  { t with state := t.state.publish (if found then .active else .notFound) }

/-- Levels and the entry with their bytes. -/
def Listed (t : Texture) : Prop := t.data.levels ≠ [] ∧ t.data.cache.isSome = true

/-- What can be said of a texture whose handle, if there is one, leads to a task that has
come to some point. -/
structure Sound (t : Texture) (p : Option Progress) : Prop where
  idle : t.state = .uninitialized ∨ t.state = .populated → t.task = none
  unpublished : t.state = .pending → p ≠ some .published
  terminal : t.state = .active ∨ t.state = .notFound →
    p = none ∨ p = some .published ∨ p = some .finished
  cancelled : t.state = .cancelled → t.ownership ≠ .owned
  attached : t.state ≠ .uninitialized → t.data.attachment.isSome = true
  active : t.state = .active → t.ownership ≠ .dropped → t.Listed
  found : p = some (.committed true) → t.Listed
  dropped : t.ownership = .dropped → t.task = none

end Texture

namespace Host

/-- What a step of a task does to its progress and to its texture. -/
inductive Move : Progress → Progress → (Texture → Texture) → Prop
  | load (o : LoadOutcome) (generation : Nat) : Move .queued (.loaded o generation) id
  | crash : Move .queued .crashed id
  | skip : Move .queued (.committed false) id
  | lose : Move .queued .finished id
  | commit (o : LoadOutcome) (generation : Nat) :
      Move (.loaded o generation) (.committed (!o.levels.isEmpty)) (Texture.take o generation)
  | discard : Move .crashed .discarded id
  | release : Move .discarded (.committed false) Texture.release
  | publish (found : Bool) : Move (.committed found) .published (Texture.publish found)
  | signal : Move .published .finished id

variable {src : Sources} {ok : Attachment → Prop} {h h' : Host}

theorem modify_congr {α : Type} {l : List α} {i : Nat} {f g : α → α}
    (hfg : ∀ a, l[i]? = some a → f a = g a) : l.modify i f = l.modify i g := by
  apply List.ext_getElem?
  intro j
  rw [List.getElem?_modify, List.getElem?_modify]
  by_cases hij : i = j
  · subst hij
    rcases hl : l[i]? with _ | a
    · rfl
    · simp [hfg a hl]
  · simp [hij]

section fields

variable (h : Host) (i : Nat) (o : LoadOutcome) (g : Nat) (now : Instant)

theorem releaseLevels_textures :
    (h.releaseLevels i).textures = h.textures.modify i Texture.release := by
  unfold releaseLevels
  rcases ht : h.textures[i]? with _ | t
  · exact (List.modify_eq_self (List.getElem?_eq_none_iff.mp ht)).symm
  · rfl

@[simp] theorem releaseLevels_tasks : (h.releaseLevels i).tasks = h.tasks := by
  unfold releaseLevels
  split <;> rfl

@[simp] theorem releaseLevels_entries : (h.releaseLevels i).entries = h.entries := by
  unfold releaseLevels
  split <;> rfl

@[simp] theorem releaseLevels_contextAlive :
    (h.releaseLevels i).contextAlive = h.contextAlive := by
  unfold releaseLevels
  split <;> rfl

@[simp] theorem discardEntry_textures : (h.discardEntry i).textures = h.textures := by
  unfold discardEntry
  split <;> rfl

@[simp] theorem discardEntry_tasks : (h.discardEntry i).tasks = h.tasks := by
  unfold discardEntry
  split <;> rfl

@[simp] theorem discardEntry_contextAlive :
    (h.discardEntry i).contextAlive = h.contextAlive := by
  unfold discardEntry
  split <;> rfl

theorem commit_textures :
    (h.commit i o g now).textures = h.textures.modify i (Texture.take o g) := by
  unfold commit
  rcases ht : h.textures[i]? with _ | t
  · exact (List.modify_eq_self (List.getElem?_eq_none_iff.mp ht)).symm
  simp only [Option.bind_some]
  rcases ha : t.data.attachment with _ | a
  · have hself : h.textures.modify i (Texture.take o g) = h.textures.modify i id :=
      modify_congr fun t' ht' => by
        obtain rfl : t = t' := Option.some.inj (ht.symm.trans ht')
        simp [Texture.take, ha]
    rw [hself, List.modify_id]
  · change (((h.modifyEntry a.entry _).releaseLevels i).textures.modify i _) = _
    rw [releaseLevels_textures, List.modify_modify_eq]
    apply modify_congr
    intro t' ht'
    obtain rfl : t = t' := Option.some.inj (ht.symm.trans ht')
    simp [Texture.take, Texture.release, ha, TextureData.commit]

@[simp] theorem commit_tasks : (h.commit i o g now).tasks = h.tasks := by
  unfold commit
  split
  · rfl
  · exact releaseLevels_tasks _ i

@[simp] theorem commit_contextAlive : (h.commit i o g now).contextAlive = h.contextAlive := by
  unfold commit
  split
  · rfl
  · exact releaseLevels_contextAlive _ i

end fields

/-- How far a task has come after a load. -/
def landing (run : LoadRun) (generation : Nat) : Progress :=
  match run.outcome with
  | none => .crashed
  | some o => .loaded o generation

theorem load_eq {a : Attachment} {c : CacheEntry} (hc : h.entries[a.entry]? = some c)
    (src : Sources) (k : Nat) (cut : Option Nat) :
    h.load src k a cut =
      ({ h.modifyEntry a.entry fun e =>
          { e with data := (loadLevels src a.request cut c.data).entry } with
        events := h.events ++ (loadLevels src a.request cut c.data).events
        requests := h.requests ++ (loadLevels src a.request cut c.data).requests }).setProgress k
      (landing (loadLevels src a.request cut c.data) c.generation) := by
  unfold load landing
  simp only [hc]
  rcases (loadLevels src a.request cut c.data).outcome with _ | o <;> rfl

/-- A load into the entry of a request, which reads the generation of the entry. -/
def Loads (src : Sources) (h h' : Host) (a : Attachment) (o : LoadOutcome) (g : Nat) : Prop :=
  ∃ c cut, h.entries[a.entry]? = some c ∧ c.generation = g ∧
    (loadLevels src a.request cut c.data).outcome = some o ∧
    h'.entries[a.entry]? = some { c with data := (loadLevels src a.request cut c.data).entry }

/-- A step of a task concerns this task and its texture only. -/
theorem Work.move (hw : Work src h h') :
    ∃ k i q p f, h.tasks[k]? = some ⟨i, q⟩ ∧ Move q p f ∧
      h'.textures = h.textures.modify i f ∧
      h'.tasks = h.tasks.modify k (fun t => { t with progress := p }) ∧
      ∀ o g, p = .loaded o g →
        ∃ t a, h.textures[i]? = some t ∧ t.data.attachment = some a ∧ Loads src h h' a o g := by
  cases hw with
  | @load k i t a c hk ht ha hc cut =>
    rw [load_eq hc]
    unfold landing
    rcases ho : (loadLevels src a.request cut c.data).outcome with _ | o
    · exact ⟨k, i, _, _, id, hk, .crash, (List.modify_id ..).symm, rfl, nofun⟩
    · refine ⟨k, i, _, _, id, hk, .load o c.generation, (List.modify_id ..).symm, rfl, ?_⟩
      rintro _ _ ⟨⟩
      refine ⟨t, a, ht, ha, c, cut, hc, rfl, ho, ?_⟩
      simp [setProgress, modifyEntry, hc]
  | skip hk => exact ⟨_, _, _, _, id, hk, .skip, (List.modify_id ..).symm, rfl, nofun⟩
  | lose hk => exact ⟨_, _, _, _, id, hk, .lose, (List.modify_id ..).symm, rfl, nofun⟩
  | commit hk now =>
    refine ⟨_, _, _, _, _, hk, .commit _ _, commit_textures .., ?_, nofun⟩
    rw [setProgress, commit_tasks]
  | discard hk =>
    refine ⟨_, _, _, _, id, hk, .discard, ?_, ?_, nofun⟩
    · rw [setProgress, discardEntry_textures, List.modify_id]
    · rw [setProgress, discardEntry_tasks]
  | release hk =>
    refine ⟨_, _, _, _, _, hk, .release, releaseLevels_textures .., ?_, nofun⟩
    rw [setProgress, releaseLevels_tasks]
  | publish hk => exact ⟨_, _, _, _, _, hk, .publish _, rfl, rfl, nofun⟩
  | signal hk => exact ⟨_, _, _, _, id, hk, .signal, (List.modify_id ..).symm, rfl, nofun⟩

theorem Work.contextAlive_eq (hw : Work src h h') : h'.contextAlive = h.contextAlive := by
  cases hw with
  | load hk ht ha hc cut =>
    rw [load_eq hc]
    rfl
  | skip | lose | publish | signal => rfl
  | commit hk now => exact commit_contextAlive ..
  | discard => exact discardEntry_contextAlive ..
  | release => exact releaseLevels_contextAlive ..

/-- Tasks make no textures. -/
theorem Work.texture_before (hw : Work src h h') {i : Nat} {t' : Texture}
    (ht' : h'.textures[i]? = some t') : ∃ t, h.textures[i]? = some t := by
  obtain ⟨-, j, -, -, f, -, -, htextures, -⟩ := hw.move
  rw [htextures, List.getElem?_modify] at ht'
  obtain ⟨t, ht, -⟩ := Option.map_eq_some_iff.mp ht'
  exact ⟨t, ht⟩

theorem Move.ne_finished {q p : Progress} {f : Texture → Texture} (hm : Move q p f) :
    q ≠ .finished := by
  cases hm <;> exact Progress.noConfusion

theorem Move.task {q p : Progress} {f : Texture → Texture} (hm : Move q p f) (t : Texture) :
    (f t).task = t.task := by
  cases hm with
  | commit o g =>
    unfold Texture.take
    split <;> rfl
  | load | crash | skip | lose | discard | release | publish | signal => rfl

theorem Move.attachment {q p : Progress} {f : Texture → Texture} (hm : Move q p f) (t : Texture) :
    (f t).data.attachment = t.data.attachment := by
  cases hm with
  | commit o g =>
    unfold Texture.take
    split <;> rfl
  | load | crash | skip | lose | discard | release | publish | signal => rfl

/-- A texture whose task is under way is pending or goes away. -/
theorem underway {t : Texture} {q : Progress} (ht : t.Sound (some q)) (htask : t.task ≠ none)
    (hq : q ≠ .published) (hq' : q ≠ .finished) : t.state = .pending ∨ t.state = .cancelled := by
  rcases hs : t.state with _ | _ | _ | _ | _ | _
  · exact absurd (ht.idle (.inl hs)) htask
  · exact absurd (ht.idle (.inr hs)) htask
  · exact .inl rfl
  · simpa [hq, hq'] using ht.terminal (.inr hs)
  · simpa [hq, hq'] using ht.terminal (.inl hs)
  · exact .inr rfl

/-- Steps before the end of a load keep the fields of the texture. -/
theorem sound_of_underway {t : Texture} {q p : Progress} (ht : t.Sound (some q))
    (htask : t.task ≠ none) (hq : q ≠ .published) (hq' : q ≠ .finished) (hp : p ≠ .published)
    (hfound : p ≠ .committed true) : t.Sound (some p) := by
  have hs := underway ht htask hq hq'
  refine ⟨ht.idle, ?_, ?_, ht.cancelled, ht.attached, ht.active, ?_, ht.dropped⟩
  · simp [hp]
  · rcases hs with hs | hs <;> simp [hs]
  · simp [hfound]

theorem Move.sound {q p : Progress} {f : Texture → Texture} (hm : Move q p f) {t : Texture}
    (ht : t.Sound (some q)) (htask : t.task ≠ none) : (f t).Sound (some p) := by
  cases hm with
  | load | crash | skip | lose | discard =>
    exact sound_of_underway ht htask (by simp) (by simp) (by simp) (by simp)
  | release =>
    have hs := underway ht htask (by simp) (by simp)
    refine ⟨ht.idle, by simp, ?_, ht.cancelled, ht.attached, ?_, by simp, ht.dropped⟩
    · rcases hs with hs | hs <;> simp [Texture.release, hs]
    · rcases hs with hs | hs <;> simp [Texture.release, hs]
  | commit o g =>
    have hs := underway ht htask (by simp) (by simp)
    have hsome := ht.attached (by rcases hs with hs | hs <;> simp [hs])
    obtain ⟨a, ha⟩ := Option.isSome_iff_exists.mp hsome
    have htake : Texture.take o g t = { t with data := t.data.commit o a.entry g } := by
      simp [Texture.take, ha]
    rw [htake]
    refine ⟨ht.idle, by simp, ?_, ht.cancelled, fun _ => hsome, ?_, ?_, ht.dropped⟩
    · rcases hs with hs | hs <;> simp [hs]
    · rcases hs with hs | hs <;> simp [hs]
    · intro hfound
      have hne : o.levels ≠ [] := by simpa using hfound
      exact ⟨hne, by simp [TextureData.commit, hne]⟩
  | publish found =>
    have hs := underway ht htask (by simp) (by simp)
    have hstate : (Texture.publish found t).state = .cancelled ∧ t.state = .cancelled ∨
        (Texture.publish found t).state = .active ∧ found = true ∨
        (Texture.publish found t).state = .notFound := by
      rcases hs with hs | hs <;> cases found <;> simp [Texture.publish, TextureState.publish, hs]
    refine ⟨?_, ?_, by simp, ?_, ?_, ?_, by simp, ht.dropped⟩
    · rcases hstate with ⟨hs, -⟩ | ⟨hs, -⟩ | hs <;> simp [hs]
    · rcases hstate with ⟨hs, -⟩ | ⟨hs, -⟩ | hs <;> simp [hs]
    · rcases hstate with ⟨-, hs⟩ | ⟨hs, -⟩ | hs
      · exact fun _ => ht.cancelled hs
      · simp [hs]
      · simp [hs]
    · exact fun _ => ht.attached (by rcases hs with hs | hs <;> simp [hs])
    · rcases hstate with ⟨hs, -⟩ | ⟨-, hfound⟩ | hs
      · simp [hs]
      · exact fun _ _ => ht.found (by rw [hfound])
      · simp [hs]
  | signal =>
    exact ⟨ht.idle, by simp, by simp, ht.cancelled, ht.attached, ht.active, by simp, ht.dropped⟩

/-- How far the task behind the handle of a texture has come. -/
def heldProgress (h : Host) (t : Texture) : Option Progress := t.task.bind h.progress?

theorem heldProgress_of_task {t : Texture} {k i : Nat} {p : Progress} (htask : t.task = some k)
    (hk : h.tasks[k]? = some ⟨i, p⟩) : h.heldProgress t = some p := by
  rw [heldProgress, htask, Option.bind_some, progress?, hk, Option.map_some]

theorem heldProgress_congr (hk : h'.tasks = h.tasks) (t : Texture) :
    h'.heldProgress t = h.heldProgress t := by
  have hsame : h'.progress? = h.progress? := by
    funext k
    rw [progress?, progress?, hk]
  rw [heldProgress, heldProgress, hsame]

theorem heldProgress_of_idle {t : Texture} (hnone : t.task = none) : h.heldProgress t = none := by
  rw [heldProgress, hnone, Option.bind_none]

section enqueue

/-- A new task of a texture, behind all others. -/
def enqueue (h : Host) (i : Nat) : Host :=
  modifyTexture { h with tasks := h.tasks ++ [⟨i, .queued⟩] } i fun t =>
    { t with state := .pending, task := some h.tasks.length }

theorem startDecode_eq (h : Host) (i : Nat) :
    h.startDecode i = if h.filesAlive then h.enqueue i else h.setState i .notFound := by
  unfold startDecode
  rcases h.filesAlive with _ | _ <;> rfl

theorem enqueue_tasks_of_lt {i k : Nat} (hk : k < h.tasks.length) :
    (h.enqueue i).tasks[k]? = h.tasks[k]? :=
  List.getElem?_append_left hk

theorem tasks_of_enqueue {i j k : Nat} {p : Progress}
    (hk : (h.enqueue i).tasks[k]? = some ⟨j, p⟩) :
    h.tasks[k]? = some ⟨j, p⟩ ∨ k = h.tasks.length ∧ i = j := by
  change (h.tasks ++ [⟨i, .queued⟩])[k]? = some ⟨j, p⟩ at hk
  rcases Nat.lt_or_ge k h.tasks.length with hlt | hge
  · rw [List.getElem?_append_left hlt] at hk
    exact .inl hk
  · have hlt := (List.getElem?_eq_some_iff.mp hk).1
    rw [List.length_append, List.length_singleton] at hlt
    obtain rfl : k = h.tasks.length := by omega
    rw [List.getElem?_concat_length] at hk
    cases hk
    exact .inr ⟨rfl, rfl⟩

theorem heldProgress_enqueue {i : Nat} {t : Texture} :
    (h.enqueue i).heldProgress { t with state := .pending, task := some h.tasks.length } =
      some .queued := by
  simp [heldProgress, progress?, enqueue, modifyTexture]

end enqueue

/-- A task that has not ended is the one that its texture holds, and no other. -/
structure Sound (h : Host) : Prop where
  texture : ∀ (i : Nat) (t : Texture), h.textures[i]? = some t → t.Sound (h.heldProgress t)
  handle : ∀ (i : Nat) (t : Texture) (k : Nat), h.textures[i]? = some t → t.task = some k →
    ∃ p, h.tasks[k]? = some ⟨i, p⟩
  held : ∀ (k i : Nat) (p : Progress), h.tasks[k]? = some ⟨i, p⟩ → p ≠ .finished →
    ∃ t, h.textures[i]? = some t ∧ t.task = some k

theorem sound_start : Sound start :=
  ⟨by simp [start], by simp [start], by simp [start]⟩

namespace Sound

theorem congr (hs : h.Sound) (ht : h'.textures = h.textures) (hk : h'.tasks = h.tasks) :
    h'.Sound := by
  constructor
  · intro i t hi
    rw [heldProgress_congr hk]
    exact hs.texture i t (ht ▸ hi)
  · intro i t k hi htask
    rw [hk]
    exact hs.handle i t k (ht ▸ hi) htask
  · intro k i p hk' hne
    rw [ht]
    exact hs.held k i p (hk ▸ hk') hne

/-- The owner does something to the texture, but not to its handle. -/
theorem modify (hs : h.Sound) {i : Nat} {f : Texture → Texture}
    (hf : ∀ t, h.textures[i]? = some t →
      (f t).task = t.task ∧ (f t).Sound (h.heldProgress t)) :
    (h.modifyTexture i f).Sound := by
  constructor
  · intro j t' hj
    obtain ⟨t, ht, ⟨rfl, rfl⟩ | ⟨-, rfl⟩⟩ := textures_of_modifyTexture hj
    · obtain ⟨htask, hsound⟩ := hf t ht
      rwa [heldProgress, htask]
    · exact hs.texture j t' ht
  · intro j t' k hj htask
    obtain ⟨t, ht, ⟨rfl, rfl⟩ | ⟨-, rfl⟩⟩ := textures_of_modifyTexture hj
    · rw [(hf t ht).1] at htask
      exact hs.handle i t k ht htask
    · exact hs.handle j t' k ht htask
  · intro k j p hk hne
    obtain ⟨t, ht, htask⟩ := hs.held k j p hk hne
    rw [textures_modifyTexture]
    split
    next hij => exact ⟨f t, by rw [ht]; rfl, by rw [(hf t (hij ▸ ht)).1, htask]⟩
    · exact ⟨t, ht, htask⟩

theorem setState (hs : h.Sound) {i : Nat} {s : TextureState}
    (hf : ∀ t, h.textures[i]? = some t → { t with state := s }.Sound (h.heldProgress t)) :
    (h.setState i s).Sound :=
  hs.modify fun t ht => ⟨rfl, hf t ht⟩

theorem task_of_heldProgress (hs : h.Sound) {i : Nat} {t : Texture} (ht : h.textures[i]? = some t)
    (hp : h.heldProgress t = none) : t.task = none := by
  by_contra hne
  obtain ⟨k, hk⟩ := Option.ne_none_iff_exists'.mp hne
  obtain ⟨p, htask⟩ := hs.handle i t k ht hk
  simp [heldProgress, hk, progress?, htask] at hp

/-- A step of a task leaves a texture alone, unless the task is its own. -/
theorem move_texture (hs : h.Sound) {k i j : Nat} {q p : Progress} {f : Texture → Texture}
    (hk : h.tasks[k]? = some ⟨i, q⟩) (hm : Move q p f)
    (htextures : h'.textures = h.textures.modify i f)
    (htasks : h'.tasks = h.tasks.modify k fun t => { t with progress := p }) {t : Texture}
    (ht : h.textures[j]? = some t) :
    (h'.textures[j]? = some t ∧ h'.heldProgress t = h.heldProgress t) ∨
      i = j ∧ t.task ≠ none ∧ h.heldProgress t = some q ∧ h'.textures[j]? = some (f t) ∧
        h'.heldProgress (f t) = some p := by
  have htexture : h'.textures[j]? = if i = j then some (f t) else some t := by
    rw [htextures, List.getElem?_modify, ht]
    split <;> rfl
  by_cases hij : i = j
  · subst hij
    obtain ⟨t₀, ht₀, htask⟩ := hs.held k i q hk hm.ne_finished
    obtain rfl := Option.some.inj (ht.symm.trans ht₀)
    have hk' : h'.tasks[k]? = some ⟨i, p⟩ := by
      rw [htasks, List.getElem?_modify_eq, hk]
      rfl
    exact .inr ⟨rfl, by simp [htask], heldProgress_of_task htask hk, by rw [htexture, if_pos rfl],
      heldProgress_of_task ((hm.task t).trans htask) hk'⟩
  · left
    refine ⟨by rw [htexture, if_neg hij], ?_⟩
    unfold heldProgress
    rcases htask : t.task with _ | k'
    · rfl
    · obtain ⟨p', hk'⟩ := hs.handle j t k' ht htask
      have hne : k ≠ k' := by
        rintro rfl
        rw [hk] at hk'
        cases hk'
        exact hij rfl
      simp only [Option.bind_some, progress?, htasks, List.getElem?_modify_ne _ _ hne]

/-- What a step of a task does to a texture: nothing, unless the task is its own. -/
theorem work_texture (hs : h.Sound) (hw : Work src h h') {j : Nat} {t : Texture}
    (ht : h.textures[j]? = some t) :
    (h'.textures[j]? = some t ∧ h'.heldProgress t = h.heldProgress t) ∨
      ∃ q p f, Move q p f ∧ t.task ≠ none ∧ h.heldProgress t = some q ∧
        h'.textures[j]? = some (f t) ∧ h'.heldProgress (f t) = some p ∧
        ∀ o g, p = .loaded o g → ∃ a, t.data.attachment = some a ∧ Loads src h h' a o g := by
  obtain ⟨k, i, q, p, f, hk, hm, htextures, htasks, hload⟩ := hw.move
  rcases hs.move_texture hk hm htextures htasks ht with hsame | ⟨rfl, htask, hq, ht', hp⟩
  · exact .inl hsame
  · refine .inr ⟨q, p, f, hm, htask, hq, ht', hp, ?_⟩
    intro o g hloaded
    obtain ⟨t₁, a, ht₁, ha, hl⟩ := hload o g hloaded
    obtain rfl := Option.some.inj (ht.symm.trans ht₁)
    exact ⟨a, ha, hl⟩

theorem work (hs : h.Sound) (hw : Work src h h') : h'.Sound := by
  obtain ⟨k, i, q, p, f, hk, hm, htextures, htasks, -⟩ := hw.move
  obtain ⟨t, ht, htask⟩ := hs.held k i q hk hm.ne_finished
  have hnew : h'.tasks[k]? = some ⟨i, p⟩ := by
    rw [htasks, List.getElem?_modify_eq, hk]
    rfl
  have hother (k' : Nat) (hne : k' ≠ k) : h'.tasks[k']? = h.tasks[k']? := by
    rw [htasks, List.getElem?_modify_ne _ _ hne.symm]
  have htexture (j : Nat) : h'.textures[j]? = if i = j then h.textures[j]?.map f
      else h.textures[j]? := by
    rw [htextures]
    exact textures_modifyTexture h i f j
  constructor
  · intro j t' hj
    obtain ⟨t₀, ht₀⟩ := hw.texture_before hj
    have hsound := hs.texture j t₀ ht₀
    rcases hs.work_texture hw ht₀ with ⟨ht', hsame⟩ | ⟨q, p, f, hm, htask₀, hq, ht', hp, -⟩
    · obtain rfl := Option.some.inj (ht'.symm.trans hj)
      rwa [hsame]
    · obtain rfl := Option.some.inj (ht'.symm.trans hj)
      rw [hp]
      exact hm.sound (hq ▸ hsound) htask₀
  · intro j t' k' hj htask'
    obtain ⟨p', hk'⟩ : ∃ p', h.tasks[k']? = some ⟨j, p'⟩ := by
      rw [htexture] at hj
      split at hj
      · obtain ⟨t₀, ht₀, rfl⟩ := Option.map_eq_some_iff.mp hj
        exact hs.handle j t₀ k' ht₀ (hm.task t₀ ▸ htask')
      · exact hs.handle j t' k' hj htask'
    by_cases hne : k' = k
    · subst hne
      rw [hk] at hk'
      cases hk'
      exact ⟨p, hnew⟩
    · exact ⟨p', by rw [hother k' hne, hk']⟩
  · intro k' j p' hk' hne
    obtain ⟨t₀, ht₀, htask₀⟩ : ∃ t₀, h.textures[j]? = some t₀ ∧ t₀.task = some k' := by
      by_cases heq : k' = k
      · subst heq
        rw [hnew] at hk'
        cases hk'
        exact ⟨t, ht, htask⟩
      · rw [hother k' heq] at hk'
        exact hs.held k' j p' hk' hne
    rw [htexture]
    split
    · exact ⟨f t₀, by rw [ht₀]; rfl, by rw [hm.task, htask₀]⟩
    · exact ⟨t₀, ht₀, htask₀⟩

theorem join (hs : h.Sound) {i k : Nat} {t : Texture} (ht : h.textures[i]? = some t)
    (hk : t.task = some k) (hp : h.progress? k = some .finished) :
    (h.modifyTexture i fun t => { t with task := none }).Sound := by
  constructor
  · intro j t' hj
    obtain ⟨t₀, ht₀, ⟨rfl, rfl⟩ | ⟨-, rfl⟩⟩ := textures_of_modifyTexture hj
    · have hsound := hs.texture i t₀ ht₀
      exact ⟨fun _ => rfl, by simp [heldProgress], fun _ => .inl rfl, hsound.cancelled,
        hsound.attached, hsound.active, by simp [heldProgress], fun _ => rfl⟩
    · exact hs.texture j t' ht₀
  · intro j t' k' hj htask'
    obtain ⟨t₀, ht₀, ⟨rfl, rfl⟩ | ⟨-, rfl⟩⟩ := textures_of_modifyTexture hj
    · cases htask'
    · exact hs.handle j t' k' ht₀ htask'
  · intro k' j p hk' hne
    obtain ⟨t₀, ht₀, htask₀⟩ := hs.held k' j p hk' hne
    have hij : i ≠ j := by
      rintro rfl
      rw [ht] at ht₀
      cases ht₀
      rw [hk] at htask₀
      cases htask₀
      change h.tasks[k]? = some ⟨i, p⟩ at hk'
      rw [progress?, hk', Option.map_some, Option.some.injEq] at hp
      exact hne hp
    exact ⟨t₀, by rw [textures_modifyTexture, if_neg hij, ht₀], htask₀⟩

/-- A new task is behind all others, where no handle led before. -/
theorem heldProgress_append (hs : h.Sound) {j : Nat} {t : Texture} (ht : h.textures[j]? = some t)
    {new : DecodeTask} :
    heldProgress { h with tasks := h.tasks ++ [new] } t = h.heldProgress t := by
  unfold heldProgress
  rcases htask : t.task with _ | k
  · rfl
  · obtain ⟨p, hk⟩ := hs.handle j t k ht htask
    have hlt := (List.getElem?_eq_some_iff.mp hk).1
    simp only [Option.bind_some, progress?, List.getElem?_append_left hlt]

theorem enqueue (hs : h.Sound) {i : Nat} {t : Texture} (ht : h.textures[i]? = some t)
    (hidle : t.task = none) (hattached : t.data.attachment.isSome = true)
    (hown : t.ownership = .owned) : (h.enqueue i).Sound := by
  constructor
  · intro j t' hj
    obtain ⟨t₀, ht₀, ⟨rfl, rfl⟩ | ⟨-, rfl⟩⟩ := textures_of_modifyTexture hj
    · obtain rfl := Option.some.inj (ht.symm.trans ht₀)
      rw [heldProgress_enqueue]
      exact ⟨by simp, by simp, by simp, by simp, fun _ => hattached, by simp, by simp,
        by simp [hown]⟩
    · have hsame : (h.enqueue i).heldProgress t' = h.heldProgress t' := hs.heldProgress_append ht₀
      rw [hsame]
      exact hs.texture j t' ht₀
  · intro j t' k hj htask
    obtain ⟨t₀, ht₀, ⟨rfl, rfl⟩ | ⟨-, rfl⟩⟩ := textures_of_modifyTexture hj
    · cases htask
      exact ⟨.queued, List.getElem?_concat_length⟩
    · obtain ⟨p, hk⟩ := hs.handle j t' k ht₀ htask
      exact ⟨p, by rw [enqueue_tasks_of_lt (List.getElem?_eq_some_iff.mp hk).1, hk]⟩
  · intro k j p hk hne
    rcases tasks_of_enqueue hk with hk | ⟨rfl, rfl⟩
    · obtain ⟨t₀, ht₀, htask₀⟩ := hs.held k j p hk hne
      have hij : i ≠ j := by
        rintro rfl
        obtain rfl := Option.some.inj (ht.symm.trans ht₀)
        rw [hidle] at htask₀
        cases htask₀
      exact ⟨t₀, by rw [Host.enqueue, textures_modifyTexture, if_neg hij, ht₀], htask₀⟩
    · exact ⟨_, by rw [Host.enqueue, textures_modifyTexture, if_pos rfl, ht]; rfl, rfl⟩

theorem submit (hs : h.Sound) {i : Nat} {t : Texture} (ht : h.textures[i]? = some t)
    (hstate : t.state = .populated) (hown : t.ownership = .owned) : (h.startDecode i).Sound := by
  have hidle := (hs.texture i t ht).idle (.inr hstate)
  have hattached := (hs.texture i t ht).attached (by simp [hstate])
  rw [startDecode_eq]
  split
  · exact hs.enqueue ht hidle hattached hown
  · apply hs.setState
    intro t' ht'
    obtain rfl := Option.some.inj (ht.symm.trans ht')
    rw [heldProgress_of_idle hidle]
    exact ⟨by simp, by simp, by simp, by simp, fun _ => hattached, by simp, by simp, by simp [hown]⟩

theorem createTexture (hs : h.Sound) (now : Instant) : (h.createTexture now).1.Sound := by
  constructor
  · intro i t hi
    rcases textures_of_createTexture hi with hi | rfl
    · exact hs.texture i t hi
    · exact ⟨fun _ => rfl, by simp [Texture.create], by simp [Texture.create],
        by simp [Texture.create], by simp [Texture.create], by simp [Texture.create],
        by simp [heldProgress, Texture.create], fun _ => rfl⟩
  · intro i t k hi htask
    rcases textures_of_createTexture hi with hi | rfl
    · exact hs.handle i t k hi htask
    · cases htask
  · intro k i p hk hne
    obtain ⟨t, ht, htask⟩ := hs.held k i p hk hne
    have hlt := (List.getElem?_eq_some_iff.mp ht).1
    exact ⟨t, (List.getElem?_append_left hlt).trans ht, htask⟩

theorem attach (hs : h.Sound) {i : Nat} {a : Attachment} (ha : h.attachable i a = true) :
    (h.modifyTexture i fun t => t.attach a).Sound := by
  refine hs.modify fun t ht => ⟨rfl, ?_⟩
  have hsound := hs.texture i t ht
  have hidle : t.task = none := by
    apply hsound.idle
    simpa [attachable, ht, Texture.populatable] using (Bool.and_eq_true_iff.mp ha).1
  rw [heldProgress_of_idle hidle]
  exact ⟨fun _ => hidle, by simp, by simp, by simp [Texture.attach], fun _ => rfl,
    by simp [Texture.attach], by simp, fun _ => hidle⟩

theorem revert (hs : h.Sound) {i : Nat} {t : Texture} (ht : h.textures[i]? = some t)
    (hnone : t.task = none) (hstate : t.state = .active ∨ t.state = .pending) :
    (h.setState i .populated).Sound := by
  apply hs.setState
  intro t' ht'
  obtain rfl : t = t' := Option.some.inj (ht.symm.trans ht')
  have hattached := (hs.texture i t ht).attached (by rcases hstate with hs | hs <;> simp [hs])
  rw [heldProgress_of_idle hnone]
  exact ⟨fun _ => hnone, by simp, by simp, by simp, fun _ => hattached, by simp, by simp,
    fun _ => hnone⟩

theorem beginDrop (hs : h.Sound) (i : Nat) : (h.beginDrop i).Sound := by
  apply hs.modify
  intro t ht
  have hsound := hs.texture i t ht
  unfold Texture.beginDrop
  split
  · exact ⟨rfl, hsound⟩
  next hown =>
    refine ⟨rfl, ?_⟩
    rcases htask : t.task with _ | k
    · rw [heldProgress_of_idle htask] at hsound ⊢
      simp only [Option.isSome_none, Bool.false_eq_true, if_false]
      exact ⟨fun _ => rfl, by simp, by simp, by simp, hsound.attached,
        fun hs _ => hsound.active hs (by simp [not_not.mp hown]), by simp, by simp⟩
    · have hattached := hsound.attached fun hs => by
        rw [hsound.idle (.inl hs)] at htask
        cases htask
      simp only [Option.isSome_some, if_true]
      exact ⟨by simp, by simp, by simp, by simp, fun _ => hattached, by simp, hsound.found, by simp⟩

theorem leave (hs : h.Sound) {i : Nat} {t : Texture} (ht : h.textures[i]? = some t)
    (hnone : t.task = none) :
    (h.modifyTexture i fun t =>
      { t with ownership := .dropped, data := { t.data with levels := [] } }).Sound := by
  refine hs.modify fun t' ht' => ⟨rfl, ?_⟩
  obtain rfl : t = t' := Option.some.inj (ht.symm.trans ht')
  have hsound := hs.texture i t ht
  rw [heldProgress_of_idle hnone] at hsound ⊢
  exact ⟨fun _ => hnone, by simp, by simp, by simp, hsound.attached, by simp, by simp,
    fun _ => hnone⟩

theorem use (hs : h.Sound) (i : Nat) (now : Instant) :
    (h.modifyTexture i fun t => { t with lastUsed := now }).Sound := by
  refine hs.modify fun t ht => ⟨rfl, ?_⟩
  have hsound := hs.texture i t ht
  exact ⟨hsound.idle, hsound.unpublished, hsound.terminal, hsound.cancelled, hsound.attached,
    hsound.active, hsound.found, hsound.dropped⟩

theorem act_of_work {work : Host → Host → Prop}
    (hwork : ∀ h h', work h h' → h.Sound → h'.Sound) (hs : h.Sound) (ha : Act work ok h h') :
    h'.Sound := by
  cases ha with
  | createTexture now => exact hs.createTexture now
  | createEntry | touch | purge | note | dropContext => exact hs.congr rfl rfl
  | attach hok ha => exact hs.attach ha
  | use i now => exact hs.use i now
  | join ht hk hp => exact hs.join ht hk hp
  | revert ht hnone hstate => exact hs.revert ht hnone hstate
  | submit ht hstate hown => exact hs.submit ht hstate hown
  | work hw => exact hwork _ _ hw hs
  | beginDrop i => exact hs.beginDrop i
  | leave ht hnone => exact hs.leave ht hnone

theorem act (hs : h.Sound) (ha : Act (Work src) ok h h') : h'.Sound :=
  act_of_work (fun _ _ hw hs => hs.work hw) hs ha

theorem ownerActs (hs : h.Sound) (hq : OwnerActs h h') : h'.Sound :=
  hq.preserves (fun _ _ ha hs => act_of_work (fun _ _ hf _ => hf.elim) hs ha) hs

theorem acts (hs : h.Sound) (ha : Acts src ok h h') : h'.Sound :=
  ha.preserves (fun _ _ ha hs => hs.act ha) hs

theorem checkPurged (hs : h.Sound) (i : Nat) : (h.checkPurged i).Sound := by
  unfold Host.checkPurged
  rcases ht : h.textures[i]? with _ | t
  · exact hs
  simp only
  split
  next hp =>
    simp only [purgedElsewhere, Bool.and_eq_true, Option.isNone_iff_eq_none,
      decide_eq_true_eq] at hp
    exact hs.revert ht hp.1.1 (.inl hp.1.2)
  · exact hs

theorem turns (hs : h.Sound) (src : Sources) (now : Instant) (ts : List Turn) :
    (h.turns src now ts).Sound :=
  turns_preserves (fun _ _ hw hs => hs.work hw) hs now ts

end Sound

/-- The invariant holds after every run. -/
theorem sound_run (src : Sources) (events : List (Instant × HostEvent)) :
    (start.run src events).Sound :=
  have hacts : Acts src (fun _ => True) start (start.run src events) :=
    run_acts start fun _ _ _ _ => trivial
  sound_start.acts hacts

end Host
end TexturePack
