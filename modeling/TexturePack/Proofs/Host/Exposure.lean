import Mathlib
import TexturePack.Proofs.Host.Entries
import TexturePack.Proofs.Host.Loads
import TexturePack.Proofs.Load.Classification

/-! What a texture shows that has no replacement. Its fields are those of the load that found
nothing, but a load that crashes empties the levels only, and a texture whose files have gone
keeps all that it showed before. -/
namespace TexturePack

namespace TextureData

variable {src : Sources} {loads : List LoadRun} {asked : Attachment → Prop} {d : TextureData}

/-- The fields are those of a new texture, or what one of some loads has left for a request that
was made, perhaps without its levels. -/
inductive Left (src : Sources) (loads : List LoadRun) (asked : Attachment → Prop)
    (d : TextureData) : Prop
  | new (hlevels : d.levels = []) (hformat : d.format = .undefined) (halpha : d.alpha = .unknown)
  | loaded {a : Attachment} {cut : Option Nat} {entry : LevelData} {o : LoadOutcome}
      (hasked : asked a) (hrun : loadLevels src a.request cut entry ∈ loads)
      (ho : (loadLevels src a.request cut entry).outcome = some o)
      (hlevels : d.levels = [] ∨ d.levels = o.levels) (hformat : d.format = o.format)
      (halpha : d.alpha = o.alpha)

/-- One of some loads was for the request of the texture, and ended in some way. -/
def Tried (src : Sources) (loads : List LoadRun) (outcome : Option LoadOutcome)
    (d : TextureData) : Prop :=
  ∃ a cut entry, d.attachment = some a ∧ loadLevels src a.request cut entry ∈ loads ∧
    (loadLevels src a.request cut entry).outcome = outcome

/-- Nothing has come of the request: its load has crashed, or listed nothing. -/
structure Vain (src : Sources) (loads : List LoadRun) (d : TextureData) : Prop where
  levels : d.levels = []
  tried : d.Tried src loads none ∨ ∃ o, d.Tried src loads (some o) ∧ o.levels = [] ∧
    d.format = o.format ∧ d.alpha = o.alpha

/-- What a task that has come to some point reports of the load for the request. -/
structure Reported (src : Sources) (loads : List LoadRun) (p : Progress) (d : TextureData) :
    Prop where
  loaded : ∀ o g, p = .loaded o g → d.Tried src loads (some o)
  crashed : p = .crashed ∨ p = .discarded → d.Tried src loads none
  vain : p = .committed false → d.Vain src loads

/-- A task that has not begun, or has published, reports nothing. -/
theorem reported_of_silent {p : Progress} (hp : p = .queued ∨ p = .published ∨ p = .finished) :
    d.Reported src loads p := by
  rcases hp with rfl | rfl | rfl
  · exact ⟨by simp, by simp, by simp⟩
  · exact ⟨by simp, by simp, by simp⟩
  · exact ⟨by simp, by simp, by simp⟩

theorem left_congr {d' : TextureData} (hd : d.Left src loads asked)
    (hlevels : d'.levels = [] ∨ d'.levels = d.levels) (hformat : d'.format = d.format)
    (halpha : d'.alpha = d.alpha) : d'.Left src loads asked := by
  cases hd with
  | new hnone hundefined hunknown =>
    exact .new (hlevels.elim id (·.trans hnone)) (hformat.trans hundefined)
      (halpha.trans hunknown)
  | loaded hasked hrun ho hlisted hf ha =>
    refine .loaded hasked hrun ho ?_ (hformat.trans hf) (halpha.trans ha)
    rcases hlevels with hnone | hsame
    · exact .inl hnone
    · rw [hsame]
      exact hlisted

end TextureData

namespace Texture

variable {src : Sources} {loads : List LoadRun} {asked : Attachment → Prop} {alive : Bool}
  {p : Option Progress} {t : Texture}

/-- What can be said of a texture whose task, if it holds one, has come to some point. -/
structure Told (src : Sources) (loads : List LoadRun) (asked : Attachment → Prop) (alive : Bool)
    (p : Option Progress) (t : Texture) : Prop where
  attached : ∀ a, t.data.attachment = some a → asked a
  left : t.data.Left src loads asked
  reported : ∀ p', p = some p' → t.data.Reported src loads p'
  notFound : t.state = .notFound → alive = false ∨ t.data.Vain src loads

namespace Told

/-- Nothing is told of a texture that has no task and is not known to be without replacement. -/
theorem of_left (hattached : ∀ a, t.data.attachment = some a → asked a)
    (hleft : t.data.Left src loads asked) (hstate : t.state = .notFound → alive = false)
    (hp : p = none ∨ p = some .queued) : t.Told src loads asked alive p := by
  refine ⟨hattached, hleft, ?_, fun h => .inl (hstate h)⟩
  rintro p' rfl
  rcases hp with hp | hp
  · cases hp
  · cases hp
    exact TextureData.reported_of_silent (.inl rfl)

theorem setState (ht : t.Told src loads asked alive p) {s : TextureState} (hs : s ≠ .notFound) :
    { t with state := s }.Told src loads asked alive p :=
  ⟨ht.attached, ht.left, ht.reported, fun h => absurd h hs⟩

theorem beginDrop (ht : t.Told src loads asked alive p) :
    t.beginDrop.Told src loads asked alive p := by
  unfold Texture.beginDrop
  split
  · exact ht
  · split
    · exact ⟨ht.attached, ht.left, ht.reported, by simp⟩
    · exact ⟨ht.attached, ht.left, ht.reported, ht.notFound⟩

/-- A texture that goes away has no task, and nothing left to lose but its levels. -/
theorem leave (ht : t.Told src loads asked alive none) :
    { t with ownership := .dropped, data := { t.data with levels := [] } }.Told src loads asked
      alive none :=
  ⟨ht.attached, TextureData.left_congr ht.left (.inl rfl) rfl rfl, by simp,
    fun h => (ht.notFound h).imp_right fun hvain => ⟨rfl, hvain.tried⟩⟩

end Told
end Texture

namespace Host

variable {src : Sources} {loads : List LoadRun} {asked : Nat → Attachment → Prop} {h h' : Host}

/-- What a step of a task tells of its texture. -/
theorem Move.told {asked : Attachment → Prop} {alive : Bool} {q p : Progress}
    {f : Texture → Texture} (hm : Move q p f) {t : Texture} (hsound : t.Sound (some q))
    (htask : t.task ≠ none) (ht : t.Told src loads asked alive (some q))
    (hbegun : q = .queued → t.data.Reported src loads p) :
    (f t).Told src loads asked alive (some p) := by
  have hreport := ht.reported q rfl
  cases hm with
  | load | crash | skip | lose =>
    refine ⟨ht.attached, ht.left, ?_, ht.notFound⟩
    rintro _ ⟨⟩
    exact hbegun rfl
  | signal =>
    refine ⟨ht.attached, ht.left, ?_, ht.notFound⟩
    rintro _ ⟨⟩
    exact TextureData.reported_of_silent (.inr (.inr rfl))
  | discard =>
    refine ⟨ht.attached, ht.left, ?_, ht.notFound⟩
    rintro _ ⟨⟩
    exact ⟨by simp, fun _ => hreport.crashed (.inl rfl), by simp⟩
  | release =>
    have hvain : (Texture.release t).data.Vain src loads := ⟨rfl, .inl (hreport.crashed (.inr rfl))⟩
    refine ⟨ht.attached, TextureData.left_congr ht.left (.inl rfl) rfl rfl, ?_,
      fun _ => .inr hvain⟩
    rintro _ ⟨⟩
    exact ⟨by simp, by simp, fun _ => hvain⟩
  | publish found =>
    have hs := underway hsound htask (by simp) (by simp)
    refine ⟨ht.attached, ht.left, ?_, ?_⟩
    · rintro _ ⟨⟩
      exact TextureData.reported_of_silent (.inr (.inl rfl))
    · intro hstate
      cases found with
      | true =>
        rcases hs with hs | hs <;> simp [Texture.publish, TextureState.publish, hs] at hstate
      | false => exact .inr (hreport.vain rfl)
  | commit o g =>
    have hs := underway hsound htask (by simp) (by simp)
    obtain ⟨a, ha⟩ := Option.isSome_iff_exists.mp
      (hsound.attached (by rcases hs with hs | hs <;> simp [hs]))
    have htake : Texture.take o g t = { t with data := t.data.commit o a.entry g } := by
      simp [Texture.take, ha]
    have htried := hreport.loaded o g rfl
    obtain ⟨a', _, _, ha', hrun, ho⟩ := id htried
    rw [htake]
    refine ⟨ht.attached, .loaded (ht.attached a' ha') hrun ho (.inr rfl) rfl rfl, ?_, ?_⟩
    · rintro _ ⟨⟩
      refine ⟨by simp, by simp, ?_⟩
      intro hnone
      have hlevels : o.levels = [] := by simpa using hnone
      exact ⟨hlevels, .inr ⟨o, htried, hlevels, rfl, rfl⟩⟩
    · intro hstate
      rcases hs with hs | hs <;> simp [hs] at hstate

/-- A texture was populated with a request. -/
def Asked (events : List (Instant × HostEvent)) (i : Nat) (a : Attachment) : Prop :=
  ∃ now, (now, .populate i a) ∈ events

/-- Something is told of every texture. -/
def Told (src : Sources) (loads : List LoadRun) (asked : Nat → Attachment → Prop) (h : Host) :
    Prop :=
  ∀ (i : Nat) (t : Texture), h.textures[i]? = some t →
    t.Told src loads (asked i) h.contextAlive (h.heldProgress t)

theorem told_start (src : Sources) (loads : List LoadRun) (asked : Nat → Attachment → Prop) :
    start.Told src loads asked := by
  simp [Told, start]

namespace Told

theorem congr (ht : h.Told src loads asked) (htextures : h'.textures = h.textures)
    (htasks : h'.tasks = h.tasks) (halive : h'.contextAlive = h.contextAlive) :
    h'.Told src loads asked := by
  intro i t hi
  rw [halive, heldProgress_congr htasks]
  exact ht i t (htextures ▸ hi)

theorem modify (ht : h.Told src loads asked) {i : Nat} {f : Texture → Texture}
    (hf : ∀ t, h.textures[i]? = some t →
      (f t).Told src loads (asked i) h.contextAlive (h.heldProgress (f t))) :
    (h.modifyTexture i f).Told src loads asked := by
  intro j t' hj
  obtain ⟨t, hi, ⟨rfl, rfl⟩ | ⟨-, rfl⟩⟩ := textures_of_modifyTexture hj
  · exact hf t hi
  · exact ht j t' hi

/-- A step of a task tells something new of its own texture only. -/
theorem move (ht : h.Told src loads asked) (hs : h.Sound) {k i : Nat} {q p : Progress}
    {f : Texture → Texture} (hk : h.tasks[k]? = some ⟨i, q⟩) (hm : Move q p f)
    (htextures : h'.textures = h.textures.modify i f)
    (htasks : h'.tasks = h.tasks.modify k fun t => { t with progress := p })
    (halive : h'.contextAlive = h.contextAlive)
    (hbegun : q = .queued → ∀ t, h.textures[i]? = some t → t.data.Reported src loads p) :
    h'.Told src loads asked := by
  intro j t' hj
  obtain ⟨t, hi⟩ : ∃ t, h.textures[j]? = some t := by
    rw [htextures, List.getElem?_modify] at hj
    obtain ⟨t, hi, -⟩ := Option.map_eq_some_iff.mp hj
    exact ⟨t, hi⟩
  rw [halive]
  rcases hs.move_texture hk hm htextures htasks hi with ⟨hsame, hp⟩ | ⟨rfl, htask, hq, hnew, hp⟩
  · obtain rfl := Option.some.inj (hsame.symm.trans hj)
    rw [hp]
    exact ht j t hi
  · obtain rfl := Option.some.inj (hnew.symm.trans hj)
    rw [hp]
    exact hm.told (hq ▸ hs.texture i t hi) htask (hq ▸ ht i t hi) fun hqueued => hbegun hqueued t hi

theorem submit (ht : h.Told src loads asked) (hs : h.Sound) {i : Nat} {t : Texture}
    (hi : h.textures[i]? = some t) (hidle : t.task = none) :
    (h.startDecode i).Told src loads asked := by
  rw [startDecode_eq]
  split
  · intro j t' hj
    obtain ⟨t₀, ht₀, ⟨rfl, rfl⟩ | ⟨-, rfl⟩⟩ := textures_of_modifyTexture hj
    · rw [heldProgress_enqueue]
      have htold := ht i t₀ ht₀
      exact .of_left htold.attached htold.left (by simp) (.inr rfl)
    · have hsame : (h.enqueue i).heldProgress t' = h.heldProgress t' := hs.heldProgress_append ht₀
      rw [hsame]
      exact ht j t' ht₀
  next hgone =>
    have halive : h.contextAlive = false := by
      simp only [filesAlive, Bool.or_eq_true, not_or, Bool.not_eq_true] at hgone
      exact hgone.1
    apply ht.modify
    intro t₀ ht₀
    obtain rfl := Option.some.inj (hi.symm.trans ht₀)
    have htold := ht i t hi
    exact .of_left htold.attached htold.left (fun _ => halive) (.inl (heldProgress_of_idle hidle))

theorem act (ht : h.Told src loads asked) (hs : h.Sound)
    (ha : Act (fun _ _ => False) (fun _ => False) h h') : h'.Told src loads asked := by
  cases ha with
  | work hw => exact hw.elim
  | createEntry | touch | purge | note => exact ht.congr rfl rfl rfl
  | createTexture now =>
    intro i t hi
    rcases textures_of_createTexture hi with hi | rfl
    · exact ht i t hi
    · exact .of_left (by simp [Texture.create, TextureData.empty]) (.new rfl rfl rfl)
        (by simp [Texture.create]) (.inl rfl)
  | attach hok => exact hok.elim
  | use i now =>
    apply ht.modify
    intro t hi
    have htold := ht i t hi
    exact ⟨htold.attached, htold.left, htold.reported, htold.notFound⟩
  | @join i k t hi hk hp =>
    apply ht.modify
    intro t' hi'
    have htold := ht i t' hi'
    exact ⟨htold.attached, htold.left, by simp [heldProgress], htold.notFound⟩
  | @revert i t hi hnone hstate =>
    apply ht.modify
    intro t' hi'
    exact (ht i t' hi').setState (by simp)
  | @submit i t hi hstate hown => exact ht.submit hs hi ((hs.texture i t hi).idle (.inr hstate))
  | beginDrop i =>
    apply ht.modify
    intro t hi
    have hsame : h.heldProgress t.beginDrop = h.heldProgress t := by
      unfold Texture.beginDrop
      split <;> rfl
    rw [hsame]
    exact (ht i t hi).beginDrop
  | @leave i t hi hnone =>
    apply ht.modify
    intro t' hi'
    obtain rfl := Option.some.inj (hi.symm.trans hi')
    have htold := ht i t hi
    rw [heldProgress_of_idle hnone] at htold
    have hidle := heldProgress_of_idle (h := h)
      (t := { t with ownership := .dropped, data := { t.data with levels := [] } }) hnone
    rw [hidle]
    exact htold.leave
  | dropContext =>
    intro i t hi
    have htold := ht i t hi
    exact ⟨htold.attached, htold.left, htold.reported, fun _ => .inl rfl⟩

/-- A texture that is populated keeps what it shows. -/
theorem attach (ht : h.Told src loads asked) (hs : h.Sound) {i : Nat} {a : Attachment}
    (hasked : asked i a) (ha : h.attachable i a = true) :
    (h.modifyTexture i fun t => t.attach a).Told src loads asked := by
  apply ht.modify
  intro t hi
  have hidle : t.task = none := by
    apply (hs.texture i t hi).idle
    simpa [attachable, hi, Texture.populatable] using (Bool.and_eq_true_iff.mp ha).1
  refine .of_left ?_ (TextureData.left_congr (ht i t hi).left (.inr rfl) rfl rfl)
    (by simp [Texture.attach]) (.inl (heldProgress_of_idle hidle))
  rintro a' ⟨⟩
  exact hasked

theorem ownerActs (ht : h.Told src loads asked) (hs : h.Sound) (ha : OwnerActs h h') :
    h'.Told src loads asked := by
  have hboth : h'.Sound ∧ h'.Told src loads asked := by
    refine ha.preserves (P := fun h => h.Sound ∧ h.Told src loads asked) ?_ ⟨hs, ht⟩
    intro h₁ h₂ hact hP
    exact ⟨Sound.act_of_work (fun _ _ hf _ => hf.elim) hP.1 hact, hP.2.act hP.1 hact⟩
  exact hboth.2

theorem load (ht : h.Told src loads asked) (hs : h.Sound) {k i : Nat} {t : Texture} {a : Attachment}
    {e : CacheEntry} (hk : h.tasks[k]? = some ⟨i, .queued⟩) (hi : h.textures[i]? = some t)
    (ha : t.data.attachment = some a) (he : h.entries[a.entry]? = some e) (cut : Option Nat)
    (hrun : loadLevels src a.request cut e.data ∈ loads) :
    (h.load src k a cut).Told src loads asked := by
  have htried (t' : Texture) (hi' : h.textures[i]? = some t') :
      t'.data.Tried src loads (loadLevels src a.request cut e.data).outcome := by
    obtain rfl := Option.some.inj (hi.symm.trans hi')
    exact ⟨a, cut, e.data, ha, hrun, rfl⟩
  rw [load_eq he]
  unfold landing
  rcases ho : (loadLevels src a.request cut e.data).outcome with _ | o
  · refine ht.move hs hk .crash (List.modify_id ..).symm rfl rfl ?_
    intro _ t' hi'
    exact ⟨by simp, fun _ => ho ▸ htried t' hi', by simp⟩
  · refine ht.move hs hk (.load o e.generation) (List.modify_id ..).symm rfl rfl ?_
    intro _ t' hi'
    refine ⟨?_, by simp, by simp⟩
    rintro _ _ ⟨⟩
    exact ho ▸ htried t' hi'

theorem begin (ht : h.Told src loads asked) (hs : h.Sound) {k i : Nat}
    (hk : h.tasks[k]? = some ⟨i, .queued⟩) (cut : Option Nat)
    (hloads : ∀ run ∈ h.beginLoads src i cut, run ∈ loads) :
    (h.begin src k i cut).Told src loads asked := by
  unfold beginLoads at hloads
  unfold Host.begin
  rcases hi : h.textures[i]? with _ | t
  · exact ht
  simp only [hi] at hloads
  rcases ha : t.data.attachment with _ | a
  · -- A task is only ever submitted for a texture with a request.
    obtain ⟨t', hi', htask⟩ := hs.held k i _ hk (by simp)
    obtain rfl := Option.some.inj (hi.symm.trans hi')
    have hsound := hs.texture i t hi
    rw [heldProgress_of_task htask hk] at hsound
    have hattached := hsound.attached
    rw [ha] at hattached
    rcases underway hsound (by simp [htask]) (by simp) (by simp) with hstate | hstate <;>
      simp [hstate] at hattached
  simp only [ha] at hloads ⊢
  rcases he : h.entries[a.entry]? with _ | e
  · simpa only [Host.load, he] using ht
  · simp only [he, List.mem_singleton, forall_eq] at hloads
    exact ht.load hs hk hi ha he _ hloads

theorem turn (ht : h.Told src loads asked) (hs : h.Sound) (now : Instant) {tn : Turn}
    (hloads : ∀ run ∈ h.turnLoads src tn, run ∈ loads) :
    (h.turn src now tn).Told src loads asked := by
  cases tn with
  | lose k =>
    simp only [Host.turn, Host.lose]
    split
    next hp =>
      simp only [progress?, Option.map_eq_some_iff] at hp
      obtain ⟨⟨i, p⟩, hk, rfl⟩ := hp
      exact ht.move hs hk .lose (List.modify_id ..).symm rfl rfl fun _ _ _ =>
        TextureData.reported_of_silent (.inr (.inr rfl))
    · exact ht
  | advance k =>
    simp only [Host.turn, Host.advance]
    rcases hk : h.tasks[k]? with _ | ⟨i, p⟩
    · exact ht
    cases p with
    | queued =>
      simp only [turnLoads, hk] at hloads
      exact ht.begin hs hk none hloads
    | loaded o g =>
      simp only
      refine ht.move hs hk (.commit o g) (commit_textures ..) ?_ (commit_contextAlive ..) (by simp)
      rw [setProgress, commit_tasks]
    | crashed =>
      simp only
      refine ht.move hs hk .discard ?_ ?_ (discardEntry_contextAlive ..) (by simp)
      · rw [setProgress, discardEntry_textures, List.modify_id]
      · rw [setProgress, discardEntry_tasks]
    | discarded =>
      simp only
      refine ht.move hs hk .release (releaseLevels_textures ..) ?_ (releaseLevels_contextAlive ..)
        (by simp)
      rw [setProgress, releaseLevels_tasks]
    | committed found =>
      exact ht.move hs hk (.publish found) rfl rfl rfl (by simp)
    | published => exact ht.move hs hk .signal (List.modify_id ..).symm rfl rfl (by simp)
    | finished => exact ht

theorem turns (ht : h.Told src loads asked) (hs : h.Sound) (now : Instant) {ts : List Turn}
    (hloads : ∀ run ∈ h.turnsLoads src now ts, run ∈ loads) :
    (h.turns src now ts).Told src loads asked := by
  induction ts generalizing h with
  | nil => exact ht
  | cons tn ts ih =>
    rw [turnsLoads, List.forall_mem_append] at hloads
    exact ih (ht.turn hs now hloads.1) (hs.turns src now [tn]) hloads.2

/-- A poll tells something new only of what it waits for. -/
theorem poll (ht : h.Told src loads asked) (hs : h.Sound) {i : Nat} (hown : h.owned i = true)
    (budget : Binary64) (now : Instant) {ts : List Turn}
    (hloads : ∀ run ∈ h.stepLoads src now (.poll i budget ts), run ∈ loads) :
    (h.poll i budget now fun h => h.turns src now ts).1.Told src loads asked := by
  rw [stepLoads, if_pos hown] at hloads
  rcases hw : h.waiting? i budget now with _ | h₁
  · have hcheck : OwnerActs h (h.checkPurged i) := checkPurged_acts h i
    rcases (poll_of_not_waiting hw fun h => h.turns src now ts).2 with heq | heq
    · rw [heq]
      exact ht.ownerActs hs hcheck
    · rw [heq]
      exact ht.ownerActs hs (hcheck.tail (.use _ i now))
  · simp only [hw] at hloads
    have hwait : OwnerActs h h₁ := waiting_acts hown hw
    have hs₁ := hs.ownerActs hwait
    have hwaited := (ht.ownerActs hs hwait).turns hs₁ now hloads
    have hs₂ := hs₁.turns src now ts
    rcases poll_of_waiting hw fun h => h.turns src now ts with heq | heq
    · rw [heq]
      exact hwaited.ownerActs hs₂ (pollPublished_acts _ i now)
    · rw [heq]
      exact hwaited.ownerActs hs₂ (pollPending_acts _ i now)

theorem step (ht : h.Told src loads asked) (hs : h.Sound) (now : Instant) {e : HostEvent}
    (hasked : ∀ i a, e = .populate i a → asked i a)
    (hloads : ∀ run ∈ h.stepLoads src now e, run ∈ loads) :
    (h.step src now e).Told src loads asked := by
  cases e with
  | createTexture => exact ht.ownerActs hs (.single (.createTexture h now))
  | createEntry => exact ht.ownerActs hs (.single (.createEntry h now))
  | populate i a =>
    simp only [Host.step, populate]
    split
    · split
      next ha => exact ht.attach hs (hasked i a rfl) ha
      · exact ht
    · exact ht
  | poll i budget ts =>
    simp only [Host.step]
    split
    next hown => exact ht.poll hs hown budget now hloads
    · exact ht
  | turn tn => exact ht.turn hs now hloads
  | purge i threshold held =>
    simp only [Host.step]
    split
    · exact ht.ownerActs hs (purge_acts h i threshold _)
    · exact ht
  | beginDrop i => exact ht.ownerActs hs (.single (.beginDrop h i))
  | beginDropDuringLoad k cut =>
    simp only [Host.step, beginDropDuringLoad]
    split
    next i hk =>
      simp only [stepLoads, hk] at hloads
      have hbegun := ht.begin hs hk (some cut) hloads
      have hs₁ : (h.begin src k i (some cut)).Sound := by
        rcases begin_acts hk src (some cut) with heq | hw
        · rw [heq]
          exact hs
        · exact hs.work hw
      exact hbegun.ownerActs hs₁ (.single (.beginDrop _ i))
    · exact ht
  | finishDrop i => exact ht.ownerActs hs (finishDrop_acts h i)
  | dropContext => exact ht.ownerActs hs (.single (.dropContext h))

theorem run (ht : h.Told src loads asked) (hs : h.Sound) {events : List (Instant × HostEvent)}
    (hasked : ∀ i a, Asked events i a → asked i a)
    (hloads : ∀ run ∈ h.loads src events, run ∈ loads) :
    (h.run src events).Told src loads asked := by
  induction events generalizing h with
  | nil => exact ht
  | cons e events ih =>
    obtain ⟨now, e⟩ := e
    rw [Host.loads, List.forall_mem_append] at hloads
    have hacts : Acts src (fun _ => True) h (h.step src now e) :=
      step_acts h now fun _ _ _ => trivial
    have hfirst : ∀ i a, e = .populate i a → asked i a := by
      rintro i a rfl
      exact hasked i a ⟨now, List.mem_cons_self⟩
    have hrest : ∀ i a, Asked events i a → asked i a := by
      rintro i a ⟨now', hmem⟩
      exact hasked i a ⟨now', List.mem_cons_of_mem _ hmem⟩
    exact ih (ht.step hs now hfirst hloads.1) (hs.acts hacts) hrest hloads.2

end Told

/-- What a texture shows in every reachable state in which it is not found: what a load for one of
its requests has left, or what a new texture shows. It has no levels unless the files have gone.
If it has none, a load for its request has crashed, or one has listed nothing: then the texture
has no format, and says nothing of transparency but what the first file says. -/
theorem notFound_shows (src : Sources) (events : List (Instant × HostEvent)) {i : Nat}
    {t : Texture} (hi : (start.run src events).textures[i]? = some t)
    (hstate : t.state = .notFound) :
    t.data.Left src (start.loads src events) (Asked events i) ∧
      ((start.run src events).contextAlive = false ∨
        t.data.levels = [] ∧ (t.data.Tried src (start.loads src events) none ∨
          ∃ a o, t.data.attachment = some a ∧ t.data.Tried src (start.loads src events) (some o) ∧
            o.levels = [] ∧ t.data.format = .undefined ∧ t.data.alpha = o.alpha ∧
            (t.data.alpha = .unknown ∨ src.firstAlpha? a.request = some t.data.alpha))) := by
  have htold := (told_start src (start.loads src events) (Asked events)).run sound_start
    (fun _ _ h => h) (fun _ h => h) i t hi
  refine ⟨htold.left, (htold.notFound hstate).imp_right ?_⟩
  rintro ⟨hlevels, htried⟩
  refine ⟨hlevels, htried.imp_right ?_⟩
  rintro ⟨o, htried, hnone, hformat, halpha⟩
  obtain ⟨a, cut, entry, ha, -, ho⟩ := id htried
  obtain ⟨hundefined, hsaid⟩ := outcome_of_nothing ho hnone
  rw [← halpha] at hsaid
  exact ⟨a, o, ha, htried, hnone, hformat.trans hundefined, halpha, hsaid⟩

/-- A picture, and universal textures of which every level ends in one way. -/
def pictureAnd (level : LevelResult) : Sources where
  files := ⟨fun name => some ⟨name, 0⟩,
    fun f => .ok (.ofBytes (if f.name = "a.zim" then onePixel else universalFile))⟩
  transcoder := some (.ofLevels (fun _ => true) fun _ _ _ _ => level)

/-- A texture decodes a picture, and its bytes are purged. -/
def purgedOnce : List (Instant × HostEvent) :=
  let now := Instant.ofSeconds 0
  [(now, .createEntry), (now, .createTexture),
    (now, .populate 0 ⟨.unscaled ["a.zim"] .desktop "", 0⟩),
    (now, .poll 0 ⟨0⟩ (List.replicate 5 (.advance 0))), (now, .purge 0 (.ofSeconds 1) [])]

/-- It then decodes a universal texture. -/
def replacedOnce : List (Instant × HostEvent) :=
  let now := Instant.ofSeconds 1
  purgedOnce ++ [(now, .populate 0 ⟨.unscaled ["b.ktx2"] .desktop "", 0⟩),
    (now, .poll 0 ⟨0⟩ (List.replicate 6 (.advance 1)))]

/-- Its files go instead. -/
def forsakenOnce : List (Instant × HostEvent) :=
  let now := Instant.ofSeconds 1
  purgedOnce ++ [(now, .dropContext), (now, .poll 0 ⟨0⟩ [])]

/-- The universal texture gives no level, but it says that it is solid, and the format of the
picture before it is gone. -/
theorem notFound_shows_replacedOnce :
    let src := pictureAnd (.failed (.transcode .noData))
    ∃ t, (start.run src replacedOnce).textures[0]? = some t ∧ t.state = .notFound ∧
      t.data.Left src (start.loads src replacedOnce) (Asked replacedOnce 0) ∧
      t.data.levels = [] ∧ t.data.format = .undefined ∧ t.data.alpha = .solid ∧
      (t.data.Tried src (start.loads src replacedOnce) none ∨
        ∃ a o, t.data.attachment = some a ∧
          t.data.Tried src (start.loads src replacedOnce) (some o) ∧ o.levels = [] ∧
          o.alpha = .solid ∧ src.firstAlpha? a.request = some .solid) := by
  intro src
  have halive : (start.run src replacedOnce).contextAlive = true := by decide +kernel
  obtain ⟨t, ht, hshown⟩ := Option.map_eq_some_iff.mp (show
    (start.run src replacedOnce).textures[0]?.map (fun t =>
      (t.state, t.data.format, t.data.alpha)) = some (.notFound, .undefined, .solid) by
        decide +kernel)
  simp only [Prod.mk.injEq] at hshown
  obtain ⟨hnotFound, hformat, halpha⟩ := hshown
  obtain ⟨hleft, hgone | ⟨hlevels, htried⟩⟩ := notFound_shows src replacedOnce ht hnotFound
  · rw [halive] at hgone
    cases hgone
  refine ⟨t, ht, hnotFound, hleft, hlevels, hformat, halpha, htried.imp_right ?_⟩
  rintro ⟨a, o, ha, htried, hnone, -, hsame, hsaid⟩
  rw [halpha] at hsame hsaid
  exact ⟨a, o, ha, htried, hnone, hsame.symm, hsaid.resolve_left (by decide)⟩

/-- A texture that is not found can show the transparency of the file that gave nothing, the
format of the file before it, and all that it showed before its files went. -/
theorem notFound_texture_shows_something :
    let shows (level : LevelResult) (events : List (Instant × HostEvent)) :=
      (start.run (pictureAnd level) events).textures[0]?.map fun t =>
        (t.state, t.data.levels.length, t.data.format, t.data.alpha)
    shows (.failed (.transcode .noData)) replacedOnce = some (.notFound, 0, .undefined, .solid) ∧
      shows .crashed replacedOnce = some (.notFound, 0, .rgba8, .solid) ∧
      shows .crashed forsakenOnce = some (.notFound, 1, .rgba8, .solid) := by
  decide +kernel

end Host
end TexturePack
