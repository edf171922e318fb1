import Mathlib
import TexturePack.Proofs.Host.Lifecycle

/-! What a poll tells about a texture and what it does to it: when a decode is submitted, when
the texture is ready, and which states are left again. -/
namespace TexturePack

/-- No task of the texture will touch it any more. -/
def Progress.Quiet (p : Option Progress) : Prop :=
  p = none ∨ p = some .published ∨ p = some .finished

namespace Host

open Progress (Quiet)

variable {src : Sources} {ok : Attachment → Prop} {h h' : Host} {i : Nat} {t : Texture}

/-- The textures that the tasks are for, in the order in which they were submitted. -/
def submitted (h : Host) : List Nat := h.tasks.map DecodeTask.texture

/-- What an event submits. -/
def submits (h : Host) : HostEvent → List Nat
  | .poll i budget _ =>
      if h.owned i ∧ (h.checkPurged i).state? i = some .populated ∧ budget.isBelowZero = false ∧
          h.filesAlive = true then [i]
      else []
  | _ => []

section submission

theorem Work.submitted_eq (hw : Work src h h') : h'.submitted = h.submitted := by
  obtain ⟨k, i, q, p, f, hk, hm, -, htasks, -⟩ := hw.move
  rw [submitted, submitted, htasks]
  apply List.ext_getElem?
  intro j
  rw [List.getElem?_map, List.getElem?_map, List.getElem?_modify]
  rcases h.tasks[j]? with _ | t
  · rfl
  · simp only [Option.map_eq_map, Option.map_some]
    split <;> rfl

theorem submitted_turns (h : Host) (src : Sources) (now : Instant) (ts : List Turn) :
    (h.turns src now ts).submitted = h.submitted :=
  turns_preserves (P := fun h' => h'.submitted = h.submitted)
    (fun _ _ hw ih => hw.submitted_eq.trans ih) rfl now ts

@[simp] theorem tryJoin_tasks (h : Host) (i : Nat) : (h.tryJoin i).1.tasks = h.tasks := by
  unfold tryJoin
  split
  · rfl
  · split <;> rfl

@[simp] theorem touchCache_tasks (h : Host) (i : Nat) (now : Instant) :
    (h.touchCache i now).tasks = h.tasks := by
  unfold touchCache
  split <;> rfl

@[simp] theorem checkPurged_tasks (h : Host) (i : Nat) : (h.checkPurged i).tasks = h.tasks := by
  unfold checkPurged
  split
  · rfl
  · split <;> rfl

@[simp] theorem checkPurged_filesAlive (h : Host) (i : Nat) :
    (h.checkPurged i).filesAlive = h.filesAlive := by
  unfold checkPurged
  split
  · rfl
  · split <;> rfl

@[simp] theorem settle_tasks (h : Host) (i : Nat) (now : Instant) :
    (h.settle i now).1.tasks = h.tasks := by
  unfold settle
  split
  · exact touchCache_tasks h i now
  · exact touchCache_tasks h i now
  · rfl
  · rfl

@[simp] theorem pollPending_tasks (h : Host) (i : Nat) (now : Instant) :
    (h.pollPending i now).1.tasks = h.tasks := by
  rw [pollPending_eq]
  split
  · rw [settle_tasks, tryJoin_tasks]
  · exact tryJoin_tasks h i

@[simp] theorem pollPublished_tasks (h : Host) (i : Nat) (now : Instant) :
    (h.pollPublished i now).1.tasks = h.tasks := by
  rw [pollPublished_eq]
  simp only [modifyTexture]
  split
  · rw [touchCache_tasks, tryJoin_tasks]
  · exact tryJoin_tasks h i

@[simp] theorem purgeActive_tasks (h : Host) (i : Nat) (threshold : Instant)
    (held : Nat → Bool) : (h.purgeActive i threshold held).tasks = h.tasks := by
  unfold purgeActive
  split
  · rfl
  split
  · rfl
  split
  · rfl
  · simp only
    split <;> rfl

@[simp] theorem purge_tasks (h : Host) (i : Nat) (threshold : Instant) (held : Nat → Bool) :
    (h.purge i threshold held).tasks = h.tasks := by
  rw [purge_eq]
  split
  · rw [purgeActive_tasks, tryJoin_tasks]
  · exact tryJoin_tasks h i

@[simp] theorem finishDrop_tasks (h : Host) (i : Nat) : (h.finishDrop i).tasks = h.tasks := by
  unfold finishDrop
  split
  · rfl
  split
  · rfl
  · simp only
    split
    · exact tryJoin_tasks h i
    · exact tryJoin_tasks h i

theorem submitted_startDecode (h : Host) (i : Nat) :
    (h.startDecode i).submitted = h.submitted ++ if h.filesAlive then [i] else [] := by
  rw [startDecode_eq]
  rcases h.filesAlive with _ | _
  · simp [submitted, setState, modifyTexture]
  · simp [submitted, enqueue, modifyTexture]

theorem submitted_poll (h : Host) (src : Sources) (i : Nat) (budget : Binary64) (now : Instant)
    (ts : List Turn) :
    (h.poll i budget now fun h => h.turns src now ts).1.submitted =
      h.submitted ++
        if (h.checkPurged i).state? i = some .populated ∧ budget.isBelowZero = false ∧
          h.filesAlive = true then [i] else [] := by
  have hcheck : (h.checkPurged i).submitted = h.submitted := by
    rw [submitted, checkPurged_tasks, submitted]
  have hfiles := checkPurged_filesAlive h i
  unfold poll
  generalize h.checkPurged i = h₁ at *
  simp only
  have hturns : (h₁.turns src now ts).submitted = h.submitted :=
    (submitted_turns h₁ src now ts).trans hcheck
  split
  next hs => simpa [hs, submitted] using hturns
  next hs => simpa [hs, submitted] using hturns
  next hs => simpa [hs, submitted] using hturns
  next hs =>
    rw [hs]
    rcases budget.isBelowZero with _ | _
    · have huse : (h₁.modifyTexture i fun t => { t with lastUsed := now }).submitted =
          h.submitted := hcheck
      have hsame : (h₁.modifyTexture i fun t => { t with lastUsed := now }).filesAlive =
          h.filesAlive := hfiles
      have hpolled (h₂ : Host) : (h₂.pollPending i now).1.submitted = h₂.submitted := by
        rw [submitted, pollPending_tasks, submitted]
      simp only [Bool.false_eq_true, if_false, true_and]
      rw [hpolled, submitted_turns, submitted_startDecode, huse, hsame]
    · rw [if_pos rfl, if_neg (by simp), List.append_nil]
      exact hcheck
  next hs₁ hs₂ hs₃ hs₄ =>
    rw [if_neg (fun hall => hs₄ hall.1), List.append_nil]
    exact hcheck

/-- Tasks are submitted by polls only, by a poll of a texture that has nothing decoded, with
a budget that is not below zero, while there are files. -/
theorem submitted_step (h : Host) (src : Sources) (now : Instant) (e : HostEvent) :
    (h.step src now e).submitted = h.submitted ++ h.submits e := by
  cases e with
  | createTexture | createEntry | beginDrop | dropContext => exact (List.append_nil _).symm
  | turn tn =>
    refine Eq.trans ?_ (List.append_nil _).symm
    exact submitted_turns h src now [tn]
  | poll i budget ts =>
    simp only [step, submits]
    by_cases hown : h.owned i = true
    · rw [if_pos hown, submitted_poll]
      simp only [hown, true_and]
    · rw [if_neg hown, if_neg (fun hall => hown hall.1), List.append_nil]
  | populate i a =>
    refine Eq.trans ?_ (List.append_nil _).symm
    simp only [step, populate]
    split
    · split <;> rfl
    · rfl
  | purge i threshold held =>
    refine Eq.trans ?_ (List.append_nil _).symm
    simp only [step, submitted]
    split
    · rw [purge_tasks]
    · rfl
  | beginDropDuringLoad k cut =>
    refine Eq.trans ?_ (List.append_nil _).symm
    simp only [step, beginDropDuringLoad]
    split
    next i hk =>
      rcases begin_acts hk src (some cut) with heq | hw
      · rw [heq]
        rfl
      · exact hw.submitted_eq
    · rfl
  | finishDrop i =>
    refine Eq.trans ?_ (List.append_nil _).symm
    rw [step, submitted, finishDrop_tasks, submitted]

end submission

section quiet

/-- A texture that its task is done with stays as it is while tasks go on. -/
theorem work_quiet (hs : h.Sound) (hw : Work src h h') (ht : h.textures[i]? = some t)
    (hq : Quiet (h.heldProgress t)) :
    h'.textures[i]? = some t ∧ Quiet (h'.heldProgress t) ∧
      (h.heldProgress t ≠ some .published → h'.heldProgress t = h.heldProgress t) := by
  rcases hs.work_texture hw ht with ⟨ht', hsame⟩ | ⟨q, p, f, hm, -, hheld, ht', hheld', -⟩
  · exact ⟨ht', by rwa [hsame], fun _ => hsame⟩
  · -- The task of the texture has nothing left but to signal its end.
    rw [hheld] at hq ⊢
    cases hm with
    | signal => exact ⟨ht', .inr (.inr hheld'), by simp⟩
    | load | crash | skip | lose | commit | discard | release | publish => simp [Quiet] at hq

theorem turns_quiet (hs : h.Sound) (ht : h.textures[i]? = some t) (hq : Quiet (h.heldProgress t))
    (src : Sources) (now : Instant) (ts : List Turn) :
    (h.turns src now ts).textures[i]? = some t ∧
      Quiet ((h.turns src now ts).heldProgress t) ∧
      (h.heldProgress t ≠ some .published →
        (h.turns src now ts).heldProgress t = h.heldProgress t) := by
  refine (turns_preserves (P := fun h' => h'.Sound ∧ h'.textures[i]? = some t ∧
    Quiet (h'.heldProgress t) ∧
    (h.heldProgress t ≠ some .published → h'.heldProgress t = h.heldProgress t)) ?_
    ⟨hs, ht, hq, fun _ => rfl⟩ now ts).2
  rintro h₁ h₂ hw ⟨hs₁, ht₁, hq₁, hsame₁⟩
  obtain ⟨ht₂, hq₂, hsame₂⟩ := work_quiet hs₁ hw ht₁ hq₁
  refine ⟨hs₁.work hw, ht₂, hq₂, fun hne => ?_⟩
  rw [← hsame₁ hne]
  exact hsame₂ (by rw [hsame₁ hne]; exact hne)

theorem quiet_of_terminal (hs : h.Sound) (ht : h.textures[i]? = some t)
    (hstate : t.state = .active ∨ t.state = .notFound) : Quiet (h.heldProgress t) :=
  (hs.texture i t ht).terminal hstate

end quiet

section ready

/-- A task that has ended is let go of, and nothing else happens to the texture. -/
theorem tryJoin_eq (ht : h.textures[i]? = some t) (hj : (h.tryJoin i).2 = true) :
    (h.tryJoin i).1.textures[i]? = some { t with task := none } ∧
      (h.tryJoin i).1.entries = h.entries ∧
      (h.heldProgress t = none ∨ h.heldProgress t = some .finished) := by
  unfold tryJoin at hj ⊢
  rw [ht, Option.bind_some] at hj ⊢
  rcases htask : t.task with _ | k
  · simp only
    refine ⟨?_, trivial, .inl (by rw [heldProgress, htask, Option.bind_none])⟩
    rcases t with ⟨state, data, task, lastUsed, ownership⟩
    cases htask
    exact ht
  · simp only [htask] at hj ⊢
    split at hj
    next hp =>
      rw [if_pos hp]
      refine ⟨?_, rfl, .inr (by rw [heldProgress, htask, Option.bind_some, hp])⟩
      rw [textures_modifyTexture, if_pos rfl, ht]
      rfl
    · cases hj

theorem tryJoin_of_ended (ht : h.textures[i]? = some t)
    (hended : h.heldProgress t = none ∨ h.heldProgress t = some .finished) (hs : h.Sound) :
    (h.tryJoin i).2 = true := by
  unfold tryJoin
  rw [ht, Option.bind_some]
  rcases htask : t.task with _ | k
  · rfl
  · obtain ⟨p, hk⟩ := hs.handle i t k ht htask
    have hp : h.progress? k = some .finished := by
      rcases hended with hnone | hp
      · simp [heldProgress, htask, progress?, hk] at hnone
      · simpa [heldProgress, htask] using hp
    simp only [hp, if_true]

@[simp] theorem touchCache_textures (h : Host) (i : Nat) (now : Instant) :
    (h.touchCache i now).textures = h.textures := by
  unfold touchCache
  split <;> rfl

theorem state?_eq (ht : h.textures[i]? = some t) : h.state? i = some t.state := by
  rw [state?, ht]
  rfl

/-- A poll that waits for a task is ready when the task has published. -/
theorem pollPending_ready {now : Instant} (hready : (h.pollPending i now).2 = true) :
    ∃ t, h.textures[i]? = some t ∧ (t.state = .active ∨ t.state = .notFound) ∧
      (h.heldProgress t = none ∨ h.heldProgress t = some .finished) ∧
      (h.tryJoin i).2 = true ∧ (h.pollPending i now).1 = (h.tryJoin i).1.touchCache i now := by
  rw [pollPending_eq] at hready ⊢
  split at hready
  case isFalse => cases hready
  next hj =>
    rw [if_pos hj]
    unfold settle at hready ⊢
    rcases ht : h.textures[i]? with _ | t
    · have hjoined : h.tryJoin i = (h, true) := by
        unfold tryJoin
        rw [ht]
        rfl
      have hnone : h.state? i = none := by
        rw [state?, ht]
        rfl
      simp only [hjoined, hnone] at hready
      cases hready
    · obtain ⟨ht', -, hended⟩ := tryJoin_eq ht hj
      have hstate : (h.tryJoin i).1.state? i = some t.state := by rw [state?_eq ht']
      refine ⟨t, rfl, ?_⟩
      rw [hstate] at hready ⊢
      rcases hs : t.state with _ | _ | _ | _ | _ | _ <;> rw [hs] at hready <;> try cases hready
      · exact ⟨.inr rfl, hended, hj, rfl⟩
      · exact ⟨.inl rfl, hended, hj, rfl⟩

theorem touchCache_after_join (ht : h.textures[i]? = some t) (hj : (h.tryJoin i).2 = true)
    (now : Instant) :
    ((h.tryJoin i).1.touchCache i now).textures[i]? = some { t with task := none } := by
  rw [touchCache_textures]
  exact (tryJoin_eq ht hj).1

/-- The ways in which a poll can come to be ready. -/
theorem poll_cases {budget : Binary64} {now : Instant} {wait : Host → Host}
    (hready : (h.poll i budget now wait).2 = true) :
    ∃ t, (h.checkPurged i).textures[i]? = some t ∧
      ((t.state = .active ∨ t.state = .notFound) ∧
          h.poll i budget now wait = (wait (h.checkPurged i)).pollPublished i now ∨
        t.state = .pending ∧
          h.poll i budget now wait = (wait (h.checkPurged i)).pollPending i now ∨
        t.state = .populated ∧ h.poll i budget now wait =
          (wait (((h.checkPurged i).modifyTexture i fun t =>
            { t with lastUsed := now }).startDecode i)).pollPending i now) := by
  unfold poll at hready ⊢
  generalize h.checkPurged i = h₁ at *
  simp only at hready ⊢
  split at hready
  next hs =>
    obtain ⟨t, ht, hstate⟩ := Option.map_eq_some_iff.mp hs
    exact ⟨t, ht, .inl ⟨.inl hstate, rfl⟩⟩
  next hs =>
    obtain ⟨t, ht, hstate⟩ := Option.map_eq_some_iff.mp hs
    exact ⟨t, ht, .inl ⟨.inr hstate, rfl⟩⟩
  next hs =>
    obtain ⟨t, ht, hstate⟩ := Option.map_eq_some_iff.mp hs
    exact ⟨t, ht, .inr (.inl ⟨hstate, rfl⟩)⟩
  next hs =>
    obtain ⟨t, ht, hstate⟩ := Option.map_eq_some_iff.mp hs
    split at hready
    · cases hready
    next hb => exact ⟨t, ht, .inr (.inr ⟨hstate, if_neg hb⟩)⟩
  · cases hready

theorem pollPublished_of_quiet (ht : h.textures[i]? = some t) {now : Instant}
    (hready : (h.pollPublished i now).2 = true) :
    (h.pollPublished i now).1.textures[i]? = some { t with task := none, lastUsed := now } := by
  rw [pollPublished_eq] at hready ⊢
  rw [if_pos hready, textures_modifyTexture, if_pos rfl, touchCache_after_join ht hready now]
  rfl

/-- A texture that is ready has come to its end and holds no handle. -/
theorem poll_ready (hs : h.Sound) {budget : Binary64} {now : Instant} {ts : List Turn}
    (hready : (h.poll i budget now fun h => h.turns src now ts).2 = true) :
    ∃ t, (h.poll i budget now fun h => h.turns src now ts).1.textures[i]? = some t ∧
      (t.state = .active ∨ t.state = .notFound) ∧ t.task = none := by
  have hcheck := hs.checkPurged i
  have hpending (h₂ : Host) (h₂ready : (h₂.pollPending i now).2 = true) :
      ∃ t, (h₂.pollPending i now).1.textures[i]? = some t ∧
        (t.state = .active ∨ t.state = .notFound) ∧ t.task = none := by
    obtain ⟨t, ht, hstate, -, hj, heq⟩ := pollPending_ready h₂ready
    rw [heq]
    exact ⟨_, touchCache_after_join ht hj now, hstate, rfl⟩
  obtain ⟨t, ht, ⟨hstate, heq⟩ | ⟨-, heq⟩ | ⟨-, heq⟩⟩ := poll_cases hready <;> rw [heq] at hready ⊢
  · obtain ⟨ht₂, -, -⟩ := turns_quiet hcheck ht (quiet_of_terminal hcheck ht hstate) src now ts
    exact ⟨_, pollPublished_of_quiet ht₂ hready, hstate, rfl⟩
  · exact hpending _ hready
  · exact hpending _ hready

theorem checkPurged_of_pending (hstate : h.state? i = some .pending) : h.checkPurged i = h := by
  obtain ⟨t, ht, hs⟩ := Option.map_eq_some_iff.mp hstate
  unfold checkPurged
  rw [ht]
  exact if_neg (by simp [purgedElsewhere, hs])

/-- A pending texture whose task has ended without a result decodes again later. -/
theorem poll_lost (hs : h.Sound) (ht : h.textures[i]? = some t) (hstate : t.state = .pending)
    (hended : h.heldProgress t = none ∨ h.heldProgress t = some .finished) (budget : Binary64)
    (now : Instant) (ts : List Turn) :
    (h.poll i budget now fun h => h.turns src now ts).2 = false ∧
      (h.poll i budget now fun h => h.turns src now ts).1.textures[i]? =
        some { t with state := .populated, task := none } := by
  have hcheck : h.checkPurged i = h :=
    checkPurged_of_pending (by rw [state?_eq ht, hstate])
  have hpoll : (h.poll i budget now fun h => h.turns src now ts) =
      (h.turns src now ts).pollPending i now := by
    unfold poll
    simp only [hcheck, state?_eq ht, hstate]
  have hquiet : Quiet (h.heldProgress t) := hended.imp_right .inr
  obtain ⟨ht₂, -, hsame⟩ := turns_quiet hs ht hquiet src now ts
  have hs₂ := hs.turns src now ts
  have hsame' := hsame (by rcases hended with he | he <;> simp [he])
  have hj := tryJoin_of_ended ht₂ (by rwa [hsame']) hs₂
  have htj := (tryJoin_eq ht₂ hj).1
  rw [hpoll, pollPending_eq, if_pos hj]
  unfold settle
  have hst : ((h.turns src now ts).tryJoin i).1.state? i = some .pending := by
    rw [state?_eq htj, hstate]
  rw [hst]
  refine ⟨rfl, ?_⟩
  simp only [setState]
  rw [textures_modifyTexture, if_pos rfl, htj]
  rfl

end ready

section lasting

/-- The texture has no replacement, or its owner does not use it any more. -/
def Lasting (h : Host) (i : Nat) : Prop :=
  ∃ t, h.textures[i]? = some t ∧ (t.state = .notFound ∨ t.ownership ≠ .owned)

theorem lasting_modify (hl : h.Lasting i) {j : Nat} {f : Texture → Texture}
    (hf : ∀ t, h.textures[j]? = some t → j = i → t.state = .notFound ∨ t.ownership ≠ .owned →
      (f t).state = .notFound ∨ (f t).ownership ≠ .owned) : (h.modifyTexture j f).Lasting i := by
  obtain ⟨t, ht, hlast⟩ := hl
  by_cases hji : j = i
  · subst hji
    exact ⟨f t, by rw [textures_modifyTexture, if_pos rfl, ht]; rfl, hf t ht rfl hlast⟩
  · exact ⟨t, by rw [textures_modifyTexture, if_neg hji, ht], hlast⟩

theorem Move.ownership {q p : Progress} {f : Texture → Texture} (hm : Move q p f) (t : Texture) :
    (f t).ownership = t.ownership := by
  cases hm with
  | commit o g =>
    unfold Texture.take
    split <;> rfl
  | load | crash | skip | lose | discard | release | publish | signal => rfl

theorem work_lasting (hs : h.Sound) (hw : Work src h h') (hl : h.Lasting i) : h'.Lasting i := by
  obtain ⟨t, ht, hstate | hown⟩ := hl
  · obtain ⟨ht', -, -⟩ := work_quiet hs hw ht (quiet_of_terminal hs ht (.inr hstate))
    exact ⟨t, ht', .inl hstate⟩
  · rcases hs.work_texture hw ht with ⟨ht', -⟩ | ⟨q, p, f, hm, -, -, ht', -⟩
    · exact ⟨t, ht', .inr hown⟩
    · exact ⟨f t, ht', .inr (by rwa [hm.ownership])⟩

theorem act_lasting (hs : h.Sound) (ha : Act (Work src) ok h h') (hl : h.Lasting i) :
    h'.Lasting i := by
  cases ha with
  | createTexture now =>
    obtain ⟨t, ht, hlast⟩ := hl
    have hlt := (List.getElem?_eq_some_iff.mp ht).1
    exact ⟨t, (List.getElem?_append_left hlt).trans ht, hlast⟩
  | createEntry | touch | purge | note | dropContext => exact hl
  | attach hok ha =>
    apply lasting_modify hl
    intro t ht _ hlast
    rcases hlast with hstate | hown
    · simp [attachable, ht, Texture.populatable, hstate] at ha
    · exact .inr hown
  | use j now => exact lasting_modify hl fun t _ _ hlast => hlast
  | join ht hk hp => exact lasting_modify hl fun t _ _ hlast => hlast
  | revert ht hnone hstate =>
    apply lasting_modify hl
    intro t' ht' _ hlast
    obtain rfl := Option.some.inj (ht.symm.trans ht')
    rcases hlast with hlast | hown
    · rcases hstate with hstate | hstate <;> rw [hstate] at hlast <;> cases hlast
    · exact .inr hown
  | @submit j t ht hstate hown =>
    have hne (f : Texture → Texture) (hl : h.Lasting i) : (h.modifyTexture j f).Lasting i := by
      apply lasting_modify hl
      intro t' ht' _ hlast
      obtain rfl := Option.some.inj (ht.symm.trans ht')
      rcases hlast with hlast | hlast
      · rw [hstate] at hlast
        cases hlast
      · exact absurd hown hlast
    unfold startDecode
    split
    · exact hne _ hl
    · exact hne _ hl
  | work hw => exact work_lasting hs hw hl
  | beginDrop j =>
    apply lasting_modify hl
    intro t _ _ hlast
    unfold Texture.beginDrop
    split
    · exact hlast
    · exact .inr (by simp)
  | leave ht hnone => exact lasting_modify hl fun t _ _ _ => .inr (by simp)

/-- A texture without a replacement stays without one. -/
theorem notFound_lasts (hs : h.Sound) (hstate : h.state? i = some .notFound) (src : Sources)
    (events : List (Instant × HostEvent)) (hown : (h.run src events).owned i = true) :
    (h.run src events).state? i = some .notFound := by
  obtain ⟨t, ht, hnf⟩ := Option.map_eq_some_iff.mp hstate
  have hacts : Acts src (fun _ => True) h (h.run src events) :=
    run_acts h fun _ _ _ _ => trivial
  obtain ⟨-, t', ht', hlast⟩ := hacts.preserves (P := fun h => h.Sound ∧ h.Lasting i)
    (fun _ _ ha hP => ⟨hP.1.act ha, act_lasting hP.1 ha hP.2⟩) ⟨hs, t, ht, .inl hnf⟩
  obtain ⟨t'', ht'', howned⟩ := owned_iff.mp hown
  obtain rfl := Option.some.inj (ht'.symm.trans ht'')
  rcases hlast with hlast | hlast
  · rw [state?_eq ht', hlast]
  · exact absurd howned hlast

end lasting

/-- How textures and their tasks behave, whatever else happens to the host. -/
structure Orderly (src : Sources) (h : Host) : Prop where
  /-- No texture has two tasks under way. -/
  single : ∀ (i k k' : Nat) (p p' : Progress), h.tasks[k]? = some ⟨i, p⟩ →
    h.tasks[k']? = some ⟨i, p'⟩ → p ≠ .finished → p' ≠ .finished → k = k'
  idle : ∀ (i : Nat) (t : Texture), h.textures[i]? = some t →
    t.state = .uninitialized ∨ t.state = .populated → t.task = none
  /-- A poll that is about to submit a task finds no handle. -/
  unclaimed : ∀ (i : Nat) (t : Texture), (h.checkPurged i).textures[i]? = some t →
    t.state = .populated → t.task = none
  submission : ∀ (now : Instant) (e : HostEvent),
    (h.step src now e).submitted = h.submitted ++ h.submits e
  waiting : ∀ (i : Nat) (budget : Binary64) (ts : List Turn), h.state? i = some .pending →
    h.submits (.poll i budget ts) = []
  ready : ∀ (i : Nat) (budget : Binary64) (now : Instant) (ts : List Turn),
    (h.poll i budget now fun h => h.turns src now ts).2 = true →
    ∃ t, (h.poll i budget now fun h => h.turns src now ts).1.textures[i]? = some t ∧
      (t.state = .active ∨ t.state = .notFound) ∧ t.task = none
  active : ∀ (i : Nat) (t : Texture), h.textures[i]? = some t → t.state = .active →
    t.ownership ≠ .dropped → t.data.levels ≠ [] ∧ t.data.cache.isSome = true
  notFound : ∀ i : Nat, h.state? i = some .notFound → ∀ more : List (Instant × HostEvent),
    (h.run src more).owned i = true → (h.run src more).state? i = some .notFound
  /-- A task that has ended without a result is given up by the next poll. -/
  lost : ∀ (i : Nat) (t : Texture), h.textures[i]? = some t → t.state = .pending →
    h.heldProgress t = none ∨ h.heldProgress t = some .finished →
    ∀ (budget : Binary64) (now : Instant) (ts : List Turn),
      (h.poll i budget now fun h => h.turns src now ts).2 = false ∧
        (h.poll i budget now fun h => h.turns src now ts).1.textures[i]? =
          some { t with state := .populated, task := none }

theorem Sound.single (hs : h.Sound) {k k' : Nat} {p p' : Progress}
    (hk : h.tasks[k]? = some ⟨i, p⟩) (hk' : h.tasks[k']? = some ⟨i, p'⟩) (hp : p ≠ .finished)
    (hp' : p' ≠ .finished) : k = k' := by
  obtain ⟨t, ht, htask⟩ := hs.held k i p hk hp
  obtain ⟨t', ht', htask'⟩ := hs.held k' i p' hk' hp'
  obtain rfl := Option.some.inj (ht.symm.trans ht')
  exact Option.some.inj (htask.symm.trans htask')

/-- Every run of owners and tasks, in whatever order, leaves an orderly host. -/
theorem orderly_run (src : Sources) (events : List (Instant × HostEvent)) :
    (start.run src events).Orderly src := by
  have hs := sound_run src events
  generalize start.run src events = h at hs
  constructor
  · exact fun i k k' p p' hk hk' hp hp' => hs.single hk hk' hp hp'
  · exact fun i t ht hstate => (hs.texture i t ht).idle hstate
  · intro i t ht hstate
    exact ((hs.checkPurged i).texture i t ht).idle (.inr hstate)
  · exact fun now e => submitted_step h src now e
  · intro i budget ts hstate
    rw [submits, checkPurged_of_pending hstate, hstate]
    simp
  · exact fun i budget now ts hready => poll_ready hs hready
  · exact fun i t ht hstate hown => (hs.texture i t ht).active hstate hown
  · exact fun i hstate more hown => notFound_lasts hs hstate src more hown
  · exact fun i t ht hstate hended budget now ts => poll_lost hs ht hstate hended budget now ts

end Host
end TexturePack
