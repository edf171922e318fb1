import Mathlib
import TexturePack.Proofs.Host.Readiness
import TexturePack.Proofs.Host.Serving

/-! What a poll that is ready says about the bytes of a texture. Only a texture that still holds
its task can be ready with bytes that a purge has dropped since the decode, and the next poll
notices it. -/
namespace TexturePack.Host

variable {src : Sources} {ok : Attachment → Prop} {h h' : Host} {i : Nat} {t : Texture}

theorem Change.generation_le {e : Nat} {c c' : CacheEntry} (hch : Change src h e c c') :
    c.generation ≤ c'.generation := by
  obtain ⟨a, rfl⟩ := hch.isAct
  exact (c.generation_le_act a).1

/-- What is known of a texture while its owner waits in a poll: the entry of its request has
come to generation `n` at least, and what the texture is about to show has a generation with
the property `P`. -/
structure Due (P : Nat → Prop) (i : Nat) (a : Attachment) (n : Nat) (h : Host) (t : Texture) :
    Prop where
  texture : h.textures[i]? = some t
  owned : t.ownership = .owned
  attached : t.data.attachment = some a
  reached : ∃ c, h.entries[a.entry]? = some c ∧ n ≤ c.generation
  vouched : t.Vouched (fun _ g _ => P g) (h.heldProgress t)
  queued : h.heldProgress t = some .queued → ∀ g, n ≤ g → P g

theorem Due.work {P : Nat → Prop} {a : Attachment} {n : Nat} (hd : h.Due P i a n t)
    (hs : h.Sound) (hb : h.Bound ok) (hw : Work src h h') : ∃ t', h'.Due P i a n t' := by
  obtain ⟨ht, hown, ha, ⟨c, hc, hn⟩, hv, hqueued⟩ := hd
  obtain ⟨c', hc', hch⟩ := (Act.work hw : Act (Work src) ok h h').change hc
  have hreached : ∃ c, h'.entries[a.entry]? = some c ∧ n ≤ c.generation :=
    ⟨c', hc', hn.trans hch.generation_le⟩
  rcases hs.work_texture hw ht with ⟨ht', hsame⟩ | ⟨q, p, f, hm, htask, hq, ht', hp, hload⟩
  · exact ⟨t, ht', hown, ha, hreached, hsame ▸ hv, hsame ▸ hqueued⟩
  · rw [hq] at hv hqueued
    refine ⟨f t, ht', by rw [hm.ownership, hown], by rw [hm.attachment, ha], hreached, ?_, ?_⟩
    · rw [hp]
      refine hm.vouched hv (hb i t ht) (hq ▸ hs.texture i t ht) htask ?_ fun _ _ _ hP => hP
      rintro o g a' rfl hloaded ha'
      obtain ⟨a'', ha'', c₀, -, hc₀, rfl, -⟩ := hload o g hloaded
      obtain rfl := Option.some.inj (ha.symm.trans ha'')
      obtain rfl := Option.some.inj (hc.symm.trans hc₀)
      exact hqueued rfl _ hn
    · rw [hp]
      cases hm <;> simp

theorem Due.turns {P : Nat → Prop} {a : Attachment} {n : Nat} (hd : h.Due P i a n t)
    (hs : h.Sound) (hb : h.Bound ok) (src : Sources) (now : Instant) (ts : List Turn) :
    ∃ t', (h.turns src now ts).Due P i a n t' := by
  refine (turns_preserves (P := fun h => h.Sound ∧ h.Bound ok ∧ ∃ t, h.Due P i a n t) ?_
    ⟨hs, hb, t, hd⟩ now ts).2.2
  rintro h₁ h₂ hw ⟨hs₁, hb₁, t₁, hd₁⟩
  exact ⟨hs₁.work hw, hb₁.act (.work hw : Act (Work src) ok h₁ h₂), hd₁.work hs₁ hb₁ hw⟩

/-- The generation that the decode behind the handle of a texture has read, if it has come so
far. -/
def recorded? (h : Host) (t : Texture) : Option Nat :=
  match h.heldProgress t with
  | none | some .queued => none
  | some (.loaded _ g) => some g
  | some _ => some t.data.generation

/-- The generations with which a texture can come out of a poll that finds its entry at
generation `n`. -/
structure Outlook (h : Host) (t : Texture) (n g : Nat) : Prop where
  fresh : h.recorded? t = none → n ≤ g
  old : ∀ r, h.recorded? t = some r → g = r

theorem outlook_of_idle (hidle : t.task = none) {n g : Nat} (hg : n ≤ g) : h.Outlook t n g := by
  have hnone : h.recorded? t = none := by rw [recorded?, heldProgress_of_idle hidle]
  exact ⟨fun _ => hg, by simp [hnone]⟩

@[simp] theorem checkPurged_entries (h : Host) (i : Nat) :
    (h.checkPurged i).entries = h.entries := by
  unfold checkPurged
  split
  · rfl
  · split <;> rfl

theorem checkPurged_texture (ht : h.textures[i]? = some t) :
    (h.checkPurged i).textures[i]? =
      some (if h.purgedElsewhere t then { t with state := .populated } else t) := by
  unfold checkPurged
  simp only [ht]
  split
  · rw [setState, textures_modifyTexture, if_pos rfl, ht]
    rfl
  · exact ht

/-- A texture whose bytes have not been purged goes on with what its task has read. -/
theorem due_of_kept (hs : h.Sound) (hb : h.Bound ok) (ht : h.textures[i]? = some t)
    (hown : t.ownership = .owned) {a : Attachment} (ha : t.data.attachment = some a)
    {c : CacheEntry} (hc : h.entries[a.entry]? = some c) (hkept : h.purgedElsewhere t = false) :
    (h.checkPurged i).Due (h.Outlook t c.generation) i a c.generation t := by
  have hheld : (h.checkPurged i).heldProgress t = h.heldProgress t :=
    heldProgress_congr (checkPurged_tasks h i) t
  have hsound := hs.texture i t ht
  refine ⟨by rw [checkPurged_texture ht, hkept]; rfl, hown, ha,
    ⟨c, by rwa [checkPurged_entries], le_rfl⟩, ⟨?_, ?_⟩, ?_⟩
  · intro o g a' hp _
    rw [hheld] at hp
    exact ⟨by simp [recorded?, hp], by simp [recorded?, hp]⟩
  · intro e hshown he
    rw [hheld] at hshown
    rcases hp : h.heldProgress t with _ | p
    · -- No task is left, so the generation has just been compared.
      obtain ⟨a', ha', rfl⟩ := (hb i t ht).cached e he
      obtain rfl := Option.some.inj (ha.symm.trans ha')
      have hidle := hs.task_of_heldProgress ht hp
      have hactive : t.state = .active := hshown.resolve_right (by simp [hp])
      have hsame : h.generation? a.entry = some t.data.generation := by
        simpa [purgedElsewhere, hidle, hactive, he] using hkept
      rw [generation?, hc, Option.map_some, Option.some.injEq] at hsame
      exact outlook_of_idle hidle hsame.le
    · have hterminal := hsound.terminal
      rw [hp] at hshown hterminal
      have hrecorded : h.recorded? t = some t.data.generation := by
        cases p with
        | queued | loaded => simp_all
        | crashed | discarded | committed | published | finished => simp [recorded?, hp]
      exact ⟨by simp [hrecorded], by simp [hrecorded]⟩
  · intro hp g hg
    rw [hheld] at hp
    exact ⟨fun _ => hg, by simp [recorded?, hp]⟩

theorem due_of_submit (ht : h.textures[i]? = some t) (hown : t.ownership = .owned)
    {a : Attachment} (ha : t.data.attachment = some a) {c : CacheEntry}
    (hc : h.entries[a.entry]? = some c) (hidle : t.task = none) {P : Nat → Prop} {n : Nat}
    (hn : n ≤ c.generation) (hP : ∀ g, n ≤ g → P g) : ∃ t', (h.startDecode i).Due P i a n t' := by
  rw [startDecode_eq]
  split
  · refine ⟨{ t with state := .pending, task := some h.tasks.length }, ?_, hown, ha, ⟨c, hc, hn⟩,
      ?_, fun _ => hP⟩
    · rw [enqueue, textures_modifyTexture, if_pos rfl, ht]
      rfl
    · exact Texture.vouched_of_hidden (by simp) (.inr heldProgress_enqueue)
  · refine ⟨{ t with state := .notFound }, ?_, hown, ha, ⟨c, hc, hn⟩, ?_, fun _ => hP⟩
    · rw [setState, textures_modifyTexture, if_pos rfl, ht]
      rfl
    · exact Texture.vouched_of_hidden (by simp) (.inl (heldProgress_of_idle hidle))

theorem pollPending_texture (ht : h.textures[i]? = some t) {now : Instant}
    (hready : (h.pollPending i now).2 = true) :
    (h.pollPending i now).1.textures[i]? = some { t with task := none } := by
  obtain ⟨t', ht', -, -, hj, heq⟩ := pollPending_ready hready
  obtain rfl := Option.some.inj (ht.symm.trans ht')
  rw [heq]
  exact touchCache_after_join ht hj now

/-- A poll that is ready has waited, and from the start of the wait on the task of the texture
can bring no other generation than the one in view. -/
theorem due_of_poll (hs : h.Sound) (hb : h.Bound ok) (ht : h.textures[i]? = some t)
    (hown : t.ownership = .owned) {budget : Binary64} {now : Instant} {ts : List Turn}
    (hready : (h.poll i budget now fun h => h.turns src now ts).2 = true) :
    ∃ (a : Attachment) (c : CacheEntry) (h₁ : Host) (t₁ : Texture),
      t.data.attachment = some a ∧ h.entries[a.entry]? = some c ∧ h₁.Sound ∧
      h₁.Bound ok ∧ h₁.Due (h.Outlook t c.generation) i a c.generation t₁ ∧
      ((h.poll i budget now fun h => h.turns src now ts) =
          (h₁.turns src now ts).pollPublished i now ∨
        (h.poll i budget now fun h => h.turns src now ts) =
          (h₁.turns src now ts).pollPending i now) := by
  obtain ⟨t₁, ht₁, hcases⟩ := poll_cases hready
  have hs₁ := hs.checkPurged i
  have hb₁ : (h.checkPurged i).Bound ok :=
    (checkPurged_acts h i : Acts src ok h _).preserves (fun _ _ ha hb => hb.act ha) hb
  have heq : t₁ = if h.purgedElsewhere t then { t with state := .populated } else t :=
    Option.some.inj (ht₁.symm.trans (checkPurged_texture ht))
  have hdata : t₁.data = t.data := by
    rw [heq]
    split <;> rfl
  have hattached : t₁.data.attachment.isSome = true := by
    apply (hs₁.texture i t₁ ht₁).attached
    rcases hcases with ⟨hst | hst, -⟩ | ⟨hst, -⟩ | ⟨hst, -⟩ <;> simp [hst]
  obtain ⟨a, ha⟩ := Option.isSome_iff_exists.mp hattached
  obtain ⟨-, hentry⟩ := (hb₁ i t₁ ht₁).attached a ha
  rw [checkPurged_entries] at hentry
  obtain ⟨c, hc⟩ : ∃ c, h.entries[a.entry]? = some c := ⟨_, List.getElem?_eq_getElem hentry⟩
  have ha' : t.data.attachment = some a := hdata ▸ ha
  refine ⟨a, c, ?_⟩
  have hkept (hst : t₁.state ≠ .populated) : h.purgedElsewhere t = false := by
    by_contra hp
    rw [Bool.not_eq_false] at hp
    exact hst (by rw [heq, if_pos hp])
  rcases hcases with ⟨hst, hpoll⟩ | ⟨hst, hpoll⟩ | ⟨hst, hpoll⟩
  · have hne : t₁.state ≠ .populated := by rcases hst with hst | hst <;> simp [hst]
    exact ⟨_, t, ha', hc, hs₁, hb₁, due_of_kept hs hb ht hown ha' hc (hkept hne), .inl hpoll⟩
  · have hne : t₁.state ≠ .populated := by simp [hst]
    exact ⟨_, t, ha', hc, hs₁, hb₁, due_of_kept hs hb ht hown ha' hc (hkept hne), .inr hpoll⟩
  · -- The texture decodes anew.
    have hidle : t.task = none := by
      have hidle₁ := (hs₁.texture i t₁ ht₁).idle (.inr hst)
      rw [heq] at hidle₁
      split at hidle₁ <;> exact hidle₁
    have huse : Act (Work src) ok (h.checkPurged i)
        ((h.checkPurged i).modifyTexture i fun t => { t with lastUsed := now }) := .use _ i now
    have ht₂ :
        ((h.checkPurged i).modifyTexture i fun t => { t with lastUsed := now }).textures[i]? =
          some { t₁ with lastUsed := now } := by
      rw [textures_modifyTexture, if_pos rfl, ht₁]
      rfl
    have hown₁ : t₁.ownership = .owned := by
      rw [heq]
      split <;> exact hown
    have hsubmit : Act (Work src) ok _ _ := .submit ht₂ hst hown₁
    have hc₂ : (h.checkPurged i).entries[a.entry]? = some c := by rw [checkPurged_entries, hc]
    obtain ⟨t₃, hd⟩ := due_of_submit (P := h.Outlook t c.generation) ht₂ hown₁ ha hc₂
      ((hs₁.texture i t₁ ht₁).idle (.inr hst)) le_rfl fun g hg => outlook_of_idle hidle hg
    exact ⟨_, t₃, ha', hc, (hs₁.act huse).act hsubmit, (hb₁.act huse).act hsubmit, hd, .inr hpoll⟩

/-- With which generation a texture comes out of a poll. -/
theorem poll_outlook (hs : h.Sound) (hb : h.Bound ok) (ht : h.textures[i]? = some t)
    (hown : t.ownership = .owned) {budget : Binary64} {now : Instant} {ts : List Turn}
    (hready : (h.poll i budget now fun h => h.turns src now ts).2 = true) :
    ∃ a c t', t.data.attachment = some a ∧ h.entries[a.entry]? = some c ∧
      (h.poll i budget now fun h => h.turns src now ts).1.textures[i]? = some t' ∧
      t'.data.attachment = some a ∧ t'.task = none ∧ t'.ownership = .owned ∧
      (t'.state = .active → ∀ e, t'.data.cache = some e →
        h.Outlook t c.generation t'.data.generation) := by
  obtain ⟨a, c, h₁, t₁, ha, hc, hs₁, hb₁, hd₁, hpoll⟩ := due_of_poll hs hb ht hown hready
  obtain ⟨t₂, hd₂⟩ := hd₁.turns hs₁ hb₁ src now ts
  refine ⟨a, c, ?_⟩
  rcases hpoll with hpoll | hpoll <;> rw [hpoll] at hready ⊢
  · exact ⟨_, ha, hc, pollPublished_of_quiet hd₂.texture hready, hd₂.attached, rfl, hd₂.owned,
      fun hactive e he => hd₂.vouched.shown e (.inl hactive) he⟩
  · exact ⟨_, ha, hc, pollPending_texture hd₂.texture hready, hd₂.attached, rfl, hd₂.owned,
      fun hactive e he => hd₂.vouched.shown e (.inl hactive) he⟩

/-- What it means that a texture is ready and active. Its levels are those that a decode has
stored at some generation of the entry, and as long as the entry has this generation, they are
there. The entry has it, unless the texture still held its task when the poll began and bytes
had been purged after the task read the generation: the purge is looked for before the task is
let go of. The next poll finds it. -/
theorem ready_coherent (src : Sources) (events : List (Instant × HostEvent)) {i : Nat}
    {budget : Binary64} {now : Instant} {ts : List Turn} {h' : Host}
    (hown : (start.run src events).owned i = true)
    (hpoll : (start.run src events).poll i budget now (fun h => h.turns src now ts) = (h', true))
    (hactive : h'.state? i = some .active) :
    ∃ t e c t' c', (start.run src events).textures[i]? = some t ∧
      (start.run src events).entries[e]? = some c ∧ h'.textures[i]? = some t' ∧
      t'.data.cache = some e ∧ h'.entries[e]? = some c' ∧
      t'.data.generation ≤ c'.generation ∧
      (t'.data.generation = c'.generation → c'.data.Shows t'.data.levels) ∧
      (start.run src events).Outlook t c.generation t'.data.generation ∧
      (c'.generation = c.generation → (t'.data.generation = c'.generation ↔
        (start.run src events).recorded? t = none ∨
          (start.run src events).recorded? t = some c.generation)) ∧
      (h'.checkPurged i).state? i =
        some (if t'.data.generation = c'.generation then .active else .populated) := by
  have hs := sound_run src events
  have hb : (start.run src events).Bound fun _ => True := bound_run src fun _ _ _ _ => trivial
  have hco := coherent_run src events
  generalize start.run src events = h at *
  obtain ⟨t, ht, howned⟩ := owned_iff.mp hown
  have hready : (h.poll i budget now fun h => h.turns src now ts).2 = true := by rw [hpoll]
  obtain ⟨a, c, t', ha, hc, ht', ha', hidle, howned', houtlook⟩ :=
    poll_outlook hs hb ht howned hready
  have hacts : Acts src (fun _ => True) h _ := poll_acts hown budget now ts
  rw [hpoll] at ht' hacts
  have hstate : t'.state = .active := by
    rw [state?_eq ht'] at hactive
    exact Option.some.inj hactive
  obtain ⟨-, hsome⟩ := ((hs.acts hacts).texture i t' ht').active hstate (by simp [howned'])
  obtain ⟨e, he⟩ := Option.isSome_iff_exists.mp hsome
  obtain ⟨a', ha'', rfl⟩ := ((hb.acts hacts) i t' ht').cached e he
  obtain rfl := Option.some.inj (ha'.symm.trans ha'')
  obtain ⟨c', hc', hserves⟩ := (hco.acts hs hb hacts i t' ht').shown _ (.inl hstate) he
  have hview := houtlook hstate _ he
  refine ⟨t, a.entry, c, t', c', ht, hc, ht', he, hc', hserves.le, hserves.shows, hview, ?_, ?_⟩
  · intro hsame
    have hle := hserves.le
    rcases hr : h.recorded? t with _ | r
    · have := hview.fresh hr
      simp only [true_or, iff_true]
      omega
    · rw [hview.old r hr, hsame]
      simp
  · rw [state?_eq (checkPurged_texture ht')]
    have hgen : h'.generation? a.entry = some c'.generation := by rw [generation?, hc']; rfl
    by_cases heq : t'.data.generation = c'.generation
    · simp [purgedElsewhere, hidle, hstate, he, hgen, heq]
    · simp [purgedElsewhere, hidle, hstate, he, hgen, heq, Ne.symm heq]

/-- Two textures have decoded into one entry. The owner of the first lets go of its task and
purges the entry. -/
def purging : List (Instant × HostEvent) :=
  let now := Instant.ofSeconds 0
  let a : Attachment := ⟨.unscaled ["a.zim"] .desktop "", 0⟩
  [(now, .createEntry), (now, .createTexture), (now, .createTexture), (now, .populate 0 a),
    (now, .populate 1 a), (now, .poll 0 ⟨0⟩ []), (now, .poll 1 ⟨0⟩ []),
    (now, .poll 0 ⟨0⟩ (List.replicate 5 (.advance 0) ++ List.replicate 5 (.advance 1))),
    (now, .purge 0 (.ofSeconds 1) [])]

/-- The owner of the second texture comes to its task only now. -/
def lateJoin : Host × Bool :=
  (start.run (.single onePixel) purging).poll 1 ⟨0⟩ (.ofSeconds 1) fun h =>
    h.turns (.single onePixel) (.ofSeconds 1) []

/-- The second texture is active with the bytes of the generation before, and the next poll finds
that they are gone. -/
theorem ready_coherent_lateJoin :
    ∃ t c', lateJoin.1.textures[1]? = some t ∧ t.data.cache = some 0 ∧
      lateJoin.1.entries[0]? = some c' ∧ t.data.generation = 0 ∧ c'.generation = 1 ∧
      (lateJoin.1.checkPurged 1).state? 1 = some .populated := by
  have hown : (start.run (.single onePixel) purging).owned 1 = true := by decide +kernel
  have hready : lateJoin.2 = true := by decide +kernel
  have hpoll : lateJoin = (lateJoin.1, true) := Prod.ext rfl hready
  have hactive : lateJoin.1.state? 1 = some .active := by decide +kernel
  have hcache : lateJoin.1.textures[1]?.map (fun t => (t.data.cache, t.data.generation)) =
      some (some 0, 0) := by
    decide +kernel
  have hcount : lateJoin.1.entries[0]?.map CacheEntry.generation = some 1 := by decide +kernel
  obtain ⟨-, e, -, t, c', -, -, ht, he, hc', -, -, -, -, hnext⟩ :=
    ready_coherent (.single onePixel) purging hown hpoll hactive
  rw [ht, Option.map_some, Option.some.injEq, Prod.mk.injEq] at hcache
  obtain rfl : e = 0 := Option.some.inj (he.symm.trans hcache.1)
  rw [hc', Option.map_some, Option.some.injEq] at hcount
  rw [hcache.2, hcount, if_neg Nat.zero_ne_one] at hnext
  exact ⟨t, c', ht, he, hc', hcache.2, hcount, hnext⟩

/-- The second texture is ready although the bytes are gone. -/
theorem lateJoin_stale :
    lateJoin.2 = true ∧ lateJoin.1.state? 1 = some .active ∧
      lateJoin.1.textures[1]?.map (fun t =>
        (t.data.cache, t.data.generation, t.data.levels.length)) = some (some 0, 0, 1) ∧
      lateJoin.1.entries[0]?.map (fun c => (c.generation, c.data.has 0)) = some (1, false) := by
  decide +kernel

end TexturePack.Host
