import Mathlib
import TexturePack.Host

/-! What a step of the host can do, cut into the actions that it is made of. Invariants are
proved for the actions; a run of the host is a chain of them. -/
namespace TexturePack.Host

/-- The actions of decode tasks. -/
inductive Work (src : Sources) : Host → Host → Prop
  | load {h : Host} {k i : Nat} {t : Texture} {a : Attachment} {c : CacheEntry}
      (hk : h.tasks[k]? = some ⟨i, .queued⟩) (ht : h.textures[i]? = some t)
      (ha : t.data.attachment = some a) (hc : h.entries[a.entry]? = some c) (cut : Option Nat) :
      Work src h (h.load src k a cut)
  /-- A texture without a request has no replacement. -/
  | skip {h : Host} {k i : Nat} (hk : h.tasks[k]? = some ⟨i, .queued⟩) :
      Work src h (h.setProgress k (.committed false))
  | lose {h : Host} {k i : Nat} (hk : h.tasks[k]? = some ⟨i, .queued⟩) :
      Work src h (h.setProgress k .finished)
  | commit {h : Host} {k i : Nat} {o : LoadOutcome} {g : Nat}
      (hk : h.tasks[k]? = some ⟨i, .loaded o g⟩) (now : Instant) :
      Work src h ((h.commit i o g now).setProgress k (.committed (!o.levels.isEmpty)))
  | discard {h : Host} {k i : Nat} (hk : h.tasks[k]? = some ⟨i, .crashed⟩) :
      Work src h ((h.discardEntry i).setProgress k .discarded)
  | release {h : Host} {k i : Nat} (hk : h.tasks[k]? = some ⟨i, .discarded⟩) :
      Work src h ((h.releaseLevels i).setProgress k (.committed false))
  | publish {h : Host} {k i : Nat} {found : Bool} (hk : h.tasks[k]? = some ⟨i, .committed found⟩) :
      Work src h ((h.publish i found).setProgress k .published)
  | signal {h : Host} {k i : Nat} (hk : h.tasks[k]? = some ⟨i, .published⟩) :
      Work src h (h.setProgress k .finished)

/-- Everything that happens to a host, where tasks do `work` and requests that are attached
satisfy `ok`. -/
inductive Act (work : Host → Host → Prop) (ok : Attachment → Prop) : Host → Host → Prop
  | createTexture (h : Host) (now : Instant) : Act work ok h (h.createTexture now).1
  | createEntry (h : Host) (now : Instant) : Act work ok h (h.createEntry now).1
  | attach {h : Host} {i : Nat} {a : Attachment} (hok : ok a) (ha : h.attachable i a = true) :
      Act work ok h (h.modifyTexture i fun t => t.attach a)
  | use (h : Host) (i : Nat) (now : Instant) :
      Act work ok h (h.modifyTexture i fun t => { t with lastUsed := now })
  | touch (h : Host) (e : Nat) (now : Instant) :
      Act work ok h (h.modifyEntry e fun c => c.touch now)
  | purge (h : Host) (e : Nat) (threshold : Instant) (held : Bool) :
      Act work ok h (h.modifyEntry e fun c => c.purgeIfOlder threshold held)
  | join {h : Host} {i k : Nat} {t : Texture} (ht : h.textures[i]? = some t)
      (hk : t.task = some k) (hp : h.progress? k = some .finished) :
      Act work ok h (h.modifyTexture i fun t => { t with task := none })
  /-- An active texture lost its bytes, or a pending one its task. -/
  | revert {h : Host} {i : Nat} {t : Texture} (ht : h.textures[i]? = some t) (hnone : t.task = none)
      (hstate : t.state = .active ∨ t.state = .pending) : Act work ok h (h.setState i .populated)
  | submit {h : Host} {i : Nat} {t : Texture} (ht : h.textures[i]? = some t)
      (hstate : t.state = .populated) (hown : t.ownership = .owned) :
      Act work ok h (h.startDecode i)
  | work {h h' : Host} (hw : work h h') : Act work ok h h'
  | beginDrop (h : Host) (i : Nat) : Act work ok h (h.beginDrop i)
  | leave {h : Host} {i : Nat} {t : Texture} (ht : h.textures[i]? = some t)
      (hnone : t.task = none) :
      Act work ok h (h.modifyTexture i fun t =>
        { t with ownership := .dropped, data := { t.data with levels := [] } })
  | note (h : Host) (events : List FileEvent) : Act work ok h (h.note events)
  | dropContext (h : Host) : Act work ok h h.dropContext

/-- A chain of actions. -/
abbrev Actions (work : Host → Host → Prop) (ok : Attachment → Prop) : Host → Host → Prop :=
  Relation.ReflTransGen (Act work ok)

/-- A chain of actions in which tasks do nothing and nothing is asked for. -/
abbrev OwnerActs : Host → Host → Prop := Actions (fun _ _ => False) fun _ => False

/-- A chain of actions in which tasks do their own work. -/
abbrev Acts (src : Sources) (ok : Attachment → Prop) : Host → Host → Prop := Actions (Work src) ok

variable {src : Sources} {work : Host → Host → Prop} {ok : Attachment → Prop}

theorem begin_acts {h : Host} {k i : Nat} (hk : h.tasks[k]? = some ⟨i, .queued⟩)
    (src : Sources) (cut : Option Nat) :
    h.begin src k i cut = h ∨ Work src h (h.begin src k i cut) := by
  unfold begin
  rcases ht : h.textures[i]? with _ | t
  · exact .inl rfl
  rcases ha : t.data.attachment with _ | a
  · simp only [ha]
    exact .inr (.skip hk)
  simp only [ha]
  rcases hc : h.entries[a.entry]? with _ | c
  · left
    unfold load
    rw [hc]
  · exact .inr (.load hk ht ha hc _)

theorem turn_work (h : Host) (src : Sources) (now : Instant) (tn : Turn) :
    h.turn src now tn = h ∨ Work src h (h.turn src now tn) := by
  cases tn with
  | lose k =>
    simp only [turn, lose]
    split
    next hp =>
      simp only [progress?, Option.map_eq_some_iff] at hp
      obtain ⟨⟨i, p⟩, hk, rfl⟩ := hp
      exact .inr (.lose hk)
    · exact .inl rfl
  | advance k =>
    simp only [turn, advance]
    rcases hk : h.tasks[k]? with _ | ⟨i, p⟩
    · exact .inl rfl
    cases p with
    | queued => exact begin_acts hk src none
    | loaded o g => exact .inr (.commit hk now)
    | crashed => exact .inr (.discard hk)
    | discarded => exact .inr (.release hk)
    | committed found => exact .inr (.publish hk)
    | published => exact .inr (.signal hk)
    | finished => exact .inl rfl

theorem turns_work (h : Host) (src : Sources) (now : Instant) (ts : List Turn) :
    Relation.ReflTransGen (Work src) h (h.turns src now ts) := by
  induction ts generalizing h with
  | nil => exact .refl
  | cons tn ts ih =>
    change Relation.ReflTransGen (Work src) h ((h.turn src now tn).turns src now ts)
    rcases turn_work h src now tn with heq | hw
    · rw [heq]
      exact ih h
    · exact .head hw (ih _)

theorem turns_acts (h : Host) (now : Instant) (ts : List Turn) :
    Acts src ok h (h.turns src now ts) :=
  (turns_work h src now ts).lift id fun _ _ hw => .work hw

theorem textures_modifyTexture (h : Host) (i : Nat) (f : Texture → Texture) (j : Nat) :
    (h.modifyTexture i f).textures[j]? =
      if i = j then h.textures[j]?.map f else h.textures[j]? := by
  simp only [modifyTexture, List.getElem?_modify]
  split
  · rfl
  · exact Option.map_id' ..

/-- A texture after an action on textures. -/
theorem textures_of_modifyTexture {h : Host} {i j : Nat} {f : Texture → Texture} {t' : Texture}
    (ht' : (h.modifyTexture j f).textures[i]? = some t') :
    ∃ t, h.textures[i]? = some t ∧ (j = i ∧ t' = f t ∨ j ≠ i ∧ t' = t) := by
  rw [textures_modifyTexture] at ht'
  split at ht'
  next hji =>
    obtain ⟨t, ht, rfl⟩ := Option.map_eq_some_iff.mp ht'
    exact ⟨t, ht, .inl ⟨hji, rfl⟩⟩
  next hji => exact ⟨t', ht', .inr ⟨hji, rfl⟩⟩

theorem textures_of_createTexture {h : Host} {i : Nat} {now : Instant} {t : Texture}
    (ht : (h.createTexture now).1.textures[i]? = some t) :
    h.textures[i]? = some t ∨ t = .create now := by
  change (h.textures ++ [Texture.create now])[i]? = some t at ht
  rcases Nat.lt_or_ge i h.textures.length with hlt | hge
  · rw [List.getElem?_append_left hlt] at ht
    exact .inl ht
  · rw [List.getElem?_append_right hge] at ht
    right
    simpa using List.mem_of_getElem? ht

theorem tryJoin_acts (h : Host) (i : Nat) : Actions work ok h (h.tryJoin i).1 := by
  unfold tryJoin
  split
  · exact .refl
  next k hk =>
    split
    next hp =>
      obtain ⟨t, ht, htask⟩ := Option.bind_eq_some_iff.mp hk
      exact .single (.join ht htask hp)
    · exact .refl

/-- A texture without a task left to wait for. -/
theorem tryJoin_task {h : Host} {i : Nat} (hj : (h.tryJoin i).2 = true) {t : Texture}
    (ht : (h.tryJoin i).1.textures[i]? = some t) : t.task = none := by
  unfold tryJoin at hj ht
  split at hj
  next hnone =>
    simp only [hnone] at ht
    simpa [ht] using hnone
  next k hk =>
    simp only [hk] at ht
    split at hj
    next hp =>
      rw [if_pos hp, textures_modifyTexture, if_pos rfl] at ht
      obtain ⟨t', -, rfl⟩ := Option.map_eq_some_iff.mp ht
      rfl
    · cases hj

theorem touchCache_acts (h : Host) (i : Nat) (now : Instant) :
    Actions work ok h (h.touchCache i now) := by
  unfold touchCache
  split
  · exact .refl
  next e _ => exact .single (.touch h e now)

theorem checkPurged_acts (h : Host) (i : Nat) : Actions work ok h (h.checkPurged i) := by
  unfold checkPurged
  rcases ht : h.textures[i]? with _ | t
  · exact .refl
  simp only
  split
  next hp =>
    simp only [purgedElsewhere, Bool.and_eq_true, Option.isNone_iff_eq_none,
      decide_eq_true_eq] at hp
    exact .single (.revert ht hp.1.1 (.inl hp.1.2))
  · exact .refl

theorem settle_acts {h : Host} {i : Nat} (hnone : ∀ t, h.textures[i]? = some t → t.task = none)
    (now : Instant) : Actions work ok h (h.settle i now).1 := by
  unfold settle
  split
  · exact touchCache_acts h i now
  · exact touchCache_acts h i now
  next hs =>
    obtain ⟨t, ht, hstate⟩ := Option.map_eq_some_iff.mp hs
    exact .single (.revert ht (hnone t ht) (.inr hstate))
  · exact .refl

theorem pollPending_eq (h : Host) (i : Nat) (now : Instant) :
    h.pollPending i now =
      if (h.tryJoin i).2 then (h.tryJoin i).1.settle i now else ((h.tryJoin i).1, false) := by
  unfold pollPending
  rcases h.tryJoin i with ⟨h', _ | _⟩ <;> rfl

theorem pollPublished_eq (h : Host) (i : Nat) (now : Instant) :
    h.pollPublished i now =
      ((if (h.tryJoin i).2 then (h.tryJoin i).1.touchCache i now
        else (h.tryJoin i).1).modifyTexture i fun t => { t with lastUsed := now },
        (h.tryJoin i).2) := rfl

theorem purge_eq (h : Host) (i : Nat) (threshold : Instant) (held : Nat → Bool) :
    h.purge i threshold held =
      if (h.tryJoin i).2 then (h.tryJoin i).1.purgeActive i threshold held
      else (h.tryJoin i).1 := by
  unfold purge
  rcases h.tryJoin i with ⟨h', _ | _⟩ <;> rfl

theorem pollPending_acts (h : Host) (i : Nat) (now : Instant) :
    Actions work ok h (h.pollPending i now).1 := by
  have hacts : Actions work ok h (h.tryJoin i).1 := tryJoin_acts h i
  rw [pollPending_eq]
  split
  next hj => exact hacts.trans (settle_acts (fun t ht => tryJoin_task hj ht) now)
  · exact hacts

theorem pollPublished_acts (h : Host) (i : Nat) (now : Instant) :
    Actions work ok h (h.pollPublished i now).1 := by
  have hacts : Actions work ok h (h.tryJoin i).1 := tryJoin_acts h i
  rw [pollPublished_eq]
  refine Relation.ReflTransGen.tail ?_ (.use _ i now)
  split
  · exact hacts.trans (touchCache_acts _ i now)
  · exact hacts

theorem owned_iff {h : Host} {i : Nat} :
    h.owned i = true ↔ ∃ t, h.textures[i]? = some t ∧ t.ownership = .owned := by
  simp only [owned, Option.any_eq_true, decide_eq_true_eq]

theorem owned_checkPurged (h : Host) (i : Nat) : (h.checkPurged i).owned i = h.owned i := by
  unfold checkPurged
  rcases ht : h.textures[i]? with _ | t
  · rfl
  simp only
  split
  · rw [owned, owned, setState, textures_modifyTexture, if_pos rfl, ht]
    rfl
  · rfl

theorem poll_acts {h : Host} {i : Nat} (hown : h.owned i = true) (budget : Binary64)
    (now : Instant) (ts : List Turn) :
    Acts src ok h (h.poll i budget now fun h => h.turns src now ts).1 := by
  have hcheck : Acts src ok h (h.checkPurged i) := checkPurged_acts h i
  rw [← owned_checkPurged] at hown
  unfold poll
  generalize h.checkPurged i = h₁ at *
  simp only
  split
  · exact (hcheck.trans (turns_acts h₁ now ts)).trans (pollPublished_acts _ i now)
  · exact (hcheck.trans (turns_acts h₁ now ts)).trans (pollPublished_acts _ i now)
  · exact (hcheck.trans (turns_acts h₁ now ts)).trans (pollPending_acts _ i now)
  next hs =>
    have huse : Acts src ok h (h₁.modifyTexture i fun t => { t with lastUsed := now }) :=
      hcheck.tail (.use h₁ i now)
    split
    · exact huse
    · obtain ⟨t, ht, hstate⟩ := Option.map_eq_some_iff.mp hs
      obtain ⟨t', ht', howned⟩ := owned_iff.mp hown
      obtain rfl : t = t' := Option.some.inj (ht.symm.trans ht')
      have ht₂ : (h₁.modifyTexture i fun t => { t with lastUsed := now }).textures[i]? =
          some { t with lastUsed := now } := by
        rw [textures_modifyTexture, if_pos rfl, ht]
        rfl
      have hsubmit := huse.tail (.submit ht₂ hstate howned)
      exact (hsubmit.trans (turns_acts _ now ts)).trans (pollPending_acts _ i now)
  · exact hcheck

theorem purgeActive_acts {h : Host} {i : Nat}
    (hnone : ∀ t, h.textures[i]? = some t → t.task = none) (threshold : Instant)
    (held : Nat → Bool) : Actions work ok h (h.purgeActive i threshold held) := by
  unfold purgeActive
  rcases ht : h.textures[i]? with _ | t
  · exact .refl
  simp only
  split
  · exact .refl
  next hactive =>
    simp only [Bool.or_eq_true, decide_eq_true_eq, not_or, not_not] at hactive
    rcases t.data.cache with _ | e
    · exact .refl
    have hpurge : Actions work ok h _ := .single (.purge h e threshold (held e))
    simp only
    split
    · exact hpurge.tail (.revert ht (hnone t ht) (.inl hactive.2))
    · exact hpurge

theorem purge_acts (h : Host) (i : Nat) (threshold : Instant) (held : Nat → Bool) :
    Actions work ok h (h.purge i threshold held) := by
  have hacts : Actions work ok h (h.tryJoin i).1 := tryJoin_acts h i
  rw [purge_eq]
  split
  next hj => exact hacts.trans (purgeActive_acts (fun t ht => tryJoin_task hj ht) threshold held)
  · exact hacts

theorem finishDrop_acts (h : Host) (i : Nat) : Actions work ok h (h.finishDrop i) := by
  have hacts : Actions work ok h (h.tryJoin i).1 := tryJoin_acts h i
  unfold finishDrop
  rcases ht : h.textures[i]? with _ | t
  · exact .refl
  simp only
  split
  · exact .refl
  next hdrop =>
    obtain ⟨-, hdrop⟩ := by
      simpa only [Bool.or_eq_true, decide_eq_true_eq, not_or, Bool.not_eq_false] using hdrop
    have hlen : (h.tryJoin i).1.textures.length = h.textures.length := by
      unfold tryJoin
      split
      · rfl
      · split
        · exact List.length_modify ..
        · rfl
    obtain ⟨t', ht'⟩ : ∃ t', (h.tryJoin i).1.textures[i]? = some t' := by
      have hi := (List.getElem?_eq_some_iff.mp ht).1
      exact ⟨_, List.getElem?_eq_getElem (hlen ▸ hi)⟩
    have hleave := hacts.tail (.leave ht' (tryJoin_task hdrop ht'))
    split
    · exact hleave.tail (.note _ _)
    · exact hleave

/-- Whatever happens to a host is a chain of actions. -/
theorem step_acts (h : Host) (now : Instant) {e : HostEvent}
    (hok : ∀ i a, e = .populate i a → ok a) : Acts src ok h (h.step src now e) := by
  cases e with
  | createTexture => exact .single (.createTexture h now)
  | createEntry => exact .single (.createEntry h now)
  | populate i a =>
    simp only [step, populate]
    split
    · split
      next ha => exact .single (.attach (hok i a rfl) ha)
      · exact .refl
    · exact .refl
  | poll i budget ts =>
    simp only [step]
    split
    next hown => exact poll_acts hown budget now ts
    · exact .refl
  | turn t => exact turns_acts h now [t]
  | purge i threshold held =>
    simp only [step]
    split
    · exact purge_acts h i threshold _
    · exact .refl
  | beginDrop i => exact .single (.beginDrop h i)
  | beginDropDuringLoad k cut =>
    simp only [step, beginDropDuringLoad]
    split
    next i hk =>
      rcases begin_acts hk src (some cut) with heq | hw
      · rw [heq]
        exact .single (.beginDrop h i)
      · exact Relation.ReflTransGen.tail (.single (.work hw)) (.beginDrop _ i)
    · exact .refl
  | finishDrop i => exact finishDrop_acts h i
  | dropContext => exact .single (.dropContext h)

theorem run_acts (h : Host) {events : List (Instant × HostEvent)}
    (hok : ∀ now i a, (now, HostEvent.populate i a) ∈ events → ok a) :
    Acts src ok h (h.run src events) := by
  induction events generalizing h with
  | nil => exact .refl
  | cons e events ih =>
    obtain ⟨now, e⟩ := e
    have hstep : Acts src ok h (h.step src now e) :=
      step_acts h now fun i a he => hok now i a (he ▸ List.mem_cons_self ..)
    exact hstep.trans (ih _ fun now i a he => hok now i a (List.mem_cons_of_mem _ he))

/-- What actions preserve holds after every run. -/
theorem Actions.preserves {P : Host → Prop} (hstep : ∀ h h', Act work ok h h' → P h → P h')
    {h h' : Host} (hacts : Actions work ok h h') (hP : P h) : P h' := by
  induction hacts with
  | refl => exact hP
  | tail _ hact ih => exact hstep _ _ hact ih

/-- What the actions of tasks preserve holds after all turns of a wait. -/
theorem turns_preserves {P : Host → Prop} (hwork : ∀ h h', Work src h h' → P h → P h') {h : Host}
    (hP : P h) (now : Instant) (ts : List Turn) : P (h.turns src now ts) := by
  have hturns := turns_work h src now ts
  generalize h.turns src now ts = h' at hturns
  induction hturns with
  | refl => exact hP
  | tail _ hw ih => exact hwork _ _ hw ih

end TexturePack.Host
