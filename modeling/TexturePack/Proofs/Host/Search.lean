import Mathlib
import TexturePack.Proofs.Host.Loads
import TexturePack.Proofs.Host.Readiness

/-! The search for the levels of one texture, in a host that has no other. The owner polls and
tasks take their turns, in whatever order. The texture ends with what one load of its request
finds for an empty entry. -/
namespace TexturePack

open Progress (Quiet)

/-- The load of a request into an empty entry that nobody interrupts. -/
def Sources.search (src : Sources) (r : Request) : LoadRun := loadLevels src r none .empty

namespace TextureData

/-- The fields of a texture that waits for the levels of a request. -/
def asking (r : Request) : TextureData := empty.attach ⟨r, 0⟩

/-- The fields after a load of the request. A load that crashes leaves them as they are. -/
def found (src : Sources) (r : Request) : TextureData :=
  match (src.search r).outcome with
  | none => asking r
  | some o => (asking r).commit o 0 0

theorem found_of_crashed {src : Sources} {r : Request} (ho : (src.search r).outcome = none) :
    found src r = asking r := by
  rw [found, ho]

theorem found_of_loaded {src : Sources} {r : Request} {o : LoadOutcome}
    (ho : (src.search r).outcome = some o) : found src r = (asking r).commit o 0 0 := by
  rw [found, ho]

/-- Only a load lists levels. -/
theorem found_levels {src : Sources} {r : Request} (hne : (found src r).levels ≠ []) :
    ∃ o, (src.search r).outcome = some o ∧ found src r = (asking r).commit o 0 0 ∧
      o.levels ≠ [] := by
  rcases ho : (src.search r).outcome with _ | o
  · rw [found_of_crashed ho] at hne
    exact absurd rfl hne
  · rw [found_of_loaded ho] at hne
    exact ⟨o, rfl, found_of_loaded ho, hne⟩

end TextureData

/-- The state in which a search ends. -/
def Sources.verdict (src : Sources) (r : Request) : TextureState :=
  if (TextureData.found src r).levels.isEmpty then .notFound else .active

theorem Sources.verdict_cases (src : Sources) (r : Request) :
    src.verdict r = .active ∧ (TextureData.found src r).levels ≠ [] ∨
      src.verdict r = .notFound ∧ (TextureData.found src r).levels = [] := by
  unfold verdict
  split
  next h => exact .inr ⟨rfl, List.isEmpty_iff.mp h⟩
  next h => exact .inl ⟨rfl, fun hnil => h (List.isEmpty_iff.mpr hnil)⟩

theorem Sources.verdict_terminal (src : Sources) (r : Request) :
    (src.verdict r).terminal = true := by
  rcases src.verdict_cases r with ⟨hv, -⟩ | ⟨hv, -⟩ <;> rw [hv] <;> rfl

/-- The entry has some levels, and has never dropped bytes. -/
structure CacheEntry.Keeps (c : CacheEntry) (d : LevelData) : Prop where
  data : c.data = d
  generation : c.generation = 0

/-- How far a search has come: the state of the texture, how far the task behind its handle has
come, and the fields of the texture. -/
inductive Stage (src : Sources) (r : Request) (c : CacheEntry) :
    TextureState → Option Progress → TextureData → Prop
  | resting (hc : c.Keeps .empty) : Stage src r c .populated none (.asking r)
  | queued (hc : c.Keeps .empty) : Stage src r c .pending (some .queued) (.asking r)
  /-- The task has been thrown away, and the owner has not seen it yet. -/
  | lost {p : Option Progress} (hc : c.Keeps .empty) (hp : p = some .finished ∨ p = none) :
      Stage src r c .pending p (.asking r)
  | loaded {o : LoadOutcome} (ho : (src.search r).outcome = some o)
      (hc : c.Keeps (src.search r).entry) : Stage src r c .pending (some (.loaded o 0)) (.asking r)
  | crashed (ho : (src.search r).outcome = none) :
      Stage src r c .pending (some .crashed) (.asking r)
  | discarded (ho : (src.search r).outcome = none) :
      Stage src r c .pending (some .discarded) (.asking r)
  | committed (hc : (src.search r).outcome ≠ none → c.Keeps (src.search r).entry) :
      Stage src r c .pending (some (.committed (!(TextureData.found src r).levels.isEmpty)))
        (.found src r)
  | settled {p : Option Progress}
      (hc : (src.search r).outcome ≠ none → c.Keeps (src.search r).entry) (hp : Quiet p) :
      Stage src r c (src.verdict r) p (.found src r)

namespace Stage

variable {src : Sources} {r : Request} {c c' : CacheEntry} {s : TextureState}
  {p : Option Progress} {d : TextureData}

/-- A use of the entry does not matter. -/
theorem congr (hs : Stage src r c s p d) (hdata : c'.data = c.data)
    (hgeneration : c'.generation = c.generation) : Stage src r c' s p d := by
  have hkeeps {d : LevelData} (hc : c.Keeps d) : c'.Keeps d :=
    ⟨hdata.trans hc.data, hgeneration.trans hc.generation⟩
  cases hs with
  | resting hc => exact .resting (hkeeps hc)
  | queued hc => exact .queued (hkeeps hc)
  | lost hc hp => exact .lost (hkeeps hc) hp
  | loaded ho hc => exact .loaded ho (hkeeps hc)
  | crashed ho => exact .crashed ho
  | discarded ho => exact .discarded ho
  | committed hc => exact .committed fun ho => hkeeps (hc ho)
  | settled hc hp => exact .settled (fun ho => hkeeps (hc ho)) hp

theorem state_cases (hs : Stage src r c s p d) :
    s = .populated ∨ s = .pending ∨ s = .active ∨ s = .notFound := by
  cases hs with
  | resting => exact .inl rfl
  | queued | lost | loaded | crashed | discarded | committed => exact .inr (.inl rfl)
  | settled => exact .inr (.inr ((src.verdict_cases r).imp And.left And.left))

/-- A texture that is ready has all that the load has found. -/
theorem of_terminal (hs : Stage src r c s p d) (hterminal : s = .active ∨ s = .notFound) :
    s = src.verdict r ∧ d = .found src r ∧
      ((src.search r).outcome ≠ none → c.Keeps (src.search r).entry) ∧ Quiet p := by
  cases hs with
  | resting | queued | lost | loaded | crashed | discarded | committed => simp at hterminal
  | settled hc hp => exact ⟨rfl, rfl, hc, hp⟩

/-- The owner submits a task. -/
theorem submit (hs : Stage src r c .populated p d) : Stage src r c .pending (some .queued) d := by
  generalize hpopulated : TextureState.populated = s at hs
  cases hs with
  | resting hc => exact .queued hc
  | queued | lost | loaded | crashed | discarded | committed => cases hpopulated
  | settled =>
    have hterminal := src.verdict_terminal r
    rw [← hpopulated] at hterminal
    cases hterminal

/-- The owner lets go of a task that has ended. -/
theorem join (hs : Stage src r c s (some .finished) d) : Stage src r c s none d := by
  generalize hfinished : some Progress.finished = p at hs
  cases hs with
  | lost hc => exact .lost hc (.inr rfl)
  | settled hc => exact .settled hc (.inl rfl)
  | resting | queued | loaded | crashed | discarded | committed => cases hfinished

/-- A texture whose task was lost decodes again. -/
theorem revert (hs : Stage src r c .pending none d) : Stage src r c .populated none d := by
  generalize hpending : TextureState.pending = s at hs
  generalize hnone : (none : Option Progress) = p at hs
  cases hs with
  | lost hc =>
    rw [← hnone]
    exact .resting hc
  | settled =>
    have hterminal := src.verdict_terminal r
    rw [← hpending] at hterminal
    cases hterminal
  | resting => cases hpending
  | queued | loaded | crashed | discarded | committed => cases hnone

end Stage

/-- What happens while the owner of a texture waits for it: the texture is polled, and tasks take
turns. -/
inductive HostEvent.Awaits (i : Nat) : HostEvent → Prop
  | poll (budget : Binary64) (ts : List Turn) : Awaits i (.poll i budget ts)
  | turn (tn : Turn) : Awaits i (.turn tn)

namespace Host

variable {src : Sources} {r : Request} {h h' : Host} {t t' : Texture} {c c' : CacheEntry}
  {budget : Binary64} {now : Instant}

/-- A host with one texture and one entry, which searches for the levels of a request. Nobody
purges the entry or drops the texture, so the search can only go forward. -/
structure Searching (src : Sources) (r : Request) (h : Host) (t : Texture) (c : CacheEntry) :
    Prop where
  textures : h.textures = [t]
  entries : h.entries = [c]
  alive : h.contextAlive = true
  owned : t.ownership = .owned
  sound : h.Sound
  stage : Stage src r c t.state (h.heldProgress t) t.data

namespace Searching

theorem texture (hs : h.Searching src r t c) : h.textures[0]? = some t := by
  rw [hs.textures]
  rfl

theorem entry (hs : h.Searching src r t c) : h.entries[0]? = some c := by
  rw [hs.entries]
  rfl

end Searching

/-- A search whose task, known by its number, has come to some point. -/
structure SearchingAt (src : Sources) (r : Request) (h : Host) (t : Texture) (c : CacheEntry)
    (k : Nat) (p : Progress) : Prop extends h.Searching src r t c where
  handle : t.task = some k
  task : h.tasks[k]? = some ⟨0, p⟩

namespace SearchingAt

variable {k : Nat} {p q : Progress}

theorem heldProgress_eq (hs : h.SearchingAt src r t c k p) : h.heldProgress t = some p :=
  heldProgress_of_task hs.handle hs.task

theorem stage_at (hs : h.SearchingAt src r t c k p) : Stage src r c t.state (some p) t.data :=
  hs.heldProgress_eq ▸ hs.stage

/-- The task makes a step. -/
theorem next (hs : h.SearchingAt src r t c k q) (hw : Work src h h')
    (htasks : h'.tasks = h.tasks.modify k fun t => { t with progress := p })
    (htextures : h'.textures = [t']) (hentries : h'.entries = [c'])
    (ht' : t'.task = t.task ∧ t'.ownership = t.ownership)
    (hstage : Stage src r c' t'.state (some p) t'.data) : h'.SearchingAt src r t' c' k p := by
  have hhandle : t'.task = some k := ht'.1.trans hs.handle
  have htask : h'.tasks[k]? = some ⟨0, p⟩ := by
    rw [htasks, List.getElem?_modify_eq, hs.task]
    rfl
  have hp := heldProgress_of_task hhandle htask
  exact ⟨⟨htextures, hentries, hw.contextAlive_eq.trans hs.alive, ht'.2.trans hs.owned,
    hs.sound.work hw, hp ▸ hstage⟩, hhandle, htask⟩

theorem load (hs : h.SearchingAt src r t c k .queued) (hstate : t.state = .pending)
    (hdata : t.data = .asking r) (hc : c.Keeps .empty) :
    (h.load src k ⟨r, 0⟩ none).SearchingAt src r t { c with data := (src.search r).entry } k
      (landing (src.search r) 0) := by
  have hload := load_eq (a := ⟨r, 0⟩) hs.entry src k none
  have hrun : loadLevels src r none c.data = src.search r := by rw [hc.data, Sources.search]
  simp only [hrun, hc.generation] at hload
  have hw : Work src h (h.load src k ⟨r, 0⟩ none) :=
    .load hs.task hs.texture (by rw [hdata]; rfl) hs.entry none
  rw [hload] at hw ⊢
  refine hs.next hw rfl hs.textures ?_ ⟨rfl, rfl⟩ ?_
  · simp [setProgress, modifyEntry, hs.entries]
  · rw [hstate, hdata]
    unfold landing
    rcases ho : (src.search r).outcome with _ | o
    · exact .crashed ho
    · exact .loaded ho ⟨rfl, hc.generation⟩

theorem attachment (hs : h.SearchingAt src r t c k p) (hdata : t.data = .asking r) :
    (h.textures[0]?.bind fun t => t.data.attachment) = some ⟨r, 0⟩ := by
  rw [hs.texture, Option.bind_some, hdata]
  rfl

theorem commit {o : LoadOutcome} (hs : h.SearchingAt src r t c k (.loaded o 0))
    (hstate : t.state = .pending) (hdata : t.data = .asking r)
    (ho : (src.search r).outcome = some o) (hc : c.Keeps (src.search r).entry) :
    ((h.commit 0 o 0 now).setProgress k (.committed (!o.levels.isEmpty))).SearchingAt src r
      { t with data := .found src r } (c.touch now) k (.committed (!o.levels.isEmpty)) := by
  have hattached := hs.attachment hdata
  have hfound := TextureData.found_of_loaded ho
  have hlevels : o.levels = (TextureData.found src r).levels := by
    rw [hfound]
    rfl
  refine hs.next (.commit hs.task now) ?_ ?_ ?_ ⟨rfl, rfl⟩ ?_
  · rw [setProgress, commit_tasks]
  · simp [setProgress, commit_textures, hs.textures, Texture.take, hdata, hfound,
      TextureData.asking, TextureData.attach]
  · simp [setProgress, Host.commit, hattached, modifyData, modifyTexture, modifyEntry,
      hs.entries]
  · rw [hstate, hlevels]
    exact .committed fun _ => ⟨hc.data, hc.generation⟩

theorem discard (hs : h.SearchingAt src r t c k .crashed) (hstate : t.state = .pending)
    (hdata : t.data = .asking r) (ho : (src.search r).outcome = none) :
    ((h.discardEntry 0).setProgress k .discarded).SearchingAt src r t c.discard k .discarded := by
  refine hs.next (.discard hs.task) ?_ ?_ ?_ ⟨rfl, rfl⟩ ?_
  · rw [setProgress, discardEntry_tasks]
  · rw [setProgress, discardEntry_textures, hs.textures]
  · simp [setProgress, discardEntry, hs.attachment hdata, modifyEntry, hs.entries]
  · rw [hstate, hdata]
    exact .discarded ho

theorem release (hs : h.SearchingAt src r t c k .discarded) (hstate : t.state = .pending)
    (hdata : t.data = .asking r) (ho : (src.search r).outcome = none) :
    ((h.releaseLevels 0).setProgress k (.committed false)).SearchingAt src r t.release c k
      (.committed false) := by
  have hfound := TextureData.found_of_crashed ho
  refine hs.next (.release hs.task) ?_ ?_ ?_ ⟨rfl, rfl⟩ ?_
  · rw [setProgress, releaseLevels_tasks]
  · rw [setProgress, releaseLevels_textures, hs.textures]
    rfl
  · rw [setProgress, releaseLevels_entries, hs.entries]
  · have hrelease : t.release.data = .found src r := by
      rw [hfound, Texture.release, hdata]
      rfl
    have hnone : false = !(TextureData.found src r).levels.isEmpty := by
      rw [hfound]
      rfl
    have hstate' : t.release.state = .pending := hstate
    rw [hstate', hrelease, hnone]
    exact .committed fun hne => absurd ho hne

theorem publish {found : Bool} (hs : h.SearchingAt src r t c k (.committed found))
    (hstate : t.state = .pending) (hdata : t.data = .found src r)
    (hfound : found = !(TextureData.found src r).levels.isEmpty)
    (hc : (src.search r).outcome ≠ none → c.Keeps (src.search r).entry) :
    ((h.publish 0 found).setProgress k .published).SearchingAt src r (t.publish found) c k
      .published := by
  refine hs.next (.publish hs.task) rfl ?_ hs.entries ⟨rfl, rfl⟩ ?_
  · simp [setProgress, Host.publish, modifyTexture, hs.textures, Texture.publish]
  · have hverdict : (t.publish found).state = src.verdict r := by
      rw [Texture.publish, hstate, hfound, Sources.verdict, TextureState.publish]
      cases (TextureData.found src r).levels.isEmpty <;> rfl
    have hdata' : (t.publish found).data = .found src r := hdata
    rw [hverdict, hdata']
    exact .settled hc (.inr (.inl rfl))

theorem signal (hs : h.SearchingAt src r t c k .published) (hstate : t.state = src.verdict r)
    (hdata : t.data = .found src r)
    (hc : (src.search r).outcome ≠ none → c.Keeps (src.search r).entry) :
    (h.setProgress k .finished).SearchingAt src r t c k .finished := by
  refine hs.next (.signal hs.task) rfl hs.textures hs.entries ⟨rfl, rfl⟩ ?_
  rw [hstate, hdata]
  exact .settled hc (.inr (.inr rfl))

theorem lose (hs : h.SearchingAt src r t c k .queued) (hstate : t.state = .pending)
    (hdata : t.data = .asking r) (hc : c.Keeps .empty) :
    (h.setProgress k .finished).SearchingAt src r t c k .finished := by
  refine hs.next (.lose hs.task) rfl hs.textures hs.entries ⟨rfl, rfl⟩ ?_
  rw [hstate, hdata]
  exact .lost hc (.inl rfl)

/-- A task that goes on comes closer to its end, and does not end before it has published. -/
theorem advance (hs : h.SearchingAt src r t c k p) (hp : p ≠ .finished) (now : Instant) :
    ∃ t' c' p', (h.advance src now k).SearchingAt src r t' c' k p' ∧
      p'.remaining < p.remaining ∧ (p' = .finished → t'.state ≠ .pending) := by
  have hstage := hs.stage_at
  unfold Host.advance
  simp only [hs.task]
  generalize hstate : t.state = s at hstage
  generalize hdata : t.data = d at hstage
  cases hstage with
  | queued hc =>
    -- The texture does not go away, so nothing cuts its load short.
    have hbegin : h.begin src k 0 none = h.load src k ⟨r, 0⟩ none := by
      simp [Host.begin, hs.texture, hdata, TextureData.asking, TextureData.attach, cutFor, hstate]
    simp only [hbegin]
    refine ⟨_, _, _, hs.load hstate hdata hc, ?_⟩
    unfold landing
    split <;> simp [Progress.remaining]
  | loaded ho hc =>
    exact ⟨_, _, _, hs.commit hstate hdata ho hc, by simp [Progress.remaining], by simp⟩
  | crashed ho => exact ⟨_, _, _, hs.discard hstate hdata ho, by simp [Progress.remaining], by simp⟩
  | discarded ho =>
    exact ⟨_, _, _, hs.release hstate hdata ho, by simp [Progress.remaining], by simp⟩
  | committed hc =>
    exact ⟨_, _, _, hs.publish hstate hdata rfl hc, by simp [Progress.remaining], by simp⟩
  | settled hc hquiet =>
    obtain rfl : p = .published := by simpa [Quiet, hp] using hquiet
    refine ⟨_, _, _, hs.signal hstate hdata hc, by simp [Progress.remaining], fun _ hpending => ?_⟩
    have hterminal := src.verdict_terminal r
    rw [← hstate, hpending] at hterminal
    cases hterminal
  | lost hc hended => simp [hp] at hended

theorem advance_of_finished (hs : h.SearchingAt src r t c k .finished) (now : Instant) :
    h.advance src now k = h := by
  unfold Host.advance
  simp only [hs.task]

/-- A task that is left alone comes to its end, and has published. -/
theorem complete (hs : h.SearchingAt src r t c k p) (hp : p = .finished → t.state ≠ .pending)
    (now : Instant) {n : Nat} (hn : p.remaining ≤ n) :
    ∃ t' c', (h.turns src now (List.replicate n (.advance k))).SearchingAt src r t' c' k
      .finished ∧ t'.state ≠ .pending := by
  induction n generalizing h t c p with
  | zero =>
    obtain rfl : p = .finished := by cases p <;> simp [Progress.remaining] at hn ⊢
    exact ⟨t, c, hs, hp rfl⟩
  | succ n ih =>
    rw [List.replicate_succ]
    change ∃ t' c', ((h.advance src now k).turns src now _).SearchingAt src r t' c' k _ ∧ _
    by_cases hfinished : p = .finished
    · subst hfinished
      rw [hs.advance_of_finished]
      exact ih hs hp (Nat.zero_le n)
    · obtain ⟨t', c', p', hs', hlt, hp'⟩ := hs.advance hfinished now
      exact ih hs' hp' (by omega)

/-- A poll that waits for a task to publish and to end is ready. -/
theorem ready (hs : h.SearchingAt src r t c k .finished) (hstate : t.state ≠ .pending)
    (now : Instant) : (h.pollPending 0 now).2 = true ∧ (h.pollPublished 0 now).2 = true := by
  have hj := tryJoin_of_ended hs.texture (.inr hs.heldProgress_eq) hs.sound
  obtain ⟨ht, -, -⟩ := tryJoin_eq hs.texture hj
  have hstage := hs.stage_at
  rw [pollPending_eq, if_pos hj, pollPublished_eq]
  refine ⟨?_, hj⟩
  unfold settle
  rw [state?_eq ht]
  generalize t.state = s at *
  generalize t.data = d at hstage
  cases hstage with
  | lost => exact absurd rfl hstate
  | settled => rcases src.verdict_cases r with ⟨hv, -⟩ | ⟨hv, -⟩ <;> rw [hv]

end SearchingAt

namespace Searching

theorem of_task (hs : h.Searching src r t c) {k i : Nat} {p : Progress}
    (hk : h.tasks[k]? = some ⟨i, p⟩) (hp : p ≠ .finished) : h.SearchingAt src r t c k p := by
  obtain ⟨t', ht', htask⟩ := hs.sound.held k i p hk hp
  have hi : i = 0 := by
    have hlt := (List.getElem?_eq_some_iff.mp ht').1
    rw [hs.textures, List.length_singleton] at hlt
    omega
  subst hi
  obtain rfl := Option.some.inj (hs.texture.symm.trans ht')
  exact ⟨hs, htask, hk⟩

/-- Whatever task takes a turn, the search goes on. -/
theorem turn (hs : h.Searching src r t c) (now : Instant) (tn : Turn) :
    ∃ t' c', (h.turn src now tn).Searching src r t' c' := by
  cases tn with
  | advance k =>
    rcases hk : h.tasks[k]? with _ | ⟨i, p⟩
    · exact ⟨t, c, by simpa [Host.turn, Host.advance, hk] using hs⟩
    by_cases hp : p = .finished
    · exact ⟨t, c, by simpa [Host.turn, Host.advance, hk, hp] using hs⟩
    · obtain ⟨t', c', p', hs', -⟩ := (hs.of_task hk hp).advance hp now
      exact ⟨t', c', hs'.toSearching⟩
  | lose k =>
    simp only [Host.turn, Host.lose]
    split
    next hqueued =>
      obtain ⟨⟨i, p⟩, hk, rfl⟩ := Option.map_eq_some_iff.mp hqueued
      have hat := hs.of_task hk (by simp)
      have hstage := hat.stage_at
      generalize hstate : t.state = s at hstage
      generalize hdata : t.data = d at hstage
      cases hstage with
      | queued hc => exact ⟨_, _, (hat.lose hstate hdata hc).toSearching⟩
      | lost hc hended => simp at hended
      | settled hc hquiet => simp [Quiet] at hquiet
    · exact ⟨t, c, hs⟩

theorem turns (hs : h.Searching src r t c) (now : Instant) (ts : List Turn) :
    ∃ t' c', (h.turns src now ts).Searching src r t' c' := by
  induction ts generalizing h t c with
  | nil => exact ⟨t, c, hs⟩
  | cons tn ts ih =>
    obtain ⟨t', c', hs'⟩ := hs.turn now tn
    exact ih hs'

theorem use (hs : h.Searching src r t c) (now : Instant) :
    (h.modifyTexture 0 fun t => { t with lastUsed := now }).Searching src r
      { t with lastUsed := now } c where
  textures := by simp [modifyTexture, hs.textures]
  entries := hs.entries
  alive := hs.alive
  owned := hs.owned
  sound := hs.sound.use 0 now
  stage := hs.stage

theorem touchCache (hs : h.Searching src r t c) (now : Instant) :
    ∃ c', (h.touchCache 0 now).Searching src r t c' := by
  unfold Host.touchCache
  split
  · exact ⟨c, hs⟩
  next e _ =>
    have hstage : Stage src r (c.touch now) t.state (h.heldProgress t) t.data :=
      hs.stage.congr rfl rfl
    have hsound : (h.modifyEntry e fun c => c.touch now).Sound := hs.sound.congr rfl rfl
    rcases e with _ | e
    · exact ⟨c.touch now, hs.textures, by simp [modifyEntry, hs.entries], hs.alive, hs.owned,
        hsound, hstage⟩
    · exact ⟨c, hs.textures, by simp [modifyEntry, hs.entries], hs.alive, hs.owned, hsound,
        hs.stage⟩

theorem submit (hs : h.Searching src r t c) (hstate : t.state = .populated) :
    (h.startDecode 0).Searching src r
      { t with state := .pending, task := some h.tasks.length } c := by
  have hsound := hs.sound.submit hs.texture hstate hs.owned
  have hstage := hs.stage
  rw [hstate] at hstage
  have halive : h.filesAlive = true := by rw [filesAlive, hs.alive, Bool.true_or]
  rw [startDecode_eq, if_pos halive] at hsound ⊢
  refine ⟨?_, hs.entries, hs.alive, hs.owned, hsound, ?_⟩
  · simp [enqueue, modifyTexture, hs.textures]
  · rw [heldProgress_enqueue]
    exact hstage.submit

theorem tryJoin (hs : h.Searching src r t c) :
    ∃ t', (h.tryJoin 0).1.Searching src r t' c ∧ ((h.tryJoin 0).2 = true → t'.task = none) := by
  have hsound : (h.tryJoin 0).1.Sound :=
    hs.sound.acts (tryJoin_acts h 0 : Acts src (fun _ => True) _ _)
  unfold Host.tryJoin at hsound ⊢
  rw [hs.texture, Option.bind_some] at hsound ⊢
  rcases htask : t.task with _ | k
  · exact ⟨t, hs, fun _ => htask⟩
  simp only [htask] at hsound ⊢
  split
  next hp =>
    rw [if_pos hp] at hsound
    refine ⟨{ t with task := none }, ⟨?_, hs.entries, hs.alive, hs.owned, hsound, ?_⟩, fun _ => rfl⟩
    · simp [modifyTexture, hs.textures]
    · have hstage := hs.stage
      rw [heldProgress, htask, Option.bind_some, hp] at hstage
      exact hstage.join
  · exact ⟨t, hs, by simp⟩

theorem revert (hs : h.Searching src r t c) (hstate : t.state = .pending)
    (htask : t.task = none) :
    (h.setState 0 .populated).Searching src r { t with state := .populated } c where
  textures := by simp [setState, modifyTexture, hs.textures]
  entries := hs.entries
  alive := hs.alive
  owned := hs.owned
  sound := hs.sound.revert hs.texture htask (.inr hstate)
  stage := by
    have hstage := hs.stage
    rw [hstate, heldProgress_of_idle htask] at hstage
    rw [heldProgress_of_idle
      (show ({ t with state := .populated } : Texture).task = none from htask)]
    exact hstage.revert

theorem settle (hs : h.Searching src r t c) (htask : t.task = none) (now : Instant) :
    ∃ t' c', (h.settle 0 now).1.Searching src r t' c' := by
  unfold Host.settle
  rw [state?_eq hs.texture]
  rcases hs.stage.state_cases with hstate | hstate | hstate | hstate <;> rw [hstate]
  · exact ⟨t, c, hs⟩
  · exact ⟨_, c, hs.revert hstate htask⟩
  · exact ⟨t, hs.touchCache now⟩
  · exact ⟨t, hs.touchCache now⟩

theorem pollPending (hs : h.Searching src r t c) (now : Instant) :
    ∃ t' c', (h.pollPending 0 now).1.Searching src r t' c' := by
  obtain ⟨t', hjoin, htask⟩ := hs.tryJoin
  rw [pollPending_eq]
  split
  next hj => exact hjoin.settle (htask hj) now
  · exact ⟨t', c, hjoin⟩

theorem pollPublished (hs : h.Searching src r t c) (now : Instant) :
    ∃ t' c', (h.pollPublished 0 now).1.Searching src r t' c' := by
  obtain ⟨t', hjoin, -⟩ := hs.tryJoin
  rw [pollPublished_eq]
  split
  · obtain ⟨c', htouch⟩ := hjoin.touchCache now
    exact ⟨_, c', htouch.use now⟩
  · exact ⟨_, c, hjoin.use now⟩

/-- Nobody purges the entry of a search. -/
theorem checkPurged (hs : h.Searching src r t c) : h.checkPurged 0 = h := by
  have hkept : h.purgedElsewhere t = false := by
    by_contra hpurged
    simp only [purgedElsewhere, Bool.not_eq_false, Bool.and_eq_true, decide_eq_true_eq] at hpurged
    obtain ⟨⟨-, hactive⟩, hcache⟩ := hpurged
    obtain ⟨hverdict, hdata, hc, -⟩ := hs.stage.of_terminal (.inl hactive)
    rcases src.verdict_cases r with ⟨-, hlevels⟩ | ⟨hnone, -⟩
    · obtain ⟨o, ho, hfound, hne⟩ := TextureData.found_levels hlevels
      have hgeneration : h.generation? 0 = some 0 := by
        rw [generation?, hs.entry, Option.map_some, (hc (by simp [ho])).generation]
      simp [hdata, hfound, TextureData.commit, hne, hgeneration] at hcache
    · rw [hactive, hnone] at hverdict
      cases hverdict
  unfold Host.checkPurged
  rw [hs.texture]
  simp only [hkept, Bool.false_eq_true, if_false]

theorem waiting (hs : h.Searching src r t c) {budget : Binary64}
    (hw : h.waiting? 0 budget now = some h') : ∃ t', h'.Searching src r t' c := by
  unfold waiting? at hw
  rw [hs.checkPurged, state?_eq hs.texture] at hw
  rcases hs.stage.state_cases with hstate | hstate | hstate | hstate <;>
    simp only [hstate] at hw
  · split at hw
    · cases hw
    · cases hw
      exact ⟨_, (hs.use now).submit hstate⟩
  · cases hw
    exact ⟨t, hs⟩
  · cases hw
    exact ⟨t, hs⟩
  · cases hw
    exact ⟨t, hs⟩

/-- A search goes on through a poll, whatever turns tasks take meanwhile. -/
theorem poll (hs : h.Searching src r t c) (budget : Binary64) (now : Instant) (ts : List Turn) :
    ∃ t' c', (h.poll 0 budget now fun h => h.turns src now ts).1.Searching src r t' c' := by
  rcases hw : h.waiting? 0 budget now with _ | h₁
  · obtain ⟨-, hpoll | hpoll⟩ := poll_of_not_waiting hw fun h => h.turns src now ts
    · rw [hpoll, hs.checkPurged]
      exact ⟨t, c, hs⟩
    · rw [hpoll, hs.checkPurged]
      exact ⟨_, c, hs.use now⟩
  · obtain ⟨t₁, hs₁⟩ := hs.waiting hw
    obtain ⟨t₂, c₂, hs₂⟩ := hs₁.turns now ts
    rcases poll_of_waiting hw fun h => h.turns src now ts with hpoll | hpoll <;> rw [hpoll]
    · exact hs₂.pollPublished now
    · exact hs₂.pollPending now

theorem step (hs : h.Searching src r t c) (now : Instant) {e : HostEvent} (he : e.Awaits 0) :
    ∃ t' c', (h.step src now e).Searching src r t' c' := by
  cases he with
  | poll budget ts =>
    simp only [Host.step]
    split
    · exact hs.poll budget now ts
    · exact ⟨t, c, hs⟩
  | turn tn => exact hs.turn now tn

theorem run (hs : h.Searching src r t c) {events : List (Instant × HostEvent)}
    (hevents : ∀ e ∈ events, e.2.Awaits 0) :
    ∃ t' c', (h.run src events).Searching src r t' c' := by
  induction events generalizing h t c with
  | nil => exact ⟨t, c, hs⟩
  | cons e events ih =>
    obtain ⟨t', c', hs'⟩ := hs.step e.1 (hevents e (List.mem_cons_self ..))
    exact ih hs' fun e he => hevents e (List.mem_cons_of_mem _ he)

end Searching

/-- What is known of the texture of a search that has come to its end. -/
structure Settled (src : Sources) (r : Request) (h : Host) (t : Texture) (c : CacheEntry) :
    Prop where
  texture : h.textures[0]? = some t
  entry : h.entries[0]? = some c
  state : t.state = src.verdict r
  data : t.data = .found src r
  levels : (src.search r).outcome ≠ none → c.data = (src.search r).entry

/-- When the owner sees the texture ready, the search has come to its end. -/
theorem Searching.settled (hs : h.Searching src r t c) {ts : List Turn}
    (hready : (h.poll 0 budget now fun h => h.turns src now ts).2 = true) :
    ∃ t' c', (h.poll 0 budget now fun h => h.turns src now ts).1.Settled src r t' c' := by
  obtain ⟨t', c', hs'⟩ := hs.poll budget now ts
  obtain ⟨t'', ht'', hterminal, -⟩ := poll_ready hs.sound hready
  obtain rfl := Option.some.inj (hs'.texture.symm.trans ht'')
  obtain ⟨hstate, hdata, hc, -⟩ := hs'.stage.of_terminal hterminal
  exact ⟨t', c', hs'.texture, hs'.entry, hstate, hdata, fun ho => (hc ho).data⟩

/-- A host whose one texture has been given a request. -/
def asked (r : Request) (now : Instant) : Host :=
  let (h, e) := start.createEntry now
  let (h, i) := h.createTexture now
  (h.populate i ⟨r, e⟩).1

theorem searching_asked (src : Sources) (r : Request) (now : Instant) :
    (asked r now).Searching src r ((Texture.create now).attach ⟨r, 0⟩) (.create now) where
  textures := rfl
  entries := rfl
  alive := rfl
  owned := rfl
  sound := sound_run src [(now, .createEntry), (now, .createTexture), (now, .populate 0 ⟨r, 0⟩)]
  stage := .resting ⟨rfl, rfl⟩

end Host
end TexturePack
