import Mathlib
import TexturePack.Proofs.Host.Loads
import TexturePack.Proofs.Host.Readiness
import TexturePack.Proofs.Load.Ledger
import TexturePack.Proofs.Load.Reload

/-! Where file references are while a host runs. A reference that has been handed out is kept by
a texture, on its way there from a load, given back, or lost to a load that crashed. -/
namespace TexturePack

open FileEvent

/-- The references that a texture keeps, until it has gone away. -/
def Texture.files (t : Texture) : Multiset FileReference :=
  if t.ownership = .dropped then 0 else filesOf t.data.levels

/-- The references on their way to a texture. -/
def Progress.files : Progress → Multiset FileReference
  | .loaded o _ => filesOf o.levels
  | _ => 0

theorem sum_map_modify {α β : Type} [AddCommMonoid β] (g : α → β) (f : α → α) {l : List α} {i : Nat}
    {a : α} (ha : l[i]? = some a) :
    ((l.modify i f).map g).sum + g a = (l.map g).sum + g (f a) := by
  induction l generalizing i with
  | nil => simp at ha
  | cons b l ih =>
    rcases i with _ | i
    · rw [List.getElem?_cons_zero, Option.some.injEq] at ha
      subst ha
      rw [List.modify_zero_cons, List.map_cons, List.map_cons, List.sum_cons, List.sum_cons]
      abel
    · rw [List.modify_succ_cons, List.map_cons, List.map_cons, List.sum_cons, List.sum_cons,
        add_assoc, ih ha, add_assoc]

namespace Host

variable {src : Sources} {h h' h'' : Host} {lost : Multiset FileReference} {now : Instant}

def stored (h : Host) : Multiset FileReference := (h.textures.map Texture.files).sum

def carried (h : Host) : Multiset FileReference := (h.tasks.map fun k => k.progress.files).sum

/-- All references are where they were. -/
structure Unmoved (h h' : Host) : Prop where
  alive : h'.contextAlive = h.contextAlive
  events : h'.events = h.events
  stored : h'.stored = h.stored
  carried : h'.carried = h.carried

theorem unmoved_rfl : h.Unmoved h := ⟨rfl, rfl, rfl, rfl⟩

theorem Unmoved.trans (hu : h.Unmoved h') (hu' : h'.Unmoved h'') : h.Unmoved h'' :=
  ⟨hu'.alive.trans hu.alive, hu'.events.trans hu.events, hu'.stored.trans hu.stored,
    hu'.carried.trans hu.carried⟩

theorem unmoved_modifyTexture (h : Host) (i : Nat) {f : Texture → Texture}
    (hf : ∀ t, (f t).files = t.files) : h.Unmoved (h.modifyTexture i f) := by
  refine ⟨rfl, rfl, ?_, rfl⟩
  rcases ht : h.textures[i]? with _ | t
  · rw [stored, modifyTexture, List.modify_eq_self (List.getElem?_eq_none_iff.mp ht)]
    rfl
  · have hsum := sum_map_modify Texture.files f ht
    rw [hf] at hsum
    exact add_right_cancel hsum

theorem unmoved_setState (h : Host) (i : Nat) (s : TextureState) : h.Unmoved (h.setState i s) :=
  unmoved_modifyTexture h i fun _ => rfl

theorem unmoved_modifyEntry (h : Host) (e : Nat) (f : CacheEntry → CacheEntry) :
    h.Unmoved (h.modifyEntry e f) := ⟨rfl, rfl, rfl, rfl⟩

theorem unmoved_checkPurged (h : Host) (i : Nat) : h.Unmoved (h.checkPurged i) := by
  unfold checkPurged
  split
  · exact unmoved_rfl
  · split
    · exact unmoved_setState h i _
    · exact unmoved_rfl

theorem unmoved_tryJoin (h : Host) (i : Nat) : h.Unmoved (h.tryJoin i).1 := by
  unfold tryJoin
  split
  · exact unmoved_rfl
  · split
    · exact unmoved_modifyTexture h i fun _ => rfl
    · exact unmoved_rfl

theorem unmoved_touchCache (h : Host) (i : Nat) (now : Instant) :
    h.Unmoved (h.touchCache i now) := by
  unfold touchCache
  split
  · exact unmoved_rfl
  · exact unmoved_modifyEntry h _ _

theorem unmoved_settle (h : Host) (i : Nat) (now : Instant) : h.Unmoved (h.settle i now).1 := by
  unfold settle
  split
  · exact unmoved_touchCache h i now
  · exact unmoved_touchCache h i now
  · exact unmoved_setState h i _
  · exact unmoved_rfl

theorem unmoved_pollPending (h : Host) (i : Nat) (now : Instant) :
    h.Unmoved (h.pollPending i now).1 := by
  rw [pollPending_eq]
  split
  · exact (unmoved_tryJoin h i).trans (unmoved_settle _ i now)
  · exact unmoved_tryJoin h i

theorem unmoved_pollPublished (h : Host) (i : Nat) (now : Instant) :
    h.Unmoved (h.pollPublished i now).1 := by
  rw [pollPublished_eq]
  refine Unmoved.trans ?_ (unmoved_modifyTexture _ i fun _ => rfl)
  split
  · exact (unmoved_tryJoin h i).trans (unmoved_touchCache _ i now)
  · exact unmoved_tryJoin h i

theorem unmoved_enqueue (h : Host) (i : Nat) : h.Unmoved (h.enqueue i) := by
  have htask : h.Unmoved { h with tasks := h.tasks ++ [⟨i, .queued⟩] } := by
    refine ⟨rfl, rfl, rfl, ?_⟩
    simp [carried, Progress.files]
  exact htask.trans (unmoved_modifyTexture _ i fun _ => rfl)

theorem unmoved_startDecode (h : Host) (i : Nat) : h.Unmoved (h.startDecode i) := by
  rw [startDecode_eq]
  split
  · exact unmoved_enqueue h i
  · exact unmoved_setState h i _

theorem unmoved_purge (h : Host) (i : Nat) (threshold : Instant) (held : Nat → Bool) :
    h.Unmoved (h.purge i threshold held) := by
  rw [purge_eq]
  split
  case isFalse => exact unmoved_tryJoin h i
  refine (unmoved_tryJoin h i).trans ?_
  generalize (h.tryJoin i).1 = h₁
  unfold purgeActive
  split
  · exact unmoved_rfl
  split
  · exact unmoved_rfl
  split
  · exact unmoved_rfl
  next e _ =>
    simp only
    split
    · exact (unmoved_modifyEntry h₁ e _).trans (unmoved_setState _ i _)
    · exact unmoved_modifyEntry h₁ e _

theorem unmoved_beginDrop (h : Host) (i : Nat) : h.Unmoved (h.beginDrop i) := by
  apply unmoved_modifyTexture
  intro t
  unfold Texture.beginDrop
  split
  · rfl
  next hown =>
    have hne : t.ownership ≠ .dropped := by
      rw [not_not.mp hown]
      exact Ownership.noConfusion
    simp [Texture.files, hne]

theorem unmoved_waiting {i : Nat} {budget : Binary64}
    (hw : h.waiting? i budget now = some h') : h.Unmoved h' := by
  have hcheck := unmoved_checkPurged h i
  unfold waiting? at hw
  generalize h.checkPurged i = h₂ at *
  split at hw
  · cases hw
    exact hcheck
  · cases hw
    exact hcheck
  · cases hw
    exact hcheck
  · split at hw
    · cases hw
    · cases hw
      have huse : h₂.Unmoved (h₂.modifyTexture i fun t => { t with lastUsed := now }) :=
        unmoved_modifyTexture h₂ i fun _ => rfl
      exact (hcheck.trans huse).trans (unmoved_startDecode _ i)
  · cases hw

theorem unmoved_setProgress {k i : Nat} {p q : Progress} (hk : h.tasks[k]? = some ⟨i, p⟩)
    (hpq : p.files = q.files) : h.Unmoved (h.setProgress k q) := by
  refine ⟨rfl, rfl, rfl, ?_⟩
  have hsum := sum_map_modify (fun k : DecodeTask => k.progress.files)
    (fun t => { t with progress := q }) hk
  simp only [hpq] at hsum
  exact add_right_cancel hsum

/-- The references that loads have lost. -/
def lostIn (src : Sources) (loads : List LoadRun) : Multiset FileReference :=
  (loads.map fun run => run.lost src.files).sum

@[simp] theorem lostIn_nil (src : Sources) : lostIn src [] = 0 := rfl

@[simp] theorem lostIn_singleton (src : Sources) (run : LoadRun) :
    lostIn src [run] = run.lost src.files := by
  simp [lostIn]

@[simp] theorem lostIn_append (src : Sources) (loads loads' : List LoadRun) :
    lostIn src (loads ++ loads') = lostIn src loads + lostIn src loads' := by
  simp [lostIn]

/-- Every reference is accounted for, where `lost` ones are with nobody. -/
structure Accounted (src : Sources) (lost : Multiset FileReference) (h : Host) : Prop where
  alive : h.contextAlive = true
  ledger : Ledger src.files h.events (h.stored + h.carried + lost)

theorem accounted_start (src : Sources) : start.Accounted src 0 := ⟨rfl, ledger_nil src.files⟩

namespace Accounted

theorem unmoved (ha : h.Accounted src lost) (hu : h.Unmoved h') : h'.Accounted src lost where
  alive := hu.alive.trans ha.alive
  ledger := by
    rw [hu.events, hu.stored, hu.carried]
    exact ha.ledger

/-- Levels whose references are given back leave their place. -/
theorem released (ha : h.Accounted src lost) (levels : List LevelRecord)
    (halive : h'.contextAlive = h.contextAlive)
    (hevents : h'.events = h.events ++ FileEvent.releasing levels)
    (hmoved : h'.stored + h'.carried + filesOf levels = h.stored + h.carried) :
    h'.Accounted src lost where
  alive := halive.trans ha.alive
  ledger := by
    rw [hevents]
    apply Ledger.releasing
    have heq : h'.stored + h'.carried + lost + filesOf levels = h.stored + h.carried + lost := by
      rw [← hmoved]
      abel
    rw [heq]
    exact ha.ledger

/-- A load passes its references on to its task, or loses them. -/
theorem load (ha : h.Accounted src lost) {k i : Nat} (hk : h.tasks[k]? = some ⟨i, .queued⟩)
    {a : Attachment} {e : CacheEntry} (he : h.entries[a.entry]? = some e) (cut : Option Nat) :
    (h.load src k a cut).Accounted src
      (lost + (loadLevels src a.request cut e.data).lost src.files) := by
  unfold Host.load
  simp only [he]
  have hrun := ledger_loadLevels src a.request cut e.data
  generalize loadLevels src a.request cut e.data = run at *
  rcases hrun with ⟨o, ho, hledger, hlost⟩ | ⟨ho, hledger, -⟩
  · have hsum := sum_map_modify (fun k : DecodeTask => k.progress.files)
      (fun t => { t with progress := .loaded o e.generation }) hk
    simp only [ho, hlost, add_zero]
    refine ⟨ha.alive, ?_⟩
    have hboth := ha.ledger.append hledger
    change Ledger src.files (h.events ++ run.events) (h.stored + _ + lost)
    change _ + 0 = h.carried + filesOf o.levels at hsum
    rw [add_zero] at hsum
    have hmoved : h.stored + h.carried + lost + filesOf o.levels =
        h.stored + (h.carried + filesOf o.levels) + lost := by
      abel
    rw [hmoved, ← hsum] at hboth
    exact hboth
  · have hsum := sum_map_modify (fun k : DecodeTask => k.progress.files)
      (fun t => { t with progress := .crashed }) hk
    simp only [ho]
    refine ⟨ha.alive, ?_⟩
    have hboth := ha.ledger.append hledger
    change Ledger src.files (h.events ++ run.events) (h.stored + _ + (lost + run.lost src.files))
    change _ + 0 = h.carried + 0 at hsum
    rw [add_zero, add_zero] at hsum
    rw [add_assoc, ← hsum] at hboth
    exact hboth

theorem begin (ha : h.Accounted src lost) {k i : Nat} (hk : h.tasks[k]? = some ⟨i, .queued⟩)
    (cut : Option Nat) :
    (h.begin src k i cut).Accounted src (lost + lostIn src (h.beginLoads src i cut)) := by
  unfold Host.begin beginLoads
  rcases ht : h.textures[i]? with _ | t
  · simpa using ha
  rcases hattached : t.data.attachment with _ | a
  · simp only [hattached, lostIn_nil, add_zero]
    exact ha.unmoved (unmoved_setProgress hk rfl)
  simp only [hattached]
  rcases he : h.entries[a.entry]? with _ | e
  · simp only [Host.load, he, lostIn_nil, add_zero]
    exact ha
  · simp only [lostIn_singleton]
    exact ha.load hk he _

/-- The levels of a load replace those of its texture, which are given back. -/
theorem commit (ha : h.Accounted src lost) (hs : h.Sound) {k i : Nat} {o : LoadOutcome} {g : Nat}
    (hk : h.tasks[k]? = some ⟨i, .loaded o g⟩) (now : Instant) (found : Bool) :
    ((h.commit i o g now).setProgress k (.committed found)).Accounted src lost := by
  obtain ⟨t, ht, htask⟩ := hs.held k i _ hk (by simp)
  have hsound := hs.texture i t ht
  rw [heldProgress_of_task htask hk] at hsound
  have hne : t.ownership ≠ .dropped := by
    intro hdropped
    rw [hsound.dropped hdropped] at htask
    cases htask
  obtain ⟨a, hattached⟩ : ∃ a, t.data.attachment = some a := by
    rw [← Option.isSome_iff_exists]
    apply hsound.attached
    rcases underway hsound (by simp [htask]) (by simp) (by simp) with hstate | hstate <;>
      simp [hstate]
  have hevents : (h.commit i o g now).events = h.events ++ FileEvent.releasing t.data.levels := by
    unfold Host.commit
    rw [ht, Option.bind_some, hattached]
    have hentry : (h.modifyEntry a.entry fun e => e.touch now).textures[i]? = some t := ht
    simp only [releaseLevels, hentry]
    rfl
  have htaken : (Texture.take o g t).files = filesOf o.levels := by
    simp [Texture.take, hattached, Texture.files, hne, TextureData.commit]
  have hkept : t.files = filesOf t.data.levels := if_neg hne
  have hstored := sum_map_modify Texture.files (Texture.take o g) ht
  rw [← commit_textures h i o g now, htaken, hkept] at hstored
  have hk' : (h.commit i o g now).tasks[k]? = some ⟨i, .loaded o g⟩ := by
    rw [commit_tasks, hk]
  have hcarried := sum_map_modify (fun k : DecodeTask => k.progress.files)
    (fun t => { t with progress := .committed found }) hk'
  refine ha.released t.data.levels (commit_contextAlive ..) hevents ?_
  change (h.commit i o g now).stored + _ + filesOf t.data.levels = h.stored + h.carried
  change _ + filesOf o.levels = (h.commit i o g now).carried + 0 at hcarried
  change (h.commit i o g now).stored + _ = h.stored + _ at hstored
  have htasks : (h.commit i o g now).carried = h.carried := by
    rw [carried, commit_tasks]
    rfl
  rw [add_zero, htasks] at hcarried
  rw [← hcarried, add_right_comm, hstored]
  abel

/-- A texture whose load has crashed gives its old levels back. -/
theorem release (ha : h.Accounted src lost) (hs : h.Sound) {k i : Nat}
    (hk : h.tasks[k]? = some ⟨i, .discarded⟩) :
    ((h.releaseLevels i).setProgress k (.committed false)).Accounted src lost := by
  obtain ⟨t, ht, htask⟩ := hs.held k i _ hk (by simp)
  have hne : t.ownership ≠ .dropped := by
    intro hdropped
    rw [(hs.texture i t ht).dropped hdropped] at htask
    cases htask
  have hkept : t.files = filesOf t.data.levels := if_neg hne
  have hempty : (Texture.release t).files = 0 := by
    rw [Texture.files]
    exact ite_self 0
  have hstored := sum_map_modify Texture.files Texture.release ht
  rw [← releaseLevels_textures h i, hempty, hkept, add_zero] at hstored
  have hlevels : (h.releaseLevels i).Accounted src lost := by
    refine ha.released t.data.levels ?_ ?_ ?_
    · simp only [releaseLevels, ht]
      rfl
    · simp only [releaseLevels, ht]
      rfl
    · have hcarried : (h.releaseLevels i).carried = h.carried := by
        rw [carried, releaseLevels_tasks]
        rfl
      change (h.releaseLevels i).stored + filesOf t.data.levels = h.stored at hstored
      rw [hcarried, add_right_comm, hstored]
  have hk' : (h.releaseLevels i).tasks[k]? = some ⟨i, .discarded⟩ := by
    rw [releaseLevels_tasks, hk]
  exact hlevels.unmoved (unmoved_setProgress hk' rfl)

theorem turn (ha : h.Accounted src lost) (hs : h.Sound) (now : Instant) (tn : Turn) :
    (h.turn src now tn).Accounted src (lost + lostIn src (h.turnLoads src tn)) := by
  cases tn with
  | lose k =>
    simp only [Host.turn, Host.lose, turnLoads, lostIn_nil, add_zero]
    split
    next hp =>
      simp only [progress?, Option.map_eq_some_iff] at hp
      obtain ⟨⟨i, p⟩, hk, rfl⟩ := hp
      exact ha.unmoved (unmoved_setProgress hk rfl)
    · exact ha
  | advance k =>
    simp only [Host.turn, Host.advance, turnLoads]
    rcases hk : h.tasks[k]? with _ | ⟨i, p⟩
    · simpa using ha
    cases p with
    | queued => exact ha.begin hk none
    | loaded o g =>
      simp only [lostIn_nil, add_zero]
      exact ha.commit hs hk now _
    | crashed =>
      simp only [lostIn_nil, add_zero]
      have hk' : (h.discardEntry i).tasks[k]? = some ⟨i, .crashed⟩ := by
        rw [discardEntry_tasks, hk]
      have hdiscard : h.Unmoved (h.discardEntry i) := by
        unfold discardEntry
        split
        · exact unmoved_rfl
        · exact unmoved_modifyEntry h _ _
      exact ha.unmoved (hdiscard.trans (unmoved_setProgress hk' rfl))
    | discarded =>
      simp only [lostIn_nil, add_zero]
      exact ha.release hs hk
    | committed found =>
      simp only [lostIn_nil, add_zero]
      have hpublish : h.Unmoved (h.publish i found) := unmoved_modifyTexture h i fun _ => rfl
      exact ha.unmoved (hpublish.trans (unmoved_setProgress hk rfl))
    | published =>
      simp only [lostIn_nil, add_zero]
      exact ha.unmoved (unmoved_setProgress hk rfl)
    | finished => simpa using ha

theorem turns (ha : h.Accounted src lost) (hs : h.Sound) (now : Instant) (ts : List Turn) :
    (h.turns src now ts).Accounted src (lost + lostIn src (h.turnsLoads src now ts)) := by
  induction ts generalizing h lost with
  | nil =>
    rw [turnsLoads, lostIn_nil, add_zero]
    exact ha
  | cons tn ts ih =>
    have hnext := ih (ha.turn hs now tn) (hs.turns src now [tn])
    rw [add_assoc] at hnext
    rw [turnsLoads, lostIn_append]
    exact hnext

/-- A texture that goes away gives its levels back. -/
theorem finishDrop (ha : h.Accounted src lost) (i : Nat) : (h.finishDrop i).Accounted src lost := by
  unfold Host.finishDrop
  rcases ht : h.textures[i]? with _ | t
  · exact ha
  simp only
  split
  · exact ha
  next hdrop =>
    obtain ⟨hown, hjoin⟩ := by
      simpa only [Bool.or_eq_true, decide_eq_true_eq, not_or, Bool.not_eq_false, not_not]
        using hdrop
    have hjoined := ha.unmoved (unmoved_tryJoin h i)
    obtain ⟨ht', -, -⟩ := tryJoin_eq ht hjoin
    generalize (h.tryJoin i).1 = h₁ at *
    have halive : h₁.contextAlive = true := hjoined.alive
    have hstored := sum_map_modify Texture.files
      (fun t => { t with ownership := .dropped, data := { t.data with levels := [] } }) ht'
    have hkept : Texture.files { t with task := none } = filesOf t.data.levels := by
      simp [Texture.files, hown]
    have hempty : Texture.files { t with
        task := none, ownership := .dropped, data := { t.data with levels := [] } } = 0 := by
      simp [Texture.files]
    rw [hkept, hempty, add_zero] at hstored
    rw [if_pos (by simp [filesAlive, modifyTexture, halive])]
    refine hjoined.released t.data.levels rfl rfl ?_
    change _ + h₁.carried + filesOf t.data.levels = h₁.stored + h₁.carried
    rw [add_right_comm]
    exact congrArg (· + h₁.carried) hstored

/-- A poll moves references only while it waits. -/
theorem poll (ha : h.Accounted src lost) (hs : h.Sound) {i : Nat} (hown : h.owned i = true)
    (budget : Binary64) (now : Instant) (ts : List Turn) :
    (h.poll i budget now fun h => h.turns src now ts).1.Accounted src
      (lost + lostIn src (h.stepLoads src now (.poll i budget ts))) := by
  rw [stepLoads, if_pos hown]
  rcases hw : h.waiting? i budget now with _ | h₁
  · simp only [lostIn_nil, add_zero]
    rcases (poll_of_not_waiting hw fun h => h.turns src now ts).2 with heq | heq
    · rw [heq]
      exact ha.unmoved (unmoved_checkPurged h i)
    · rw [heq]
      exact ha.unmoved ((unmoved_checkPurged h i).trans (unmoved_modifyTexture _ i fun _ => rfl))
  · have hwaited := (ha.unmoved (unmoved_waiting hw)).turns (hs.waiting hown hw) now ts
    rcases poll_of_waiting hw fun h => h.turns src now ts with heq | heq
    · rw [heq]
      exact hwaited.unmoved (unmoved_pollPublished _ i now)
    · rw [heq]
      exact hwaited.unmoved (unmoved_pollPending _ i now)

/-- What an event makes of the account, if it does not take the files away. -/
theorem step (ha : h.Accounted src lost) (hs : h.Sound) (now : Instant) {e : HostEvent}
    (he : e ≠ .dropContext) :
    (h.step src now e).Accounted src (lost + lostIn src (h.stepLoads src now e)) := by
  cases e with
  | createTexture =>
    simp only [stepLoads, lostIn_nil, add_zero]
    refine ha.unmoved ⟨rfl, rfl, ?_, rfl⟩
    simp [Host.step, createTexture, stored, Texture.create, Texture.files, TextureData.empty]
  | createEntry =>
    simp only [stepLoads, lostIn_nil, add_zero]
    exact ha.unmoved ⟨rfl, rfl, rfl, rfl⟩
  | populate i a =>
    simp only [Host.step, populate, stepLoads, lostIn_nil, add_zero]
    split
    · split
      · exact ha.unmoved (unmoved_modifyTexture h i fun _ => rfl)
      · exact ha
    · exact ha
  | poll i budget ts =>
    simp only [Host.step]
    split
    next hown => exact ha.poll hs hown budget now ts
    next hown => simpa [stepLoads, hown] using ha
  | turn tn => exact ha.turn hs now tn
  | purge i threshold held =>
    simp only [Host.step, stepLoads, lostIn_nil, add_zero]
    split
    · exact ha.unmoved (unmoved_purge h i threshold _)
    · exact ha
  | beginDrop i =>
    simp only [stepLoads, lostIn_nil, add_zero]
    exact ha.unmoved (unmoved_beginDrop h i)
  | beginDropDuringLoad k cut =>
    simp only [Host.step, beginDropDuringLoad, stepLoads]
    rcases hk : h.tasks[k]? with _ | ⟨i, p⟩
    · simpa using ha
    cases p with
    | queued => exact (ha.begin hk (some cut)).unmoved (unmoved_beginDrop _ i)
    | loaded | crashed | discarded | committed | published | finished => simpa using ha
  | finishDrop i =>
    simp only [stepLoads, lostIn_nil, add_zero]
    exact ha.finishDrop i
  | dropContext => exact absurd rfl he

theorem run (ha : h.Accounted src lost) (hs : h.Sound) {events : List (Instant × HostEvent)}
    (halive : ∀ now, (now, .dropContext) ∉ events) :
    (h.run src events).Accounted src (lost + lostIn src (h.loads src events)) := by
  induction events generalizing h lost with
  | nil =>
    rw [loads, lostIn_nil, add_zero]
    exact ha
  | cons e events ih =>
    obtain ⟨now, e⟩ := e
    have he : e ≠ .dropContext := by
      rintro rfl
      exact halive now (List.mem_cons_self ..)
    have hacts : Acts src (fun _ => True) h (h.step src now e) :=
      step_acts h now fun _ _ _ => trivial
    have hnext := ih (ha.step hs now he) (hs.acts hacts)
      fun now' hmem => halive now' (List.mem_cons_of_mem _ hmem)
    rw [add_assoc] at hnext
    rw [loads, lostIn_append]
    exact hnext

end Accounted

section loads

variable {run : LoadRun}

theorem exists_of_mem_beginLoads {i : Nat} {cut : Option Nat}
    (hrun : run ∈ h.beginLoads src i cut) : ∃ r cut entry, run = loadLevels src r cut entry := by
  unfold beginLoads at hrun
  split at hrun
  · cases hrun
  split at hrun
  · cases hrun
  next a _ =>
  split at hrun
  · cases hrun
  next e _ =>
    rw [List.mem_singleton] at hrun
    exact ⟨a.request, _, e.data, hrun⟩

theorem exists_of_mem_turnLoads {tn : Turn} (hrun : run ∈ h.turnLoads src tn) :
    ∃ r cut entry, run = loadLevels src r cut entry := by
  unfold turnLoads at hrun
  split at hrun
  · split at hrun
    · exact exists_of_mem_beginLoads hrun
    · cases hrun
  · cases hrun

theorem exists_of_mem_turnsLoads {ts : List Turn} (hrun : run ∈ h.turnsLoads src now ts) :
    ∃ r cut entry, run = loadLevels src r cut entry := by
  induction ts generalizing h with
  | nil => cases hrun
  | cons tn ts ih =>
    rw [turnsLoads, List.mem_append] at hrun
    rcases hrun with hrun | hrun
    · exact exists_of_mem_turnLoads hrun
    · exact ih hrun

theorem exists_of_mem_stepLoads {e : HostEvent} (hrun : run ∈ h.stepLoads src now e) :
    ∃ r cut entry, run = loadLevels src r cut entry := by
  unfold stepLoads at hrun
  split at hrun
  · exact exists_of_mem_turnLoads hrun
  · split at hrun
    · split at hrun
      · exact exists_of_mem_turnsLoads hrun
      · cases hrun
    · cases hrun
  · split at hrun
    · exact exists_of_mem_beginLoads hrun
    · cases hrun
  · cases hrun

theorem exists_of_mem_loads {events : List (Instant × HostEvent)}
    (hrun : run ∈ h.loads src events) : ∃ r cut entry, run = loadLevels src r cut entry := by
  induction events generalizing h with
  | nil => cases hrun
  | cons e events ih =>
    rw [loads, List.mem_append] at hrun
    rcases hrun with hrun | hrun
    · exact exists_of_mem_stepLoads hrun
    · exact ih hrun

/-- Nothing is lost exactly if no load crashes. -/
theorem lostIn_eq_zero_iff {events : List (Instant × HostEvent)} :
    lostIn src (h.loads src events) = 0 ↔
      ∀ run ∈ h.loads src events, run.outcome.isSome = true := by
  rw [lostIn, List.sum_eq_zero_iff, List.forall_mem_map]
  apply forall₂_congr
  intro run hrun
  obtain ⟨r, cut, entry, rfl⟩ := exists_of_mem_loads hrun
  rcases ledger_loadLevels src r cut entry with ⟨o, ho, -, hlost⟩ | ⟨ho, -, hlost⟩
  · simp [ho, hlost]
  · simp [ho, hlost]

end loads

theorem carried_of_resting (hrest : ∀ k ∈ h.tasks, k.progress = .queued ∨ k.progress = .finished) :
    h.carried = 0 := by
  rw [carried, List.sum_eq_zero_iff, List.forall_mem_map]
  intro k hk
  rcases hrest k hk with hp | hp
  · rw [hp]
    rfl
  · rw [hp]
    rfl

theorem stored_of_dropped (hdropped : ∀ t ∈ h.textures, t.ownership = .dropped) : h.stored = 0 := by
  rw [stored, List.sum_eq_zero_iff, List.forall_mem_map]
  intro t ht
  exact if_pos (hdropped t ht)

/-- No task is under way when all textures have gone away. -/
theorem Sound.finished_of_dropped (hs : h.Sound)
    (hdropped : ∀ t ∈ h.textures, t.ownership = .dropped) :
    ∀ k ∈ h.tasks, k.progress = .finished := by
  intro k hk
  obtain ⟨n, hn⟩ := List.mem_iff_getElem?.mp hk
  by_contra hne
  obtain ⟨t, ht, htask⟩ := hs.held n k.texture k.progress hn hne
  have hnone := (hs.texture k.texture t ht).dropped (hdropped t (List.mem_of_getElem? ht))
  rw [hnone] at htask
  cases htask

/-- The account of a host after a number of loads. -/
structure Conserved (src : Sources) (loads : List LoadRun) (h : Host) : Prop where
  /-- What has been handed out has been given back, or is kept by a texture, or is on its way to
  one, or was lost by a load. -/
  balance : (taken src.files h.events : Multiset FileReference) =
    releases h.events + (h.stored + h.carried + lostIn src loads)
  /-- Nothing is given back more often than it has been handed out. -/
  once : (releases h.events : Multiset FileReference) ≤ taken src.files h.events
  /-- While no task is under way, what is out is kept by textures. -/
  resting : (∀ k ∈ h.tasks, k.progress = .queued ∨ k.progress = .finished) →
    outstanding h.events = Multiset.card h.stored + Multiset.card (lostIn src loads)
  dropped : (∀ t ∈ h.textures, t.ownership = .dropped) →
    outstanding h.events = Multiset.card (lostIn src loads)
  /-- Only loads that crash lose references, and each of them does. -/
  lossless : lostIn src loads = 0 ↔ ∀ run ∈ loads, run.outcome.isSome = true

/-- As long as the files are there, every reference that is handed out is accounted for after
every run: none is given back twice, and apart from those that crashed loads have lost, those
that are out are the ones that live textures list. -/
theorem references_conserved (src : Sources) {events : List (Instant × HostEvent)}
    (halive : ∀ now, (now, .dropContext) ∉ events) :
    (start.run src events).Conserved src (start.loads src events) := by
  have hs := sound_run src events
  have haccount := (accounted_start src).run sound_start halive
  rw [zero_add] at haccount
  have hlossless : lostIn src (start.loads src events) = 0 ↔ _ := lostIn_eq_zero_iff
  generalize start.run src events = h at *
  have hresting (hrest : ∀ k ∈ h.tasks, k.progress = .queued ∨ k.progress = .finished) :
      outstanding h.events =
        Multiset.card h.stored + Multiset.card (lostIn src (start.loads src events)) := by
    have hout := haccount.ledger.outstanding_eq
    rw [carried_of_resting hrest, add_zero, Multiset.card_add] at hout
    exact_mod_cast hout
  refine ⟨haccount.ledger.balance, haccount.ledger.releases_le, hresting, ?_, hlossless⟩
  intro hdropped
  have hout := hresting fun k hk => .inr (hs.finished_of_dropped hdropped k hk)
  rw [stored_of_dropped hdropped] at hout
  simpa using hout

/-- A source whose backend crashes. -/
def crashing (content : Bytes) : Sources where
  files := (Sources.single content).files
  transcoder := some (.ofLevels (fun _ => true) fun _ _ _ _ => .crashed)

/-- A texture that decodes once and is dropped. -/
def passing (name : String) : List (Instant × HostEvent) :=
  let now := Instant.ofSeconds 0
  [(now, .createEntry), (now, .createTexture),
    (now, .populate 0 ⟨.unscaled [name] .desktop "", 0⟩),
    (now, .poll 0 ⟨0⟩ (List.replicate 5 (.advance 0))), (now, .beginDrop 0), (now, .finishDrop 0)]

/-- The texture has gone, and its load has crashed: the one reference that is out is lost. -/
theorem references_conserved_passing :
    let src := crashing universalFile
    let loads := start.loads src (passing "a.ktx2")
    (start.run src (passing "a.ktx2")).Conserved src loads ∧
      Multiset.card (lostIn src loads) = 1 ∧ ¬∀ run ∈ loads, run.outcome.isSome = true := by
  intro src loads
  have hconserved : (start.run src (passing "a.ktx2")).Conserved src loads :=
    references_conserved src (by simp [passing])
  have hdropped : ∀ t ∈ (start.run src (passing "a.ktx2")).textures, t.ownership = .dropped := by
    decide +kernel
  have hout : outstanding (start.run src (passing "a.ktx2")).events = 1 := by decide +kernel
  have hlost : Multiset.card (lostIn src loads) = 1 := by
    rw [hconserved.dropped hdropped] at hout
    exact_mod_cast hout
  refine ⟨hconserved, hlost, fun hall => ?_⟩
  rw [hconserved.lossless.mpr hall] at hlost
  cases hlost

/-- After a crash a reference is out that no texture knows of. -/
theorem crashed_load_loses_reference :
    let h := start.run (crashing universalFile) (passing "a.ktx2")
    (∀ k ∈ h.tasks, k.progress = .finished) ∧ (∀ t ∈ h.textures, t.ownership = .dropped) ∧
      h.textures.all (fun t => t.data.levels.isEmpty) ∧ outstanding h.events = 1 := by
  decide +kernel

end Host
end TexturePack
