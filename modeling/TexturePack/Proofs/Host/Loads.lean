import Mathlib
import TexturePack.Proofs.Host.Lifecycle

/-! The loads of a run, one after the other, and the host in which a poll waits for them. -/
namespace TexturePack.Host

variable {h h₁ : Host} {i : Nat} {budget : Binary64} {now : Instant}

/-- The host in which a poll waits, if it waits at all. -/
def waiting? (h : Host) (i : Nat) (budget : Binary64) (now : Instant) : Option Host :=
  match (h.checkPurged i).state? i with
  | some .active | some .notFound | some .pending => some (h.checkPurged i)
  | some .populated =>
      if budget.isBelowZero then none
      else
        some (((h.checkPurged i).modifyTexture i fun t => { t with lastUsed := now }).startDecode i)
  | _ => none

theorem poll_of_waiting (hw : h.waiting? i budget now = some h₁) (wait : Host → Host) :
    h.poll i budget now wait = (wait h₁).pollPublished i now ∨
      h.poll i budget now wait = (wait h₁).pollPending i now := by
  unfold waiting? at hw
  unfold poll
  generalize h.checkPurged i = h₂ at *
  simp only
  rcases hs : h₂.state? i with _ | _ | _ | _ | _ | _ | _
  · simp [hs] at hw
  · simp [hs] at hw
  · simp only [hs] at hw
    split at hw
    · cases hw
    next hbudget =>
      cases hw
      rw [if_neg hbudget]
      exact .inr rfl
  · simp only [hs] at hw
    cases hw
    exact .inr rfl
  · simp only [hs] at hw
    cases hw
    exact .inl rfl
  · simp only [hs] at hw
    cases hw
    exact .inl rfl
  · simp [hs] at hw

/-- What the owner would wait for elsewhere does not matter. -/
theorem poll_congr {wait wait' : Host → Host}
    (hwait : ∀ h₁, h.waiting? i budget now = some h₁ → wait h₁ = wait' h₁) :
    h.poll i budget now wait = h.poll i budget now wait' := by
  unfold waiting? at hwait
  unfold poll
  generalize h.checkPurged i = h₂ at *
  simp only
  split
  next hs => rw [hwait h₂ (by rw [hs])]
  next hs => rw [hwait h₂ (by rw [hs])]
  next hs => rw [hwait h₂ (by rw [hs])]
  next hs =>
    split
    · rfl
    next hbudget => rw [hwait _ (by simp only [hs, if_neg hbudget])]
  · rfl

theorem poll_of_not_waiting (hw : h.waiting? i budget now = none) (wait : Host → Host) :
    (h.poll i budget now wait).2 = false ∧
      ((h.poll i budget now wait).1 = h.checkPurged i ∨
        (h.poll i budget now wait).1 =
          (h.checkPurged i).modifyTexture i fun t => { t with lastUsed := now }) := by
  unfold waiting? at hw
  unfold poll
  generalize h.checkPurged i = h₂ at *
  simp only
  rcases hs : h₂.state? i with _ | _ | _ | _ | _ | _ | _
  · exact ⟨rfl, .inl rfl⟩
  · exact ⟨rfl, .inl rfl⟩
  · simp only [hs] at hw
    split at hw
    next hbudget =>
      rw [if_pos hbudget]
      exact ⟨rfl, .inr rfl⟩
    · cases hw
  · simp [hs] at hw
  · simp [hs] at hw
  · simp [hs] at hw
  · exact ⟨rfl, .inl rfl⟩

/-- Tasks have nothing to do with where a poll waits. -/
theorem waiting_acts {work : Host → Host → Prop} {ok : Attachment → Prop}
    (hown : h.owned i = true) (hw : h.waiting? i budget now = some h₁) :
    Actions work ok h h₁ := by
  have hcheck : Actions work ok h (h.checkPurged i) := checkPurged_acts h i
  rw [← owned_checkPurged] at hown
  unfold waiting? at hw
  generalize h.checkPurged i = h₂ at *
  obtain ⟨t, ht, howned⟩ := owned_iff.mp hown
  have hstate : h₂.state? i = some t.state := by
    rw [state?, ht]
    rfl
  rw [hstate] at hw
  rcases hts : t.state with _ | _ | _ | _ | _ | _
  · simp [hts] at hw
  · simp only [hts] at hw
    split at hw
    · cases hw
    · cases hw
      have hused : (h₂.modifyTexture i fun t => { t with lastUsed := now }).textures[i]? =
          some { t with lastUsed := now } := by
        rw [textures_modifyTexture, if_pos rfl, ht]
        rfl
      exact (hcheck.tail (.use h₂ i now)).tail (.submit hused hts howned)
  · simp only [hts] at hw
    cases hw
    exact hcheck
  · simp only [hts] at hw
    cases hw
    exact hcheck
  · simp only [hts] at hw
    cases hw
    exact hcheck
  · simp [hts] at hw

theorem Sound.waiting (hs : h.Sound) (hown : h.owned i = true)
    (hw : h.waiting? i budget now = some h₁) : h₁.Sound :=
  hs.ownerActs (waiting_acts hown hw)

/-- The load with which a task begins. -/
def beginLoads (h : Host) (src : Sources) (i : Nat) (cut : Option Nat) : List LoadRun :=
  match h.textures[i]? with
  | none => []
  | some t =>
      match t.data.attachment with
      | none => []
      | some a =>
          match h.entries[a.entry]? with
          | none => []
          | some e => [loadLevels src a.request (cutFor t cut) e.data]

def turnLoads (h : Host) (src : Sources) : Turn → List LoadRun
  | .advance k =>
      match h.tasks[k]? with
      | some ⟨i, .queued⟩ => h.beginLoads src i none
      | _ => []
  | .lose _ => []

def turnsLoads (h : Host) (src : Sources) (now : Instant) : List Turn → List LoadRun
  | [] => []
  | tn :: ts => h.turnLoads src tn ++ (h.turn src now tn).turnsLoads src now ts

/-- The loads that an event brings about. -/
def stepLoads (h : Host) (src : Sources) (now : Instant) : HostEvent → List LoadRun
  | .turn tn => h.turnLoads src tn
  | .poll i budget ts =>
      if h.owned i then
        match h.waiting? i budget now with
        | some h => h.turnsLoads src now ts
        | none => []
      else []
  | .beginDropDuringLoad k cut =>
      match h.tasks[k]? with
      | some ⟨i, .queued⟩ => h.beginLoads src i (some cut)
      | _ => []
  | _ => []

/-- All loads of a run. -/
def loads (h : Host) (src : Sources) : List (Instant × HostEvent) → List LoadRun
  | [] => []
  | (now, e) :: events => h.stepLoads src now e ++ (h.step src now e).loads src events

end TexturePack.Host
