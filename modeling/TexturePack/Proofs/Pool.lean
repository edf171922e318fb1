import Mathlib
import TexturePack.Executor

/-! Every message of a pool is accounted for. The tasks that were submitted are those taken and
those still in the queue, in that order, and a task that was taken is running, has ended, or has
signalled as well. -/
namespace TexturePack

namespace Worker

def running? : Worker → Option Nat
  | .running task => some task
  | _ => none

def ending? : Worker → Option Nat
  | .ending task => some task
  | _ => none

/-- How many steps a worker still has to make with the task that it has. -/
def weight : Worker → Nat
  | .running _ => 2
  | .ending _ => 1
  | _ => 0

end Worker

/-- How many steps a message leads to. -/
def Message.weight : Message → Nat
  | .run _ => 3
  | .shutdown => 1

def PoolEvent.outcome? : PoolEvent → Option TaskOutcome
  | .submit o => some o
  | _ => none

/-- The tasks that are submitted before a pool is closed. -/
def PoolEvent.accepted (events : List PoolEvent) : List TaskOutcome :=
  (events.takeWhile (· ≠ .close)).filterMap outcome?

namespace Pool

variable {p p' : Pool} {e : PoolEvent} {rest : List Nat} {s i : Nat}

/-- Replacing one element leaves the others, in some order. -/
theorem set_split {α : Type} {l : List α} {a : α} (b : α) (h : l[i]? = some a) :
    ∃ others, l.Perm (a :: others) ∧ (l.set i b).Perm (b :: others) := by
  obtain ⟨hi, rfl⟩ := List.getElem?_eq_some_iff.mp h
  exact ⟨l.eraseIdx i, (List.getElem_cons_eraseIdx_perm hi).symm,
    List.set_perm_cons_eraseIdx hi b⟩

/-- The number of steps before every worker of a closing pool has stopped. -/
def remaining (p : Pool) : Nat :=
  (p.queue.map Message.weight).sum + (p.workers.map Worker.weight).sum

/-- The queue holds the tasks `rest` and behind them `s` shutdowns. Every task is counted once
in each of the lists that it has come to, and every worker takes one shutdown at most. -/
structure Balanced (p : Pool) (rest : List Nat) (s : Nat) : Prop where
  queue : p.queue = rest.map .run ++ List.replicate s .shutdown
  order : p.taken ++ rest = List.range p.submitted.length
  shutdowns : s + p.retired.length = if p.closing then p.workers.length else 0
  drained : p.retired ≠ [] → rest = []
  taken : p.taken.Perm (p.ended ++ p.workers.filterMap Worker.running?)
  ended : p.ended.Perm (p.signalled ++ p.workers.filterMap Worker.ending?)
  retired : p.retired.Nodup
  stopped : ∀ i, i ∈ p.retired ↔ p.workers[i]? = some .stopped
  staffed : p.workers ≠ []

/-- All work is done: each task of the pool has been taken in its turn, has ended once and has
signalled once, and each worker has taken one shutdown. -/
structure Drained (p : Pool) (tasks : List TaskOutcome) (workers : Nat) : Prop where
  submitted : p.submitted = tasks
  taken : p.taken = List.range tasks.length
  ended : p.ended.Perm (List.range tasks.length)
  signalled : p.signalled.Perm (List.range tasks.length)
  done : ∀ task < tasks.length, p.done task
  returned : p.returned = tasks.count .returns
  retired : p.retired.Perm (List.range workers)
  queue : p.queue = []

theorem count_filterMap_cons (f : Worker → Option Nat) (w : Worker) (others : List Worker)
    (task : Nat) :
    ((w :: others).filterMap f).count task =
      (f w).toList.count task + (others.filterMap f).count task := by
  cases hw : f w <;> simp [hw, List.count_cons, Nat.add_comm]

/-- When a worker goes on from `w` to `w'`, what it comes to hold is added to what came in, and
what it held before to what went out. -/
theorem held_set {w : Worker} (f : Worker → Option Nat) (w' : Worker)
    (hi : p.workers[i]? = some w) {into out : List Nat}
    (h : into.Perm (out ++ p.workers.filterMap f)) :
    (into ++ (f w').toList).Perm (out ++ (f w).toList ++ (p.workers.set i w').filterMap f) := by
  obtain ⟨others, hold, hnew⟩ := set_split w' hi
  refine List.perm_iff_count.mpr fun task => ?_
  have hbefore := h.count_eq task
  rw [List.count_append, (hold.filterMap f).count_eq, count_filterMap_cons] at hbefore
  rw [List.count_append, List.count_append, List.count_append, (hnew.filterMap f).count_eq,
    count_filterMap_cons]
  omega

theorem create_balanced (threads : Nat) : (create threads).Balanced [] 0 where
  queue := rfl
  order := rfl
  shutdowns := rfl
  drained := fun _ => rfl
  taken := by simp [create, Worker.running?]
  ended := by simp [create, Worker.ending?]
  retired := List.nodup_nil
  stopped := by
    intro i
    simp [create, List.getElem?_replicate]
  staffed := by simp [create]

/-- A worker that takes a message takes the first one of the queue. -/
theorem take?_cases (h : p.take? i = some p') :
    p.workers[i]? = some .waiting ∧
      ((∃ task q, p.queue = .run task :: q ∧
          p' = { p with queue := q, taken := p.taken ++ [task] }.setWorker i (.running task)) ∨
        ∃ q, p.queue = .shutdown :: q ∧
          p' = { p with queue := q, retired := p.retired ++ [i] }.setWorker i .stopped) := by
  unfold take? at h
  split at h
  case h_1 task q hi hq => exact ⟨hi, .inl ⟨task, q, hq, (Option.some.inj h).symm⟩⟩
  case h_2 q hi hq => exact ⟨hi, .inr ⟨q, hq, (Option.some.inj h).symm⟩⟩
  case h_3 => cases h

theorem finish?_cases (h : p.finish? i = some p') :
    ∃ task, p.workers[i]? = some (.running task) ∧
      p' = { p with ended := p.ended ++ [task] }.setWorker i (.ending task) := by
  unfold finish? at h
  split at h
  case h_1 task hi => exact ⟨task, hi, (Option.some.inj h).symm⟩
  case h_2 => cases h

theorem signal?_cases (h : p.signal? i = some p') :
    ∃ task, p.workers[i]? = some (.ending task) ∧
      p' = { p with signalled := p.signalled ++ [task] }.setWorker i .waiting := by
  unfold signal? at h
  split at h
  case h_1 task hi => exact ⟨task, hi, (Option.some.inj h).symm⟩
  case h_2 => cases h

/-- A worker that goes on, and does not stop, is no more and no less retired than before. -/
theorem stopped_set {w w' : Worker} {gone : List Nat}
    (h : ∀ j, j ∈ gone ↔ p.workers[j]? = some .stopped) (hi : p.workers[i]? = some w)
    (hw : w ≠ .stopped) (hw' : w' ≠ .stopped) (j : Nat) :
    j ∈ gone ↔ (p.workers.set i w')[j]? = some .stopped := by
  rw [h j, List.getElem?_set]
  split
  case isTrue hij =>
    subst hij
    have hlt : i < p.workers.length := (List.getElem?_eq_some_iff.mp hi).1
    simp only [hi, hlt, if_true, Option.some.injEq, hw, hw']
  case isFalse => rfl

section steps

variable (h : p.Balanced rest s)

include h

/-- No shutdown is sent before the pool is closed. -/
theorem Balanced.unclosed (hc : ¬p.closing) : s = 0 ∧ p.retired = [] := by
  have hcount : s + p.retired.length = 0 := by simpa [hc] using h.shutdowns
  exact ⟨by omega, List.length_eq_zero_iff.mp (by omega)⟩

theorem Balanced.submit {o : TaskOutcome} (hs : p.submit? o = some p') :
    p'.Balanced (rest ++ [p.submitted.length]) s := by
  unfold submit? at hs
  split at hs
  · cases hs
  case isFalse hc =>
    obtain rfl := (Option.some.inj hs).symm
    obtain ⟨rfl, hr⟩ := h.unclosed hc
    exact
      { h with
        queue := by simp [h.queue]
        order := by simp [← List.append_assoc, h.order, List.range_succ]
        drained := fun hne => absurd hr hne }

theorem Balanced.close (hs : p.close? = some p') : p'.Balanced rest p.workers.length := by
  unfold close? at hs
  split at hs
  · cases hs
  case isFalse hc =>
    obtain rfl := (Option.some.inj hs).symm
    obtain ⟨rfl, hr⟩ := h.unclosed hc
    exact
      { h with
        queue := by simp [h.queue]
        shutdowns := by simp [hr] }

/-- The first message of the queue is the next task while there is one. -/
theorem Balanced.next {task : Nat} {q : List Message} (hq : p.queue = .run task :: q) :
    ∃ rest', rest = task :: rest' ∧ q = rest'.map .run ++ List.replicate s .shutdown := by
  have hq' := hq.symm.trans h.queue
  cases rest with
  | nil => cases s <;> simp [List.replicate_succ] at hq'
  | cons first rest' =>
    obtain ⟨hfirst, hrest⟩ := List.cons.inj hq'
    cases hfirst
    exact ⟨rest', rfl, hrest⟩

/-- The first message of the queue is a shutdown when no task is left. -/
theorem Balanced.last {q : List Message} (hq : p.queue = .shutdown :: q) :
    rest = [] ∧ ∃ s', s = s' + 1 ∧ q = List.replicate s' .shutdown := by
  have hq' := hq.symm.trans h.queue
  cases rest with
  | nil =>
    cases s with
    | zero => simp at hq'
    | succ s' => exact ⟨rfl, s', rfl, by simpa [List.replicate_succ] using hq'⟩
  | cons first rest' => simp at hq'

theorem Balanced.run {task : Nat} {q : List Message} (hi : p.workers[i]? = some .waiting)
    (hq : p.queue = .run task :: q) :
    ∃ rest', ({ p with queue := q, taken := p.taken ++ [task] }.setWorker i
      (.running task)).Balanced rest' s := by
  obtain ⟨rest', rfl, rfl⟩ := h.next hq
  exact ⟨rest',
    { queue := rfl
      order := by simpa [setWorker] using h.order
      shutdowns := by simpa [setWorker] using h.shutdowns
      drained := fun hne => absurd (h.drained hne) (by simp)
      taken := by
        simpa [setWorker, Worker.running?] using
          held_set Worker.running? (.running task) hi h.taken
      ended := by
        simpa [setWorker, Worker.ending?] using
          held_set Worker.ending? (.running task) hi h.ended
      retired := h.retired
      stopped := stopped_set h.stopped hi (by decide) (by simp)
      staffed := by simpa [setWorker] using h.staffed }⟩

theorem Balanced.stop {q : List Message} (hi : p.workers[i]? = some .waiting)
    (hq : p.queue = .shutdown :: q) :
    ∃ s', ({ p with queue := q, retired := p.retired ++ [i] }.setWorker i
      .stopped).Balanced rest s' := by
  obtain ⟨rfl, s', rfl, rfl⟩ := h.last hq
  have hlt : i < p.workers.length := (List.getElem?_eq_some_iff.mp hi).1
  have hnew : i ∉ p.retired := by simp [h.stopped, hi]
  exact ⟨s',
    { queue := rfl
      order := by simpa [setWorker] using h.order
      shutdowns := by simpa [setWorker, Nat.add_assoc, Nat.add_comm 1] using h.shutdowns
      drained := fun _ => rfl
      taken := by
        simpa [setWorker, Worker.running?] using
          held_set Worker.running? .stopped hi h.taken
      ended := by
        simpa [setWorker, Worker.ending?] using
          held_set Worker.ending? .stopped hi h.ended
      retired := by simpa [setWorker] using h.retired.concat hnew
      stopped := by
        intro j
        simp only [setWorker, List.mem_append, List.mem_singleton, List.getElem?_set, h.stopped]
        split
        case isTrue hij => simp [← hij, hlt]
        case isFalse hij => simp [Ne.symm hij]
      staffed := by simpa [setWorker] using h.staffed }⟩

theorem Balanced.take (hs : p.take? i = some p') : ∃ rest' s', p'.Balanced rest' s' := by
  obtain ⟨hi, ⟨task, q, hq, rfl⟩ | ⟨q, hq, rfl⟩⟩ := take?_cases hs
  · obtain ⟨rest', hrun⟩ := h.run hi hq
    exact ⟨rest', s, hrun⟩
  · obtain ⟨s', hstop⟩ := h.stop hi hq
    exact ⟨rest, s', hstop⟩

theorem Balanced.finish (hs : p.finish? i = some p') : p'.Balanced rest s := by
  obtain ⟨task, hi, rfl⟩ := finish?_cases hs
  exact
    { h with
      shutdowns := by simpa [setWorker] using h.shutdowns
      taken := by
        simpa [setWorker, Worker.running?] using
          held_set Worker.running? (.ending task) hi h.taken
      ended := by
        simpa [setWorker, Worker.ending?] using
          held_set Worker.ending? (.ending task) hi h.ended
      stopped := stopped_set h.stopped hi (by simp) (by simp)
      staffed := by simpa [setWorker] using h.staffed }

theorem Balanced.signal (hs : p.signal? i = some p') : p'.Balanced rest s := by
  obtain ⟨task, hi, rfl⟩ := signal?_cases hs
  exact
    { h with
      shutdowns := by simpa [setWorker] using h.shutdowns
      taken := by
        simpa [setWorker, Worker.running?] using
          held_set Worker.running? .waiting hi h.taken
      ended := by
        simpa [setWorker, Worker.ending?] using
          held_set Worker.ending? .waiting hi h.ended
      stopped := stopped_set h.stopped hi (by simp) (by decide)
      staffed := by simpa [setWorker] using h.staffed }

theorem Balanced.step : ∃ rest' s', (p.step e).Balanced rest' s' := by
  unfold Pool.step
  rcases hs : p.step? e with _ | p'
  · exact ⟨rest, s, h⟩
  cases e with
  | submit o => exact ⟨_, s, h.submit hs⟩
  | close => exact ⟨rest, _, h.close hs⟩
  | take i => exact h.take hs
  | finish i => exact ⟨rest, s, h.finish hs⟩
  | signal i => exact ⟨rest, s, h.signal hs⟩

end steps

theorem Balanced.run_events (events : List PoolEvent) (h : ∃ rest s, p.Balanced rest s) :
    ∃ rest s, (p.run events).Balanced rest s := by
  induction events generalizing p with
  | nil => exact h
  | cons e events ih =>
    obtain ⟨rest, s, h⟩ := h
    exact ih h.step

theorem run_balanced (threads : Nat) (events : List PoolEvent) :
    ∃ rest s, ((create threads).run events).Balanced rest s :=
  Balanced.run_events events ⟨[], 0, create_balanced threads⟩

/-- Only the owner adds tasks and closes a pool, and nobody adds workers or takes them away. -/
theorem step_frame (p : Pool) (e : PoolEvent) :
    (p.step e).workers.length = p.workers.length ∧
      (p.step e).closing = (p.closing || decide (e = .close)) ∧
      (p.step e).submitted =
        if p.closing then p.submitted else p.submitted ++ e.outcome?.toList := by
  unfold Pool.step
  cases e with
  | submit o => cases hc : p.closing <;> simp [step?, submit?, hc, PoolEvent.outcome?]
  | close => cases hc : p.closing <;> simp [step?, close?, hc, PoolEvent.outcome?]
  | take i =>
    rcases hs : p.take? i with _ | p'
    · simp [step?, hs, PoolEvent.outcome?]
    · obtain ⟨-, ⟨_, _, -, rfl⟩ | ⟨_, -, rfl⟩⟩ := take?_cases hs <;>
        simp [step?, hs, setWorker, PoolEvent.outcome?]
  | finish i =>
    rcases hs : p.finish? i with _ | p'
    · simp [step?, hs, PoolEvent.outcome?]
    · obtain ⟨_, -, rfl⟩ := finish?_cases hs
      simp [step?, hs, setWorker, PoolEvent.outcome?]
  | signal i =>
    rcases hs : p.signal? i with _ | p'
    · simp [step?, hs, PoolEvent.outcome?]
    · obtain ⟨_, -, rfl⟩ := signal?_cases hs
      simp [step?, hs, setWorker, PoolEvent.outcome?]

theorem run_frame (p : Pool) (events : List PoolEvent) :
    (p.run events).workers.length = p.workers.length ∧
      ((p.run events).closing ↔ p.closing ∨ .close ∈ events) ∧
      (p.run events).submitted =
        if p.closing then p.submitted else p.submitted ++ PoolEvent.accepted events := by
  induction events generalizing p with
  | nil => simp [Pool.run, PoolEvent.accepted]
  | cons e events ih =>
    obtain ⟨hw, hc, hs⟩ := step_frame p e
    obtain ⟨hw', hc', hs'⟩ := ih (p.step e)
    refine ⟨hw'.trans hw, hc'.trans ?_, hs'.trans ?_⟩
    · rw [hc, Bool.or_eq_true, decide_eq_true_eq, or_assoc, List.mem_cons,
        @eq_comm _ PoolEvent.close]
    rw [hc, hs]
    by_cases he : e = .close
    · subst he
      simp [PoolEvent.accepted, PoolEvent.outcome?]
    · cases ho : e.outcome? <;> cases p.closing <;>
        simp [PoolEvent.accepted, he, ho]

/-- How many steps are left once one worker has gone on. -/
theorem weight_set {w : Worker} (w' : Worker) (hi : p.workers[i]? = some w) :
    ((p.workers.set i w').map Worker.weight).sum + w.weight =
      (p.workers.map Worker.weight).sum + w'.weight := by
  obtain ⟨others, hold, hnew⟩ := set_split w' hi
  rw [(hold.map _).sum_eq, (hnew.map _).sum_eq]
  simp only [List.map_cons, List.sum_cons]
  omega

/-- Whatever can happen to a closing pool brings it one step nearer to its end. -/
theorem remaining_succ (hc : p.closing) (hs : p.step? e = some p') :
    p'.remaining + 1 = p.remaining := by
  cases e with
  | submit o => simp [step?, submit?, hc] at hs
  | close => simp [step?, close?, hc] at hs
  | take i =>
    obtain ⟨hi, ⟨task, q, hq, rfl⟩ | ⟨q, hq, rfl⟩⟩ := take?_cases hs
    · have hw := weight_set (.running task) hi
      simp only [remaining, setWorker, hq, List.map_cons, List.sum_cons, Worker.weight,
        Message.weight] at *
      omega
    · have hw := weight_set .stopped hi
      simp only [remaining, setWorker, hq, List.map_cons, List.sum_cons, Worker.weight,
        Message.weight] at *
      omega
  | finish i =>
    obtain ⟨task, hi, rfl⟩ := finish?_cases hs
    have hw := weight_set (.ending task) hi
    simp only [remaining, setWorker, Worker.weight] at *
    omega
  | signal i =>
    obtain ⟨task, hi, rfl⟩ := signal?_cases hs
    have hw := weight_set .waiting hi
    simp only [remaining, setWorker, Worker.weight] at *
    omega

theorem countP_range_getElem? (tasks : List TaskOutcome) (o : TaskOutcome) :
    (List.range tasks.length).countP (fun task => tasks[task]? = some o) = tasks.count o := by
  induction tasks using List.reverseRecOn with
  | nil => rfl
  | append_singleton tasks last ih =>
    rw [List.length_append, List.length_singleton, List.range_succ, List.countP_append,
      List.count_append, ← ih]
    congr 1
    · exact List.countP_congr fun task ht => by
        rw [List.getElem?_append_left (List.mem_range.mp ht)]
    · by_cases ho : last = o <;> simp [ho]

theorem closed_iff : p.closed ↔ p.closing ∧ ∀ w ∈ p.workers, w = .stopped := by
  simp [closed]

section ends

variable (h : p.Balanced rest s)

include h

theorem Balanced.retired_lt {j : Nat} (hj : j ∈ p.retired) : j < p.workers.length :=
  (List.getElem?_eq_some_iff.mp ((h.stopped j).mp hj)).1

theorem Balanced.retired_subperm : p.retired.Subperm (List.range p.workers.length) :=
  List.subperm_of_subset h.retired fun _ hj => List.mem_range.mpr (h.retired_lt hj)

/-- While a worker of a closing pool waits there is a message for it. -/
theorem Balanced.queue_ne (hc : p.closing) (hi : p.workers[i]? = some .waiting) :
    p.queue ≠ [] := by
  intro hq
  have hs : s = 0 := by
    have hlast := (List.append_eq_nil_iff.mp (h.queue.symm.trans hq)).2
    simpa using hlast
  have hall : p.retired.length = p.workers.length := by simpa [hs, hc] using h.shutdowns
  have hperm := h.retired_subperm.perm_of_length_le (by simp [hall])
  have hlt : i < p.workers.length := (List.getElem?_eq_some_iff.mp hi).1
  have hstopped := (h.stopped i).mp (hperm.mem_iff.mpr (List.mem_range.mpr hlt))
  rw [hi] at hstopped
  cases hstopped

/-- A closing pool goes on until every worker has stopped. -/
theorem Balanced.closed_or_goes_on (hc : p.closing) : p.closed ∨ ∃ e, (p.step? e).isSome := by
  by_cases hall : ∀ w ∈ p.workers, w = .stopped
  · exact .inl (closed_iff.mpr ⟨hc, hall⟩)
  push Not at hall
  obtain ⟨w, hw, hne⟩ := hall
  obtain ⟨i, hi⟩ := List.mem_iff_getElem?.mp hw
  refine .inr ?_
  cases w with
  | waiting =>
    rcases hq : p.queue with _ | ⟨_ | _, q⟩
    · exact absurd hq (h.queue_ne hc hi)
    · exact ⟨.take i, by simp [step?, take?, hi, hq]⟩
    · exact ⟨.take i, by simp [step?, take?, hi, hq]⟩
  | running task => exact ⟨.finish i, by simp [step?, finish?, hi]⟩
  | ending task => exact ⟨.signal i, by simp [step?, signal?, hi]⟩
  | stopped => exact absurd rfl hne

theorem Balanced.signalled_subset : p.signalled ⊆ p.ended := fun _ hmem =>
  h.ended.mem_iff.mpr (List.mem_append_left _ hmem)

theorem Balanced.drain (hc : p.closed) : p.Drained p.submitted p.workers.length := by
  obtain ⟨hclosing, hall⟩ := closed_iff.mp hc
  have hmem : ∀ j, j ∈ p.retired ↔ j ∈ List.range p.workers.length := by
    intro j
    rw [List.mem_range]
    refine ⟨h.retired_lt, fun hj => (h.stopped j).mpr ?_⟩
    rw [List.getElem?_eq_getElem hj, hall _ (List.getElem_mem hj)]
  have hretired := (List.perm_ext_iff_of_nodup h.retired List.nodup_range).mpr hmem
  have hrest : rest = [] := h.drained fun hnil => by
    have hlen := hretired.length_eq
    rw [hnil, List.length_range] at hlen
    exact h.staffed (List.length_eq_zero_iff.mp hlen.symm)
  have hs : s = 0 := by
    have hcount := h.shutdowns
    simp only [hclosing, if_true, hretired.length_eq, List.length_range] at hcount
    omega
  have htaken : p.taken = List.range p.submitted.length := by simpa [hrest] using h.order
  have hrunning : p.workers.filterMap Worker.running? = [] :=
    List.filterMap_eq_nil_iff.mpr fun w hw => by rw [hall w hw]; rfl
  have hending : p.workers.filterMap Worker.ending? = [] :=
    List.filterMap_eq_nil_iff.mpr fun w hw => by rw [hall w hw]; rfl
  have hended : p.ended.Perm (List.range p.submitted.length) := by
    simpa [hrunning, htaken] using h.taken.symm
  have hsignalled : p.signalled.Perm (List.range p.submitted.length) := by
    simpa [hending] using h.ended.symm.trans hended
  exact
    { submitted := rfl
      taken := htaken
      ended := hended
      signalled := hsignalled
      done := fun task ht => by simpa [done, hsignalled.mem_iff] using ht
      returned := (hsignalled.countP_eq _).trans (countP_range_getElem? _ _)
      retired := hretired
      queue := by simpa [hrest, hs] using h.queue }

end ends

/-- A closing pool can always be brought to its end. -/
theorem Balanced.exists_closed (h : p.Balanced rest s) (hc : p.closing) :
    ∃ events, (p.run events).closed := by
  -- By induction on the steps that are left, of which any one that can happen takes one away.
  induction hn : p.remaining using Nat.strongRecOn generalizing p rest s with
  | ind n ih =>
    rcases h.closed_or_goes_on hc with hclosed | ⟨e, he⟩
    · exact ⟨[], hclosed⟩
    obtain ⟨p', hp'⟩ := Option.isSome_iff_exists.mp he
    have hfewer := remaining_succ hc hp'
    have hstep : p.step e = p' := by rw [Pool.step, hp', Option.getD_some]
    obtain ⟨rest', s', h'⟩ := h.step (e := e)
    have hc' : (p.step e).closing := by rw [(step_frame p e).2.1, hc, Bool.true_or]
    rw [hstep] at h' hc'
    obtain ⟨events, hclosed⟩ := ih p'.remaining (by omega) h' hc' rfl
    refine ⟨e :: events, ?_⟩
    rw [Pool.run, List.foldl_cons, hstep]
    exact hclosed

/-- A pool loses nothing and does nothing twice. A task signals its end when it has returned or
panicked and not before, tasks are taken in the order in which they were submitted, and a pool
closes for good when it is told to. From then on it comes to its end, whichever worker goes on at
each step, and there all its work is done. -/
theorem pool_drains (threads : Nat) (events : List PoolEvent) :
    let p := (create threads).run events
    (∀ task, p.done task → task ∈ p.ended) ∧
      p.taken <+: List.range p.submitted.length ∧
      (p.closing ↔ .close ∈ events) ∧
      (p.closing →
        (p.closed ∨ ∃ e, (p.step? e).isSome) ∧
          (∀ e p', p.step? e = some p' → p'.remaining < p.remaining) ∧
          ∃ more, (p.run more).closed) ∧
      (p.closed → p.Drained (PoolEvent.accepted events) (max threads 1)) := by
  intro p
  obtain ⟨rest, s, h⟩ := run_balanced threads events
  obtain ⟨hworkers, hclosing, hsubmitted⟩ := run_frame (create threads) events
  refine ⟨fun task ht => h.signalled_subset (by simpa [done] using ht), ⟨rest, h.order⟩,
    hclosing.trans (or_iff_right Bool.false_ne_true),
    fun hc => ⟨h.closed_or_goes_on hc, fun e p' hs => ?_, h.exists_closed hc⟩, fun hc => ?_⟩
  · have := remaining_succ hc hs
    omega
  · have hdrain := h.drain hc
    rw [hworkers, hsubmitted, create, List.length_replicate] at hdrain
    exact hdrain

/-- Three tasks, of which one panics, in a pool of two workers that is closed behind them. It goes
on with the first task, and when its run is over each task has been taken, has ended and has
signalled, in this order. -/
theorem pool_drains_inOrder :
    let tasks : List TaskOutcome := [.returns, .panics, .returns]
    let closing := (create 2).run (tasks.map .submit ++ [.close])
    let p := (create 2).run (inOrder tasks 2)
    closing.closing ∧
      (∃ p', closing.step? (.take 0) = some p' ∧ p'.remaining < closing.remaining) ∧
      p.closing ∧ p.closed ∧ p.Drained tasks 2 ∧ p.returned = 2 ∧ p.done 1 ∧ 1 ∈ p.ended ∧
      p.taken <+: List.range p.submitted.length := by
  intro tasks closing p
  obtain ⟨-, -, hclosing, hgoesOn, -⟩ := pool_drains 2 (tasks.map .submit ++ [.close])
  obtain ⟨hended, htaken, hclosing', -, hdrained⟩ := pool_drains 2 (inOrder tasks 2)
  have hc : closing.closing := hclosing.mpr (by decide)
  obtain ⟨p', hp'⟩ : ∃ p', closing.step? (.take 0) = some p' := ⟨_, rfl⟩
  have hclosed : p.closed := by decide
  have hdone : p.done 1 := by decide
  exact ⟨hc, ⟨p', hp', (hgoesOn hc).2.1 _ _ hp'⟩, hclosing'.mpr (by decide), hclosed,
    hdrained hclosed, (hdrained hclosed).returned, hdone, hended 1 hdone, htaken⟩

end Pool

end TexturePack
