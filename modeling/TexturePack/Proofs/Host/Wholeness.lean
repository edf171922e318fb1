import Mathlib
import TexturePack.Proofs.Host.Entries

/-! What a crashed load leaves in its entry, and who gets to see it. The entry is free again
before the task comes to empty it, and loads that begin meanwhile list what they find there. -/
namespace TexturePack

namespace Host

/-- The hosts that a chain of actions passes, up to the one with which it ends. -/
inductive Course (src : Sources) : List Host → Host → Prop
  | start : Course src [.start] .start
  | act {past : List Host} {h h' : Host} (hc : Course src past h)
      (ha : Act (Work src) (fun _ => True) h h') : Course src (past ++ [h']) h'

/-- A load of a task, and the host in which it begins. -/
structure Loading where
  host : Host
  task : Nat
  texture : Nat
  attachment : Attachment
  entry : CacheEntry
  cut : Option Nat

namespace Loading

def run (src : Sources) (l : Loading) : LoadRun :=
  loadLevels src l.attachment.request l.cut l.entry.data

/-- The host once the entry is free again. -/
def after (src : Sources) (l : Loading) : Host := l.host.load src l.task l.attachment l.cut

/-- The task has not begun, and its texture asks for the load. -/
structure Ready (l : Loading) : Prop where
  queued : l.host.tasks[l.task]? = some ⟨l.texture, .queued⟩
  attached : ∃ t, l.host.textures[l.texture]? = some t ∧ t.data.attachment = some l.attachment
  found : l.host.entries[l.attachment.entry]? = some l.entry

/-- The load is one of the actions of a course. -/
structure Of (src : Sources) (past : List Host) (l : Loading) : Prop where
  ready : l.Ready
  passed : [l.host, l.after src] <:+: past

theorem Of.mono {src : Sources} {past past' : List Host} {l : Loading} (hl : l.Of src past)
    (hpast : past <+: past') : l.Of src past' :=
  ⟨hl.ready, hl.passed.trans hpast.isInfix⟩

theorem Of.mem {src : Sources} {past : List Host} {l : Loading} (hl : l.Of src past) :
    l.host ∈ past :=
  hl.passed.subset List.mem_cons_self

end Loading
end Host

namespace LevelData

/-- No bytes, or what loads of a course have made of none that have all ended well. -/
inductive Whole (src : Sources) (past : List Host) : LevelData → Prop
  | empty {d : LevelData} (hempty : d.isEmpty = true) : Whole src past d
  | load {l : Host.Loading} {o : LoadOutcome} (hl : l.Of src past)
      (ho : (l.run src).outcome = some o) (hfound : Whole src past l.entry.data) :
      Whole src past (l.run src).entry

namespace Whole

variable {src : Sources} {past past' : List Host} {d : LevelData}

theorem mono (hd : d.Whole src past) (hpast : past <+: past') : d.Whole src past' := by
  induction hd with
  | empty hempty => exact .empty hempty
  | load hl ho _ ih => exact .load (hl.mono hpast) ho ih

/-- Loads that end well say in which format their bytes are. -/
theorem format_ne_undefined (hd : d.Whole src past) (hfilled : d.isEmpty = false) :
    d.format ≠ .undefined := by
  induction hd with
  | empty hempty =>
    rw [hempty] at hfilled
    cases hfilled
  | @load l o _ ho _ ih =>
    rcases hempty : l.entry.data.isEmpty with _ | _
    case true => exact format_of_filled hempty ho hfilled
    rcases loadLevels_format src l.attachment.request l.cut l.entry.data with hsame | hallowed
    · exact hsame ▸ ih hempty
    · exact Support.ne_undefined hallowed

/-- What a load lists of a whole entry has a format. -/
theorem outcome_format_ne_undefined (hd : d.Whole src past) {r : Request} {cut : Option Nat}
    {o : LoadOutcome} (ho : (loadLevels src r cut d).outcome = some o) (hlevels : o.levels ≠ []) :
    o.format ≠ .undefined := by
  have hformat := format_of_load ho hlevels
  rcases hhas : d.has 0 with _ | _
  case true =>
    rw [hhas, if_pos rfl] at hformat
    rw [hformat]
    exact hd.format_ne_undefined (isEmpty_of_has hhas)
  rw [hhas] at hformat
  exact Support.ne_undefined hformat

end Whole
end LevelData

theorem CacheEntry.isEmpty_discard (c : CacheEntry) : c.discard.data.isEmpty = true := by
  unfold CacheEntry.discard
  split
  next hempty => exact hempty
  · rfl

namespace Host

variable {src : Sources} {ok : Attachment → Prop} {past : List Host} {h h' : Host}

section idle

/-- Nothing is loaded: an entry keeps its levels or has no bytes, and no task has the outcome of a
load that it has not had before. -/
structure Idle (h h' : Host) : Prop where
  entries : ∀ (e : Nat) (c' : CacheEntry), h'.entries[e]? = some c' →
    c'.data.isEmpty = true ∨ ∃ c, h.entries[e]? = some c ∧ c'.data = c.data
  tasks : ∀ (k i : Nat) (o : LoadOutcome) (g : Nat), h'.tasks[k]? = some ⟨i, .loaded o g⟩ →
    h.tasks[k]? = some ⟨i, .loaded o g⟩

theorem entries_of_modify {n e : Nat} {f : CacheEntry → CacheEntry} {c' : CacheEntry}
    (hentries : h'.entries = h.entries.modify n f)
    (hf : ∀ c, (f c).data.isEmpty = true ∨ (f c).data = c.data) (hc' : h'.entries[e]? = some c') :
    c'.data.isEmpty = true ∨ ∃ c, h.entries[e]? = some c ∧ c'.data = c.data := by
  rw [hentries, List.getElem?_modify] at hc'
  obtain ⟨c, hc, rfl⟩ := Option.map_eq_some_iff.mp hc'
  split
  · exact (hf c).imp_right fun hsame => ⟨c, hc, hsame⟩
  · exact .inr ⟨c, hc, rfl⟩

theorem idle_of_modify {n : Nat} {f : CacheEntry → CacheEntry}
    (hentries : h'.entries = h.entries.modify n f)
    (hf : ∀ c, (f c).data.isEmpty = true ∨ (f c).data = c.data) (htasks : h'.tasks = h.tasks) :
    Idle h h' :=
  ⟨fun _ _ => entries_of_modify hentries hf, fun _ _ _ _ hk => htasks ▸ hk⟩

theorem idle_of_same (hentries : h'.entries = h.entries) (htasks : h'.tasks = h.tasks) :
    Idle h h' :=
  idle_of_modify (hentries.trans (List.modify_id 0 _).symm) (fun _ => .inr rfl) htasks

/-- A task that moves on without a load brings no outcome. -/
theorem Idle.setProgress (hi : Idle h h') {k : Nat} {p : Progress} (hp : ∀ o g, p ≠ .loaded o g) :
    Idle h (h'.setProgress k p) := by
  refine ⟨hi.entries, fun k' i o g hk' => hi.tasks k' i o g ?_⟩
  simp only [Host.setProgress, List.getElem?_modify] at hk'
  obtain ⟨t, ht, heq⟩ := Option.map_eq_some_iff.mp hk'
  split at heq
  · cases heq
    exact absurd rfl (hp o g)
  · rw [ht]
    exact congrArg some heq

theorem commit_idle (h : Host) (i : Nat) (o : LoadOutcome) (g : Nat) (now : Instant) :
    Idle h (h.commit i o g now) := by
  rcases ha : h.textures[i]?.bind fun t => t.data.attachment with _ | a
  · refine idle_of_same ?_ (commit_tasks ..)
    simp only [Host.commit, ha]
  · refine idle_of_modify (n := a.entry) (f := fun c => c.touch now) ?_ (fun c => .inr rfl)
      (commit_tasks ..)
    simp only [Host.commit, ha]
    exact releaseLevels_entries ..

theorem discardEntry_idle (h : Host) (i : Nat) : Idle h (h.discardEntry i) := by
  unfold discardEntry
  split
  · exact idle_of_same rfl rfl
  · exact idle_of_modify rfl (fun c => .inl c.isEmpty_discard) rfl

end idle

theorem Work.loads_or_idle (hw : Work src h h') :
    (∃ l : Loading, l.Ready ∧ l.host = h ∧ h' = l.after src) ∨ Idle h h' := by
  cases hw with
  | @load k i t a c hk ht ha hc cut =>
    exact .inl ⟨⟨h, k, i, a, c, cut⟩, ⟨hk, ⟨t, ht, ha⟩, hc⟩, rfl, rfl⟩
  | skip | lose | signal => exact .inr ((idle_of_same rfl rfl).setProgress (by simp))
  | @publish k i found =>
    have hsame : Idle h (h.publish i found) := idle_of_same rfl rfl
    exact .inr (hsame.setProgress (by simp))
  | commit _ now => exact .inr ((commit_idle ..).setProgress (by simp))
  | discard => exact .inr ((discardEntry_idle ..).setProgress (by simp))
  | @release k i =>
    have hsame : Idle h (h.releaseLevels i) :=
      idle_of_same (releaseLevels_entries ..) (releaseLevels_tasks ..)
    exact .inr (hsame.setProgress (by simp))

theorem Act.loads_or_idle (ha : Act (Work src) ok h h') :
    (∃ l : Loading, l.Ready ∧ l.host = h ∧ h' = l.after src) ∨ Idle h h' := by
  cases ha with
  | work hw => exact hw.loads_or_idle
  | createEntry now =>
    refine .inr ⟨fun e c' hc' => ?_, fun _ _ _ _ => id⟩
    change (h.entries ++ [CacheEntry.create now])[e]? = some c' at hc'
    rcases Nat.lt_or_ge e h.entries.length with hlt | hge
    · rw [List.getElem?_append_left hlt] at hc'
      exact .inr ⟨c', hc', rfl⟩
    · rw [List.getElem?_append_right hge] at hc'
      obtain rfl := List.mem_singleton.mp (List.mem_of_getElem? hc')
      exact .inl rfl
  | touch e now => exact .inr (idle_of_modify rfl (fun c => .inr rfl) rfl)
  | purge e threshold held =>
    refine .inr (idle_of_modify rfl (fun c => ?_) rfl)
    unfold CacheEntry.purgeIfOlder
    split
    · exact .inl c.isEmpty_discard
    · exact .inr rfl
  | createTexture | attach | use | join | revert | beginDrop | leave | note | dropContext =>
    exact .inr (idle_of_same rfl rfl)
  | @submit i t ht hstate hown =>
    right
    rw [startDecode_eq]
    split
    · refine ⟨fun e c' hc' => .inr ⟨c', hc', rfl⟩, fun k j o g hk => ?_⟩
      rcases tasks_of_enqueue hk with hk' | ⟨rfl, -⟩
      · exact hk'
      · change (h.tasks ++ [_])[h.tasks.length]? = _ at hk
        rw [List.getElem?_concat_length] at hk
        cases hk
    · exact idle_of_same rfl rfl

/-- A load into an entry has crashed, and its task has not come to empty the entry. -/
def Unsettled (h : Host) (e : Nat) : Prop :=
  ∃ (k i : Nat) (t : Texture) (a : Attachment), h.tasks[k]? = some ⟨i, .crashed⟩ ∧
    h.textures[i]? = some t ∧ t.data.attachment = some a ∧ a.entry = e

/-- Only the step that empties the entry takes a task on from a crash. -/
theorem Work.crashed (hw : Work src h h') {k i : Nat} (hk : h.tasks[k]? = some ⟨i, .crashed⟩) :
    h'.tasks[k]? = some ⟨i, .crashed⟩ ∨ h' = (h.discardEntry i).setProgress k .discarded := by
  have hother {h₁ : Host} {k₀ i₀ : Nat} {q p : Progress} (hk₀ : h.tasks[k₀]? = some ⟨i₀, q⟩)
      (hq : k₀ = k → q ≠ .crashed) (htasks : h₁.tasks = h.tasks) :
      (h₁.setProgress k₀ p).tasks[k]? = some ⟨i, .crashed⟩ := by
    have hne : k₀ ≠ k := by
      rintro rfl
      rw [hk] at hk₀
      cases hk₀
      exact hq rfl rfl
    rw [Host.setProgress, List.getElem?_modify_ne _ _ hne, htasks, hk]
  cases hw with
  | @discard k₀ i₀ hk₀ =>
    by_cases heq : k₀ = k
    · subst heq
      rw [hk] at hk₀
      cases hk₀
      exact .inr rfl
    · exact .inl (hother hk₀ (absurd · heq) (discardEntry_tasks ..))
  | load hk₀ ht ha hc cut =>
    rw [load_eq hc]
    exact .inl (hother hk₀ (by simp) rfl)
  | skip hk₀ | lose hk₀ | signal hk₀ | publish hk₀ => exact .inl (hother hk₀ (by simp) rfl)
  | commit hk₀ now => exact .inl (hother hk₀ (by simp) (commit_tasks ..))
  | release hk₀ => exact .inl (hother hk₀ (by simp) (releaseLevels_tasks ..))

/-- A texture keeps its request while its task is under way. -/
theorem Act.attachment (hs : h.Sound) (ha : Act (Work src) ok h h') {i : Nat} {t : Texture}
    (hi : h.textures[i]? = some t) (htask : t.task ≠ none) :
    ∃ t', h'.textures[i]? = some t' ∧ t'.data.attachment = t.data.attachment := by
  have hmodify {j : Nat} {f : Texture → Texture}
      (hf : h.textures[j]? = some t → (f t).data.attachment = t.data.attachment) :
      ∃ t', (h.textures.modify j f)[i]? = some t' ∧ t'.data.attachment = t.data.attachment := by
    rw [List.getElem?_modify, hi]
    refine ⟨_, rfl, ?_⟩
    split
    next hji => exact hf (hji ▸ hi)
    · rfl
  cases ha with
  | work hw =>
    obtain ⟨k, j, q, p, f, -, hm, htextures, -⟩ := hw.move
    rw [htextures]
    exact hmodify fun _ => hm.attachment t
  | createTexture now =>
    exact ⟨t, (List.getElem?_append_left (List.getElem?_eq_some_iff.mp hi).1).trans hi, rfl⟩
  | createEntry | touch | purge | note | dropContext => exact ⟨t, hi, rfl⟩
  | @attach j a hok hattach =>
    refine hmodify fun hj => absurd ((hs.texture i t hi).idle ?_) htask
    simpa [attachable, hj, Texture.populatable] using (Bool.and_eq_true_iff.mp hattach).1
  | use | join | revert | leave => exact hmodify fun _ => rfl
  | beginDrop j =>
    refine hmodify fun _ => ?_
    unfold Texture.beginDrop
    split <;> rfl
  | submit =>
    rw [startDecode_eq]
    split
    · exact hmodify fun _ => rfl
    · exact hmodify fun _ => rfl

/-- An entry stays unsettled until it is emptied. -/
theorem Unsettled.act {e : Nat} (hu : h.Unsettled e) (hs : h.Sound)
    (ha : Act (Work src) ok h h') :
    h'.Unsettled e ∨ ∀ c', h'.entries[e]? = some c' → c'.data.isEmpty = true := by
  obtain ⟨k, i, t, a, hk, hi, hattached, rfl⟩ := hu
  obtain ⟨t₀, hi₀, htask⟩ := hs.held k i _ hk (by simp)
  obtain rfl := Option.some.inj (hi.symm.trans hi₀)
  obtain ⟨t', hi', hsame⟩ := ha.attachment hs hi (by simp [htask])
  have hstays (hk' : h'.tasks[k]? = some ⟨i, .crashed⟩) : h'.Unsettled a.entry :=
    ⟨k, i, t', a, hk', hi', hsame.trans hattached, rfl⟩
  cases ha with
  | work hw =>
    rcases hw.crashed hk with hk' | rfl
    · exact .inl (hstays hk')
    right
    intro c' hc'
    have hbind : (h.textures[i]?.bind fun t => t.data.attachment) = some a := by
      rw [hi]
      exact hattached
    simp only [setProgress, discardEntry, hbind, modifyEntry, List.getElem?_modify_eq] at hc'
    obtain ⟨c, -, rfl⟩ := Option.map_eq_some_iff.mp hc'
    exact c.isEmpty_discard
  | submit =>
    refine .inl (hstays ?_)
    rw [startDecode_eq]
    split
    · exact (enqueue_tasks_of_lt (List.getElem?_eq_some_iff.mp hk).1).trans hk
    · exact hk
  | createTexture | createEntry | attach | use | touch | purge | join | revert | beginDrop | leave
    | note | dropContext => exact .inl (hstays hk)

/-- A load that ends well makes a whole entry of a whole one. After any other its entry is
unsettled. -/
theorem Loading.Ready.settles {l : Loading} (hl : l.Ready) :
    (∃ o, (l.run src).outcome = some o) ∨ (l.after src).Unsettled l.attachment.entry := by
  obtain ⟨t, ht, ha⟩ := hl.attached
  rcases ho : (l.run src).outcome with _ | o
  · refine .inr ⟨l.task, l.texture, t, l.attachment, ?_, ?_, ha, rfl⟩
    · rw [Loading.run] at ho
      simp only [Loading.after, load_eq hl.found, setProgress, landing, ho,
        List.getElem?_modify_eq]
      exact congrArg (Option.map _) hl.queued
    · rw [Loading.after, load_eq hl.found]
      exact ht
  · exact .inl ⟨o, rfl⟩

theorem Loading.Ready.entries_after {l : Loading} (hl : l.Ready) (e : Nat) :
    (l.after src).entries[e]? =
      if e = l.attachment.entry then some { l.entry with data := (l.run src).entry }
      else l.host.entries[e]? := by
  rw [Loading.after, load_eq hl.found]
  simp only [setProgress, modifyEntry, List.getElem?_modify]
  split
  next heq =>
    subst heq
    rw [if_pos rfl, hl.found]
    rfl
  next hne =>
    rw [if_neg (Ne.symm hne)]
    exact Option.map_id' ..

namespace Course

theorem sound (hc : Course src past h) : h.Sound := by
  induction hc with
  | start => exact sound_start
  | act _ ha ih => exact ih.act ha

/-- A course ends with its last host. -/
theorem ends (hc : Course src past h) : ∃ before, past = before ++ [h] := by
  cases hc with
  | start => exact ⟨[], rfl⟩
  | act => exact ⟨_, rfl⟩

/-- What a course has passed before one of its hosts is the course to this one. -/
theorem to_host (hc : Course src past h) {h₀ : Host} (hmem : h₀ ∈ past) :
    ∃ before, Course src before h₀ ∧ before <+: past := by
  induction hc with
  | start =>
    obtain rfl := List.mem_singleton.mp hmem
    exact ⟨_, .start, List.prefix_rfl⟩
  | @act past h h' hc ha ih =>
    rcases List.mem_append.mp hmem with hbefore | hlast
    · obtain ⟨before, hc₀, hprefix⟩ := ih hbefore
      exact ⟨before, hc₀, hprefix.trans (List.prefix_append ..)⟩
    · obtain rfl := List.mem_singleton.mp hlast
      exact ⟨_, hc.act ha, List.prefix_rfl⟩

theorem acts (hc : Course src past h) (ha : Acts src (fun _ => True) h h') :
    ∃ past', Course src past' h' := by
  induction ha with
  | refl => exact ⟨past, hc⟩
  | tail _ hact ih =>
    obtain ⟨past', hc'⟩ := ih
    exact ⟨_, hc'.act hact⟩

/-- A load with which a course goes on belongs to the longer course. -/
theorem loading_of (hc : Course src past h) {l : Loading} (hl : l.Ready) (hhost : l.host = h) :
    l.Of src (past ++ [l.after src]) := by
  obtain ⟨before, rfl⟩ := hc.ends
  refine ⟨hl, before, [], ?_⟩
  rw [hhost]
  simp

/-- An entry whose last crashed load has been cleared away is whole. -/
theorem unsettled_or_whole (hc : Course src past h) :
    ∀ (e : Nat) (c : CacheEntry), h.entries[e]? = some c →
      h.Unsettled e ∨ c.data.Whole src past := by
  induction hc with
  | start => simp [Host.start]
  | @act past h h' hc ha ih =>
    intro e c' hc'
    have hprefix : past <+: past ++ [h'] := List.prefix_append ..
    -- What was unsettled only changes by being emptied, whoever else loads into it.
    by_cases hu : h.Unsettled e
    · exact (hu.act hc.sound ha).imp_right fun hempty => .empty (hempty c' hc')
    have hbefore {c : CacheEntry} (hentry : h.entries[e]? = some c) :
        c.data.Whole src (past ++ [h']) :=
      ((ih e c hentry).resolve_left hu).mono hprefix
    rcases ha.loads_or_idle with ⟨l, hl, rfl, rfl⟩ | hidle
    · rw [hl.entries_after] at hc'
      split at hc'
      next heq =>
        subst heq
        cases hc'
        rcases hl.settles with ⟨o, ho⟩ | hunsettled
        · exact .inr (.load (hc.loading_of hl rfl) ho (hbefore hl.found))
        · exact .inl hunsettled
      · exact .inr (hbefore hc')
    · rcases hidle.entries e c' hc' with hempty | ⟨c, hentry, hsame⟩
      · exact .inr (.empty hempty)
      · rw [hsame]
        exact .inr (hbefore hentry)

end Course

section offered

/-- The levels and the format of a texture are what it shows, or will show with the next step of
its task. -/
def Offered (h : Host) (t : Texture) : Prop :=
  h.heldProgress t = some (.committed true) ∨ t.state = .active ∧ t.ownership ≠ .dropped

/-- Where the levels and the format come from that a texture offers: it has offered them before, or
its task has just loaded them. -/
inductive Origin (h : Host) (i : Nat) (d : TextureData) : Prop
  | kept {t : Texture} (hi : h.textures[i]? = some t) (hoffered : h.Offered t)
      (hlevels : d.levels = t.data.levels) (hformat : d.format = t.data.format)
  | loaded {k : Nat} {o : LoadOutcome} {g : Nat} (hk : h.tasks[k]? = some ⟨i, .loaded o g⟩)
      (hlevels : d.levels = o.levels) (hformat : d.format = o.format)

theorem origin_of_modify {i j : Nat} {f : Texture → Texture} {t' : Texture}
    (hi : (h.modifyTexture j f).textures[i]? = some t') (hoffered : h.Offered t')
    (hf : ∀ t, h.textures[j]? = some t → h.Offered (f t) →
      h.Offered t ∧ (f t).data.levels = t.data.levels ∧ (f t).data.format = t.data.format) :
    h.Origin i t'.data := by
  obtain ⟨t, ht, ⟨rfl, rfl⟩ | ⟨-, rfl⟩⟩ := textures_of_modifyTexture hi
  · obtain ⟨hbefore, hlevels, hformat⟩ := hf t ht hoffered
    exact .kept ht hbefore hlevels hformat
  · exact .kept ht hoffered rfl rfl

/-- A texture without a task offers only what it shows. -/
theorem not_offered {t : Texture} (hidle : t.task = none)
    (hstate : t.state ≠ .active ∨ t.ownership = .dropped) : ¬h.Offered t := by
  rintro (hheld | ⟨hactive, howned⟩)
  · rw [heldProgress_of_idle hidle] at hheld
    cases hheld
  · exact hstate.elim (· hactive) howned

/-- A texture that begins to go away offers nothing new. -/
theorem offered_of_beginDrop {t : Texture} (hoffered : h.Offered t.beginDrop) : h.Offered t := by
  unfold Texture.beginDrop at hoffered
  split at hoffered
  · exact hoffered
  next howned =>
    rcases hoffered with hheld | hactive
    · exact .inl hheld
    · refine .inr ⟨?_, by simp [not_not.mp howned]⟩
      rcases htask : t.task.isSome with _ | _
      · simpa [htask] using hactive.1
      · simp [htask] at hactive

theorem Work.origin (hw : Work src h h') (hs : h.Sound) {i : Nat} {t' : Texture}
    (hi : h'.textures[i]? = some t') (hoffered : h'.Offered t') : h.Origin i t'.data := by
  obtain ⟨k, j, q, p, f, hk, hm, htextures, htasks, -⟩ := hw.move
  obtain ⟨t, ht⟩ := hw.texture_before hi
  rcases hs.move_texture hk hm htextures htasks ht with
    ⟨hsame, hheld⟩ | ⟨rfl, htask, hq, hnext, hp⟩
  · obtain rfl := Option.some.inj (hsame.symm.trans hi)
    rw [Offered, hheld] at hoffered
    exact .kept ht hoffered rfl rfl
  obtain rfl := Option.some.inj (hnext.symm.trans hi)
  have hsound := hs.texture j t ht
  rw [hq] at hsound
  rw [Offered, hp] at hoffered
  cases hm with
  | load | crash | skip | lose | discard | release =>
    -- The texture waits for a task that has not come to offer anything.
    have hstate := underway hsound htask (by simp) (by simp)
    rcases hoffered with hfound | ⟨hactive, -⟩
    · simp at hfound
    · rcases hstate with hs | hs <;> simp [Texture.release, hs] at hactive
  | commit o g =>
    have hstate := underway hsound htask (by simp) (by simp)
    obtain ⟨a, ha⟩ := Option.isSome_iff_exists.mp
      (hsound.attached (by rcases hstate with hs | hs <;> simp [hs]))
    refine .loaded hk ?_ ?_ <;> simp [Texture.take, ha, TextureData.commit]
  | publish found =>
    cases found with
    | true => exact .kept ht (.inl hq) rfl rfl
    | false =>
      have hstate := underway hsound htask (by simp) (by simp)
      rcases hoffered with hfound | ⟨hactive, -⟩
      · simp at hfound
      · rcases hstate with hs | hs <;>
          simp [Texture.publish, TextureState.publish, hs] at hactive
  | signal =>
    rcases hoffered with hfound | hactive
    · simp at hfound
    · exact .kept ht (.inr hactive) rfl rfl

theorem Act.origin (ha : Act (Work src) ok h h') (hs : h.Sound) {i : Nat} {t' : Texture}
    (hi : h'.textures[i]? = some t') (hoffered : h'.Offered t') : h.Origin i t'.data := by
  cases ha with
  | work hw => exact hw.origin hs hi hoffered
  | createEntry | touch | purge | note | dropContext => exact .kept hi hoffered rfl rfl
  | createTexture now =>
    rcases textures_of_createTexture hi with hi | rfl
    · exact .kept hi hoffered rfl rfl
    · exact absurd hoffered (not_offered rfl (.inl (by simp [Texture.create])))
  | @attach j a hok hattach =>
    refine origin_of_modify hi hoffered fun t hj hoff => absurd hoff (not_offered ?_ ?_)
    · apply (hs.texture j t hj).idle
      simpa [attachable, hj, Texture.populatable] using (Bool.and_eq_true_iff.mp hattach).1
    · exact .inl (by simp [Texture.attach])
  | use j now => exact origin_of_modify hi hoffered fun t _ hoff => ⟨hoff, rfl, rfl⟩
  | join ht hk hp =>
    refine origin_of_modify hi hoffered fun t _ hoff => ⟨.inr ?_, rfl, rfl⟩
    rcases hoff with hheld | hactive
    · cases hheld
    · exact hactive
  | @revert j t hj hnone hstate =>
    refine origin_of_modify hi hoffered fun t' hj' hoff => absurd hoff (not_offered ?_ ?_)
    · obtain rfl := Option.some.inj (hj.symm.trans hj')
      exact hnone
    · exact .inl (by simp)
  | @submit j t hj hstate hown =>
    rw [startDecode_eq] at hi hoffered
    split at hi
    next halive =>
      rw [if_pos halive] at hoffered
      obtain ⟨t₀, ht₀, ⟨rfl, rfl⟩ | ⟨-, rfl⟩⟩ := textures_of_modifyTexture hi
      · rw [Offered, heldProgress_enqueue] at hoffered
        simp at hoffered
      · have hheld : (h.enqueue j).heldProgress t' = h.heldProgress t' :=
          hs.heldProgress_append ht₀
        rw [Offered, hheld] at hoffered
        exact .kept ht₀ hoffered rfl rfl
    next halive =>
      rw [if_neg halive] at hoffered
      refine origin_of_modify hi hoffered fun t' hj' hoff => absurd hoff (not_offered ?_ ?_)
      · obtain rfl := Option.some.inj (hj.symm.trans hj')
        exact (hs.texture j t hj).idle (.inr hstate)
      · exact .inl (by simp)
  | beginDrop j =>
    refine origin_of_modify hi hoffered fun t _ hoff => ⟨offered_of_beginDrop hoff, ?_⟩
    unfold Texture.beginDrop
    split <;> exact ⟨rfl, rfl⟩
  | @leave j t hj hnone =>
    refine origin_of_modify hi hoffered fun t' hj' hoff => absurd hoff (not_offered ?_ ?_)
    · obtain rfl := Option.some.inj (hj.symm.trans hj')
      exact hnone
    · exact .inr rfl

end offered

/-- A load of a course for a texture ended well. -/
def Loading.Gave (src : Sources) (past : List Host) (i : Nat) (o : LoadOutcome) (l : Loading) :
    Prop :=
  l.Of src past ∧ l.texture = i ∧ (l.run src).outcome = some o

/-- Whatever tasks have loaded and textures offer is the outcome of a load of the course. -/
structure Backed (src : Sources) (past : List Host) (h : Host) : Prop where
  loaded : ∀ (k i : Nat) (o : LoadOutcome) (g : Nat), h.tasks[k]? = some ⟨i, .loaded o g⟩ →
    ∃ l : Loading, l.Gave src past i o
  offered : ∀ (i : Nat) (t : Texture), h.textures[i]? = some t → h.Offered t →
    ∃ (l : Loading) (o : LoadOutcome), l.Gave src past i o ∧ t.data.levels = o.levels ∧
      t.data.format = o.format

/-- After a load its own task has the outcome, and every other what it had before. -/
theorem Loading.Ready.loaded_after {l : Loading} (hl : l.Ready) {k i : Nat} {o : LoadOutcome}
    {g : Nat} (hk : (l.after src).tasks[k]? = some ⟨i, .loaded o g⟩) :
    l.texture = i ∧ (l.run src).outcome = some o ∨
      l.host.tasks[k]? = some ⟨i, .loaded o g⟩ := by
  rw [Loading.after, load_eq hl.found] at hk
  simp only [setProgress, List.getElem?_modify] at hk
  obtain ⟨task, htask, heq⟩ := Option.map_eq_some_iff.mp hk
  change l.host.tasks[k]? = some task at htask
  split at heq
  next hown =>
    rw [← hown, hl.queued] at htask
    cases htask
    left
    rw [Loading.run]
    unfold landing at heq
    split at heq
    · cases heq
    next o' ho =>
      cases heq
      exact ⟨rfl, ho⟩
  · rw [htask]
    exact .inr (congrArg some heq)

namespace Course

theorem backed (hc : Course src past h) : h.Backed src past := by
  induction hc with
  | start => exact ⟨by simp [Host.start], by simp [Host.start]⟩
  | @act past h h' hc ha ih =>
    have hprefix : past <+: past ++ [h'] := List.prefix_append ..
    have hbefore {k i : Nat} {o : LoadOutcome} {g : Nat}
        (hk : h.tasks[k]? = some ⟨i, .loaded o g⟩) :
        ∃ l : Loading, l.Gave src (past ++ [h']) i o := by
      obtain ⟨l, hof, hgave⟩ := ih.loaded k i o g hk
      exact ⟨l, hof.mono hprefix, hgave⟩
    constructor
    · intro k i o g hk
      rcases ha.loads_or_idle with ⟨l, hl, rfl, rfl⟩ | hidle
      · rcases hl.loaded_after hk with hown | hother
        · exact ⟨l, hc.loading_of hl rfl, hown⟩
        · exact hbefore hother
      · exact hbefore (hidle.tasks k i o g hk)
    · intro i t hi hoffered
      cases ha.origin hc.sound hi hoffered with
      | loaded hk hlevels hformat =>
        obtain ⟨l, hgave⟩ := hbefore hk
        exact ⟨l, _, hgave, hlevels, hformat⟩
      | kept hi₀ hoffered₀ hlevels hformat =>
        obtain ⟨l, o, ⟨hof, hgave⟩, hlevels₀, hformat₀⟩ := ih.offered i _ hi₀ hoffered₀
        exact ⟨l, o, ⟨hof.mono hprefix, hgave⟩, hlevels.trans hlevels₀,
          hformat.trans hformat₀⟩

/-- Every run of the host is a course. -/
theorem run (src : Sources) (events : List (Instant × HostEvent)) :
    ∃ past, Course src past (Host.start.run src events) :=
  Course.start.acts (run_acts Host.start fun _ _ _ _ => trivial)

end Course

/-- Wherever an entry is free, it has no bytes but those of loads that have ended well, and then it
says in which format they are, unless a load into it has crashed whose task has not come to empty
it. An active texture shows what a load for it has listed of such an entry, in a format, unless
the load began where a crashed one had not been cleared away. -/
theorem whole_unless_unsettled (hc : Course src past h) :
    (∀ (e : Nat) (c : CacheEntry), h.entries[e]? = some c →
        h.Unsettled e ∨ c.data.Whole src past ∧
          (c.data.isEmpty = false → c.data.format ≠ .undefined)) ∧
      ∀ (i : Nat) (t : Texture), h.textures[i]? = some t → t.state = .active →
        t.ownership ≠ .dropped →
        ∃ (l : Loading) (o : LoadOutcome), l.Gave src past i o ∧ t.data.levels = o.levels ∧
          t.data.format = o.format ∧
          (l.host.Unsettled l.attachment.entry ∨
            l.entry.data.Whole src past ∧ t.data.format ≠ .undefined) := by
  constructor
  · intro e c hentry
    exact (hc.unsettled_or_whole e c hentry).imp_right fun hwhole =>
      ⟨hwhole, hwhole.format_ne_undefined⟩
  · intro i t hi hactive howned
    obtain ⟨l, o, hgave, hlevels, hformat⟩ := hc.backed.offered i t hi (.inr ⟨hactive, howned⟩)
    refine ⟨l, o, hgave, hlevels, hformat, ?_⟩
    obtain ⟨hof, -, ho⟩ := hgave
    -- The invariant held already where the load began.
    obtain ⟨before, hbefore, hprefix⟩ := hc.to_host hof.mem
    refine (hbefore.unsettled_or_whole _ _ hof.ready.found).imp_right fun hwhole =>
      ⟨hwhole.mono hprefix, ?_⟩
    rw [hformat]
    exact hwhole.outcome_format_ne_undefined ho
      (hlevels ▸ ((hc.sound.texture i t hi).active hactive howned).1)

/-- A universal texture on a backend that crashes at the second of its levels. -/
def crashingLate : Sources where
  files := (Sources.single universalFile).files
  transcoder := some (.ofLevels (fun _ => true) fun _ _ level _ =>
    if level = 0 then .filled fun _ => 0 else .crashed)

/-- Two textures share an entry. The load of the first crashes, and before its task does anything
about it the other texture is polled. -/
def overtaking : List (Instant × HostEvent) :=
  let now := Instant.ofSeconds 0
  let a : Attachment := ⟨.unscaled ["a.ktx2"] .desktop "", 0⟩
  [(now, .createEntry), (now, .createTexture), (now, .createTexture), (now, .populate 0 a),
    (now, .populate 1 a), (now, .poll 0 ⟨0⟩ [.advance 0]),
    (now, .poll 1 ⟨0⟩ (List.replicate 5 (.advance 1)))]

/-- The entry is unsettled, and the second texture shows in no format what a load of its own has
listed of an unsettled entry. -/
theorem whole_unless_unsettled_overtaking :
    let h := start.run crashingLate overtaking
    ∃ past, Course crashingLate past h ∧ h.Unsettled 0 ∧
      ∃ t, h.textures[1]? = some t ∧ t.state = .active ∧ t.ownership ≠ .dropped ∧
        t.data.levels.map LevelRecord.size = [(8, 8)] ∧ t.data.format = .undefined ∧
        ∃ (l : Loading) (o : LoadOutcome), l.Gave crashingLate past 1 o ∧
          t.data.levels = o.levels ∧ t.data.format = o.format ∧
          l.host.Unsettled l.attachment.entry := by
  intro h
  obtain ⟨past, hc⟩ := Course.run crashingLate overtaking
  obtain ⟨hentries, htextures⟩ := whole_unless_unsettled hc
  obtain ⟨c, hentry, hc'⟩ := Option.map_eq_some_iff.mp (show
    h.entries[0]?.map (fun c => (c.data.isEmpty, c.data.format)) = some (false, .undefined) by
      decide +kernel)
  obtain ⟨hfilled, hcformat⟩ := Prod.mk.inj hc'
  obtain ⟨t, htexture, ht'⟩ := Option.map_eq_some_iff.mp (show
    h.textures[1]?.map (fun t =>
      (t.state, t.ownership, t.data.levels.map LevelRecord.size, t.data.format)) =
        some (.active, .owned, [(8, 8)], .undefined) by decide +kernel)
  simp only [Prod.mk.injEq] at ht'
  obtain ⟨hactive, howned, hsizes, htformat⟩ := ht'
  have howned' : t.ownership ≠ .dropped := by simp [howned]
  have hunsettled : h.Unsettled 0 :=
    (hentries 0 c hentry).resolve_right fun hwhole => hwhole.2 hfilled hcformat
  obtain ⟨l, o, hgave, hlevels, hformat, horigin⟩ := htextures 1 t htexture hactive howned'
  exact ⟨past, hc, hunsettled, t, htexture, hactive, howned', hsizes, htformat, l, o, hgave,
    hlevels, hformat, horigin.resolve_right fun hwhole => hwhole.2 htformat⟩

/-- What the crashed load has stored of the file is shown by the other texture, in no format. -/
theorem half_written_entry_is_shown :
    let h := start.run crashingLate overtaking
    h.progress? 0 = some .crashed ∧
      h.entries.map (fun c => (c.data.levels.map List.length, c.data.format)) =
        [([32], .undefined)] ∧
      h.textures[1]?.map (fun t => (t.state, t.data.levels.map LevelRecord.size, t.data.format)) =
        some (.active, [(8, 8)], .undefined) := by
  decide +kernel

end Host
end TexturePack
