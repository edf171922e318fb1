import Mathlib
import TexturePack.Proofs.Host.Lifecycle
import TexturePack.Proofs.LevelCache
import TexturePack.Proofs.Load.Formats

/-! The cache entries that textures share: what an action can do to an entry, and which entry
a texture knows of. -/
namespace TexturePack

/-- An image of one pixel. -/
def onePixel : Bytes :=
  ZimHeader.mark ++ [1, 0, 0, 0, 1, 0, 0, 0, 0, 0, 0, 0, 1, 2, 3, 255]

namespace TextureData

/-- The request of a texture satisfies `ok`, and the texture knows of the entry of its request
and no other. -/
structure Bound (ok : Attachment → Prop) (entries : Nat) (d : TextureData) : Prop where
  attached : ∀ a, d.attachment = some a → ok a ∧ a.entry < entries
  cached : ∀ e, d.cache = some e → ∃ a, d.attachment = some a ∧ a.entry = e

/-- What one action can make of the fields of a texture. -/
inductive Rewrite (ok : Attachment → Prop) (entries : Nat) (d : TextureData) : TextureData → Prop
  | keep : Rewrite ok entries d d
  | clear : Rewrite ok entries d { d with levels := [] }
  | attach {a : Attachment} (hok : ok a) (hentry : a.entry < entries) :
      Rewrite ok entries d (d.attach a)
  | commit {a : Attachment} (ha : d.attachment = some a) (o : LoadOutcome) (generation : Nat) :
      Rewrite ok entries d (d.commit o a.entry generation)

theorem bound_empty (ok : Attachment → Prop) (entries : Nat) : empty.Bound ok entries :=
  ⟨by simp [empty], by simp [empty]⟩

theorem Bound.rewrite {ok : Attachment → Prop} {entries : Nat} {d d' : TextureData}
    (hd : d.Bound ok entries) (hr : d.Rewrite ok entries d') : d'.Bound ok entries := by
  cases hr with
  | keep => exact hd
  | clear => exact ⟨hd.attached, hd.cached⟩
  | @attach a hok hentry =>
    constructor
    · intro a' ha'
      cases ha'
      exact ⟨hok, hentry⟩
    · intro e he
      cases he
      exact ⟨a, rfl, rfl⟩
  | @commit a ha o generation =>
    refine ⟨hd.attached, ?_⟩
    intro e he
    simp only [TextureData.commit] at he
    split at he
    · cases he
    · cases he
      exact ⟨a, ha, rfl⟩

end TextureData

namespace Host

/-- What one action can make of an entry. -/
inductive Change (src : Sources) (h : Host) (e : Nat) (c : CacheEntry) : CacheEntry → Prop
  | keep : Change src h e c c
  | touch (now : Instant) : Change src h e c (c.touch now)
  | purge (threshold : Instant) (held : Bool) : Change src h e c (c.purgeIfOlder threshold held)
  | discard : Change src h e c c.discard
  | load {i : Nat} {t : Texture} {a : Attachment} (ht : h.textures[i]? = some t)
      (ha : t.data.attachment = some a) (he : a.entry = e) (cut : Option Nat) :
      Change src h e c { c with data := (loadLevels src a.request cut c.data).entry }

variable {src : Sources} {ok : Attachment → Prop} {h h' : Host} {i e : Nat} {c c' : CacheEntry}

/-- An entry before and after, if there is one. -/
abbrev Changes (src : Sources) (h h' : Host) (e : Nat) : Prop :=
  Option.Rel (Change src h e) h.entries[e]? h'.entries[e]?

/-- Whatever changes an entry is an act of its history. -/
theorem Change.isAct (hch : Change src h e c c') : ∃ a, c' = c.act a := by
  cases hch with
  | keep => exact ⟨.write id, rfl⟩
  | touch now => exact ⟨.touch now, rfl⟩
  | purge threshold held => exact ⟨.purge threshold held, rfl⟩
  | discard => exact ⟨.discard, rfl⟩
  | @load i t a ht ha he cut =>
    exact ⟨.write fun d => (loadLevels src a.request cut d).entry, rfl⟩

theorem changes_of_modify {k : Nat} {f : CacheEntry → CacheEntry}
    (he : h'.entries = h.entries.modify k f)
    (hf : ∀ c, h.entries[k]? = some c → Change src h k c (f c)) (e : Nat) :
    Changes src h h' e := by
  rw [Changes, he, List.getElem?_modify]
  rcases hc : h.entries[e]? with _ | c
  · exact .none
  · refine .some ?_
    split
    next hee =>
      subst hee
      exact hf c hc
    · exact .keep

theorem changes_of_same (he : h'.entries = h.entries) (e : Nat) : Changes src h h' e := by
  rw [Changes, he]
  rcases h.entries[e]? with _ | c
  · exact .none
  · exact .some .keep

theorem Work.changes (hw : Work src h h') (e : Nat) : Changes src h h' e := by
  cases hw with
  | @load k i t a c₀ hk ht ha hc₀ cut =>
    have hentries : (h.load src k a cut).entries = h.entries.modify a.entry fun c =>
        { c with data := (loadLevels src a.request cut c₀.data).entry } := by
      rw [load_eq hc₀]
      rfl
    refine changes_of_modify hentries (fun c hc => ?_) e
    obtain rfl := Option.some.inj (hc₀.symm.trans hc)
    exact .load ht ha rfl cut
  | skip | lose | publish | signal => exact changes_of_same rfl e
  | release => exact changes_of_same (releaseLevels_entries ..) e
  | @commit k i o g hk now =>
    rcases ha : h.textures[i]?.bind fun t => t.data.attachment with _ | a
    · refine changes_of_same ?_ e
      simp only [Host.commit, ha]
      rfl
    · refine changes_of_modify (k := a.entry) (f := fun c => c.touch now) ?_
        (fun c _ => .touch now) e
      simp only [Host.commit, ha]
      exact releaseLevels_entries ..
  | @discard k i hk =>
    rcases ha : h.textures[i]?.bind fun t => t.data.attachment with _ | a
    · refine changes_of_same ?_ e
      simp only [discardEntry, ha]
      rfl
    · refine changes_of_modify (k := a.entry) (f := CacheEntry.discard) ?_
        (fun c _ => .discard) e
      simp only [discardEntry, ha]
      rfl

/-- An entry stays where it is and changes in one of the few ways, or it is new. -/
theorem Act.changes (ha : Act (Work src) ok h h') (e : Nat) :
    Changes src h h' e ∨ h.entries[e]? = none ∧ ∃ now, h'.entries[e]? = some (.create now) := by
  cases ha with
  | createEntry now =>
    change Option.Rel _ _ (h.entries ++ [CacheEntry.create now])[e]? ∨
      _ ∧ ∃ now', (h.entries ++ [CacheEntry.create now])[e]? = _
    rcases Nat.lt_trichotomy e h.entries.length with hlt | rfl | hgt
    · left
      rw [List.getElem?_append_left hlt, List.getElem?_eq_getElem hlt]
      exact .some .keep
    · right
      exact ⟨List.getElem?_eq_none le_rfl, now, List.getElem?_concat_length⟩
    · left
      rw [List.getElem?_eq_none hgt.le, List.getElem?_eq_none]
      · exact .none
      · rw [List.length_append, List.length_singleton]
        exact hgt
  | touch e₀ now => exact .inl (changes_of_modify rfl (fun c _ => .touch now) e)
  | purge e₀ threshold held => exact .inl (changes_of_modify rfl (fun c _ => .purge ..) e)
  | work hw => exact .inl (hw.changes e)
  | createTexture | attach | use | join | revert | beginDrop | leave | note | dropContext =>
    exact .inl (changes_of_same rfl e)
  | @submit i t ht hstate hown =>
    refine .inl (changes_of_same ?_ e)
    unfold startDecode
    split <;> rfl

/-- Entries never go away. -/
theorem Act.change (ha : Act (Work src) ok h h') (hc : h.entries[e]? = some c) :
    ∃ c', h'.entries[e]? = some c' ∧ Change src h e c c' := by
  rcases ha.changes e with hrel | ⟨hnone, -⟩
  · rw [Changes, hc] at hrel
    rcases hc' : h'.entries[e]? with _ | c'
    · rw [hc'] at hrel
      cases hrel
    · rw [hc'] at hrel
      cases hrel with
      | some hch => exact ⟨c', rfl, hch⟩
  · rw [hc] at hnone
    cases hnone

theorem Act.entries_length (ha : Act (Work src) ok h h') :
    h.entries.length ≤ h'.entries.length := by
  by_contra hlt
  obtain ⟨c, hc, -⟩ := ha.change (List.getElem?_eq_getElem (Nat.lt_of_not_le hlt))
  exact absurd (List.getElem?_eq_some_iff.mp hc).1 (Nat.lt_irrefl _)

theorem Move.rewrite {q p : Progress} {f : Texture → Texture} (hm : Move q p f) (entries : Nat)
    (t : Texture) : t.data.Rewrite ok entries (f t).data := by
  cases hm with
  | commit o g =>
    unfold Texture.take
    rcases ha : t.data.attachment with _ | a
    · exact .keep
    · exact .commit ha o g
  | release => exact .clear
  | load | crash | skip | lose | discard | publish | signal => exact .keep

theorem rewrite_of_modifyTexture {f : Texture → Texture} {j : Nat} {t' : Texture}
    (ht' : (h.modifyTexture j f).textures[i]? = some t')
    (hf : ∀ t : Texture, t.data.Rewrite ok h.entries.length (f t).data) :
    ∃ t, h.textures[i]? = some t ∧ t.data.Rewrite ok h.entries.length t'.data := by
  obtain ⟨t, ht, ⟨rfl, rfl⟩ | ⟨-, rfl⟩⟩ := textures_of_modifyTexture ht'
  · exact ⟨t, ht, hf t⟩
  · exact ⟨_, ht, .keep⟩

/-- A texture stays where it is, with fields that change in one of the few ways, or it is
new. -/
theorem Act.rewrite (ha : Act (Work src) ok h h') {t' : Texture} (ht' : h'.textures[i]? = some t') :
    (∃ t, h.textures[i]? = some t ∧ t.data.Rewrite ok h.entries.length t'.data) ∨
      t'.data = .empty := by
  cases ha with
  | createTexture now =>
    rcases textures_of_createTexture ht' with ht | rfl
    · exact .inl ⟨t', ht, .keep⟩
    · exact .inr rfl
  | @attach j a hok hattach =>
    have hentry : a.entry < h.entries.length := by
      simpa using (Bool.and_eq_true_iff.mp hattach).2
    exact .inl (rewrite_of_modifyTexture ht' fun t => .attach hok hentry)
  | use | join | revert => exact .inl (rewrite_of_modifyTexture ht' fun t => .keep)
  | leave => exact .inl (rewrite_of_modifyTexture ht' fun t => .clear)
  | beginDrop j =>
    refine .inl (rewrite_of_modifyTexture ht' fun t => ?_)
    unfold Texture.beginDrop
    split <;> exact .keep
  | submit =>
    unfold startDecode at ht'
    split at ht'
    · exact .inl (rewrite_of_modifyTexture ht' fun t => .keep)
    · exact .inl (rewrite_of_modifyTexture ht' fun t => .keep)
  | work hw =>
    obtain ⟨k, j, q, p, f, -, hm, htextures, -, -⟩ := hw.move
    rw [htextures] at ht'
    exact .inl (rewrite_of_modifyTexture ht' fun t => hm.rewrite _ t)
  | createEntry | touch | purge | note | dropContext => exact .inl ⟨t', ht', .keep⟩

/-- All textures keep to the entries of their requests. -/
def Bound (ok : Attachment → Prop) (h : Host) : Prop :=
  ∀ (i : Nat) (t : Texture), h.textures[i]? = some t → t.data.Bound ok h.entries.length

theorem bound_start (ok : Attachment → Prop) : start.Bound ok := by simp [Bound, start]

theorem Bound.act (hb : h.Bound ok) (ha : Act (Work src) ok h h') : h'.Bound ok := by
  intro i t' ht'
  have hbound : t'.data.Bound ok h.entries.length := by
    rcases ha.rewrite ht' with ⟨t, ht, hr⟩ | hempty
    · exact (hb i t ht).rewrite hr
    · rw [hempty]
      exact TextureData.bound_empty ok _
  refine ⟨fun a ha' => ?_, hbound.cached⟩
  obtain ⟨hok, hentry⟩ := hbound.attached a ha'
  exact ⟨hok, Nat.lt_of_lt_of_le hentry ha.entries_length⟩

theorem Bound.acts (hb : h.Bound ok) (ha : Acts src ok h h') : h'.Bound ok :=
  ha.preserves (fun _ _ ha hb => hb.act ha) hb

theorem bound_run (src : Sources) {events : List (Instant × HostEvent)}
    (hok : ∀ now i a, (now, HostEvent.populate i a) ∈ events → ok a) :
    (start.run src events).Bound ok :=
  (bound_start ok).acts (run_acts start hok)

/-- Every entry has a history since it was created. -/
def Recorded (h : Host) : Prop :=
  ∀ (e : Nat) (c : CacheEntry), h.entries[e]? = some c →
    ∃ created acts, c = (CacheEntry.create created).run acts

theorem Recorded.act (hr : h.Recorded) (ha : Act (Work src) ok h h') : h'.Recorded := by
  intro e c' hc'
  rcases ha.changes e with hrel | ⟨-, now, hnew⟩
  · rw [Changes, hc'] at hrel
    rcases hc : h.entries[e]? with _ | c
    · rw [hc] at hrel
      cases hrel
    rw [hc] at hrel
    obtain ⟨created, acts, rfl⟩ := hr e c hc
    cases hrel with
    | some hchange =>
      obtain ⟨a, rfl⟩ := hchange.isAct
      exact ⟨created, acts ++ [a], (CacheEntry.run_concat ..).symm⟩
  · obtain rfl := Option.some.inj (hc'.symm.trans hnew)
    exact ⟨now, [], rfl⟩

/-- What is said of the history of an entry holds for every entry of every run. -/
theorem recorded_run (src : Sources) (events : List (Instant × HostEvent)) :
    (start.run src events).Recorded := by
  have hacts : Acts src (fun _ => True) start (start.run src events) :=
    run_acts start fun _ _ _ _ => trivial
  exact hacts.preserves (fun _ _ ha hr => hr.act ha) (by simp [Recorded, start])

/-- An entry has what loads for requests that satisfy `ok` have made of it, and drops. -/
def Worked (src : Sources) (ok : Attachment → Prop) (h : Host) : Prop :=
  ∀ (e : Nat) (c : CacheEntry), h.entries[e]? = some c → ∃ events : List EntryEvent,
    (∀ event ∈ events, event = .drop ∨ ∃ a cut, ok a ∧ event = .load src a.request cut) ∧
      c.data = LevelData.after events

/-- A change of an entry is an event of it, or leaves its levels as they are. -/
theorem Change.event (hb : h.Bound ok) (hc : Change src h e c c') :
    c'.data = c.data ∨ ∃ event : EntryEvent,
      (event = .drop ∨ ∃ a cut, ok a ∧ event = .load src a.request cut) ∧
        c'.data = event.apply c.data := by
  have hdiscard : c.discard.data = c.data ∨ c.discard.data = EntryEvent.drop.apply c.data := by
    unfold CacheEntry.discard
    split
    · exact .inl rfl
    · exact .inr rfl
  cases hc with
  | keep | touch => exact .inl rfl
  | discard => exact hdiscard.imp_right fun h => ⟨.drop, .inl rfl, h⟩
  | purge threshold held =>
    unfold CacheEntry.purgeIfOlder
    split
    · exact hdiscard.imp_right fun h => ⟨.drop, .inl rfl, h⟩
    · exact .inl rfl
  | @load i t a ht ha he cut =>
    have hok : ok a := ((hb i t ht).attached a ha).1
    exact .inr ⟨.load src a.request cut, .inr ⟨a, cut, hok, rfl⟩, rfl⟩

theorem Worked.act (hw : h.Worked src ok) (hb : h.Bound ok) (ha : Act (Work src) ok h h') :
    h'.Worked src ok := by
  intro e c' hc'
  rcases ha.changes e with hrel | ⟨-, now, hnew⟩
  · rw [Changes, hc'] at hrel
    rcases hc : h.entries[e]? with _ | c
    · rw [hc] at hrel
      cases hrel
    rw [hc] at hrel
    obtain ⟨events, hevents, hdata⟩ := hw e c hc
    cases hrel with
    | some hchange =>
      rcases hchange.event hb with hsame | ⟨event, hevent, hafter⟩
      · exact ⟨events, hevents, hsame.trans hdata⟩
      · refine ⟨events ++ [event], ?_, ?_⟩
        · rw [List.forall_mem_append, List.forall_mem_singleton]
          exact ⟨hevents, hevent⟩
        · rw [LevelData.after_concat, hafter, hdata]
  · obtain rfl := Option.some.inj (hc'.symm.trans hnew)
    exact ⟨[], by simp, rfl⟩

/-- What is said of loads that share an entry holds for every entry of every run. -/
theorem worked_run (src : Sources) {events : List (Instant × HostEvent)}
    (hok : ∀ now i a, (now, HostEvent.populate i a) ∈ events → ok a) :
    (start.run src events).Worked src ok := by
  have hboth : (start.run src events).Bound ok ∧ (start.run src events).Worked src ok := by
    refine (run_acts start hok).preserves (P := fun h => h.Bound ok ∧ h.Worked src ok) ?_
      ⟨bound_start ok, by simp [Worked, start]⟩
    intro h₁ h₂ ha hP
    exact ⟨hP.1.act ha, hP.2.act hP.1 ha⟩
  exact hboth.2

end Host
end TexturePack
