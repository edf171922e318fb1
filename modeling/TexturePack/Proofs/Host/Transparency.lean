import Mathlib
import TexturePack.Proofs.Host.Entries
import TexturePack.Proofs.Load.Agreement
import TexturePack.Proofs.Readback

/-! Textures that share an entry do not see each other in the bytes that they hand out. Every
level that is ever in the entry is the one that an undisturbed load would have stored, and a copy
writes it to the buffer as it is. -/
namespace TexturePack

namespace LevelData

theorem within_of_no_levels {d : LevelData} (h : d.levels = []) (d' : LevelData) :
    d.Within d' := by
  intro i hi
  exact absurd (bytes_of_length_le (by simp [h])) hi

end LevelData

namespace CacheEntry

theorem within_discard {c : CacheEntry} {d : LevelData} (h : c.data.Within d) :
    c.discard.data.Within d := by
  unfold discard
  split
  · exact h
  · exact LevelData.within_of_no_levels rfl d

theorem within_purgeIfOlder {c : CacheEntry} {d : LevelData} (h : c.data.Within d)
    (threshold : Instant) (held : Bool) : (c.purgeIfOlder threshold held).data.Within d := by
  unfold purgeIfOlder
  split
  · exact within_discard h
  · exact h

end CacheEntry

namespace Host

variable {src : Sources} {requestOf : Nat → Request} {h h' : Host} {e : Nat} {c c' : CacheEntry}

/-- All that is left of an entry when its request is loaded once, from nothing. -/
abbrev standalone (src : Sources) (r : Request) : LevelData := (loadLevels src r none .empty).entry

/-- The entries hold nothing but levels of the requests that they were made for. -/
structure Genuine (src : Sources) (requestOf : Nat → Request) (h : Host) : Prop where
  bound : h.Bound fun a => a.request = requestOf a.entry
  within : ∀ (e : Nat) (c : CacheEntry), h.entries[e]? = some c →
    c.data.Within (standalone src (requestOf e))

theorem genuine_start (src : Sources) (requestOf : Nat → Request) :
    start.Genuine src requestOf :=
  ⟨bound_start _, by simp [start]⟩

theorem Change.within (hch : Change src h e c c')
    (hb : h.Bound fun a => a.request = requestOf a.entry)
    (hc : c.data.Within (standalone src (requestOf e))) :
    c'.data.Within (standalone src (requestOf e)) := by
  cases hch with
  | keep => exact hc
  | touch now => exact hc
  | purge threshold held => exact CacheEntry.within_purgeIfOlder hc threshold held
  | discard => exact CacheEntry.within_discard hc
  | @load i t a ht ha he cut =>
    -- Whoever loads into the entry does so for the request that the entry is for.
    subst he
    obtain ⟨hrequest, -⟩ := (hb i t ht).attached a ha
    rw [← hrequest] at hc ⊢
    exact loadLevels_within src a.request cut hc

theorem Genuine.act (hg : h.Genuine src requestOf)
    (ha : Act (Work src) (fun a => a.request = requestOf a.entry) h h') :
    h'.Genuine src requestOf := by
  refine ⟨hg.bound.act ha, ?_⟩
  intro e c' hc'
  rcases ha.changes e with hrel | ⟨-, now, hnew⟩
  · rw [Changes, hc'] at hrel
    rcases hc : h.entries[e]? with _ | c
    · rw [hc] at hrel
      cases hrel
    · rw [hc] at hrel
      cases hrel with
      | some hch => exact hch.within hg.bound (hg.within e c hc)
  · obtain rfl := Option.some.inj (hc'.symm.trans hnew)
    exact LevelData.within_of_no_levels rfl _

theorem genuine_run (src : Sources) {requestOf : Nat → Request}
    {events : List (Instant × HostEvent)}
    (hrequests : ∀ now i a, (now, HostEvent.populate i a) ∈ events →
      a.request = requestOf a.entry) : (start.run src events).Genuine src requestOf :=
  (run_acts start hrequests).preserves (fun _ _ ha hg => hg.act ha) (genuine_start src requestOf)

theorem copyLevel_eq_some {i k pitch piecesFrom : Nat} {out out' : Bytes}
    (hcopy : h.copyLevel i k out pitch piecesFrom = .ok (some out')) :
    ∃ t l e c, h.textures[i]? = some t ∧ t.data.levels[k]? = some l ∧ t.data.cache = some e ∧
      h.entries[e]? = some c ∧ Readback.copyLevel c.data k l.width l.height t.data.format out pitch
        piecesFrom = .ok (some out') := by
  unfold copyLevel at hcopy
  rcases ht : h.textures[i]? with _ | t
  · simp [ht] at hcopy
  simp only [ht] at hcopy
  split at hcopy
  · simp at hcopy
  split at hcopy
  next l c hl hc =>
    obtain ⟨e, he, hc⟩ := Option.bind_eq_some_iff.mp hc
    exact ⟨t, l, e, c, rfl, hl, he, hc, hcopy⟩
  · simp at hcopy

/-- Whatever many textures and their tasks have done to the entries that they share, and in
whatever order: a copy of a level that succeeds writes the bytes that one undisturbed load into
an empty entry stores for this level, in rows that lie `pitch` bytes apart, and nothing else. -/
theorem copy_transparent (src : Sources) (requestOf : Nat → Request)
    {events : List (Instant × HostEvent)}
    (hrequests : ∀ now i a, (now, HostEvent.populate i a) ∈ events →
      a.request = requestOf a.entry)
    {i k pitch piecesFrom : Nat} {out out' : Bytes}
    (hcopy : (start.run src events).copyLevel i k out pitch piecesFrom = .ok (some out')) :
    ∃ t a l bytes, (start.run src events).textures[i]? = some t ∧ t.data.attachment = some a ∧
      t.data.levels[k]? = some l ∧
      (loadLevels src a.request none .empty).entry.level? k = some bytes ∧
      Readback.Copied out out' bytes pitch
        (Readback.shape t.data.format l.width l.height bytes).1
        (Readback.shape t.data.format l.width l.height bytes).2 := by
  have hg := genuine_run src hrequests
  obtain ⟨t, l, e, c, ht, hl, he, hc, hcopied⟩ := copyLevel_eq_some hcopy
  obtain ⟨a, ha, rfl⟩ := (hg.bound i t ht).cached e he
  obtain ⟨hrequest, -⟩ := (hg.bound i t ht).attached a ha
  obtain ⟨bytes, hbytes, hcopied⟩ := Readback.copyLevel_eq_some hcopied
  refine ⟨t, a, l, bytes, ht, ha, hl, ?_, hcopied⟩
  obtain ⟨rfl, hne⟩ := LevelData.level?_eq_some_iff.mp hbytes
  rw [hrequest, LevelData.level?_eq_some_iff]
  exact ⟨(hg.within a.entry c hc k hne).symm, hne⟩

/-- Two textures of one entry. The second decodes nothing, because the first has. -/
def sharing : List (Instant × HostEvent) :=
  let now := Instant.ofSeconds 0
  let a : Attachment := ⟨.unscaled ["a.zim"] .desktop "", 0⟩
  [(now, .createEntry), (now, .createTexture), (now, .createTexture), (now, .populate 0 a),
    (now, .populate 1 a), (now, .poll 0 ⟨0⟩ (List.replicate 5 (.advance 0))),
    (now, .poll 1 ⟨0⟩ (List.replicate 5 (.advance 1)))]

theorem copy_transparent_sharing :
    ∃ t a l bytes, (start.run (.single onePixel) sharing).textures[1]? = some t ∧
      t.data.attachment = some a ∧ t.data.levels[0]? = some l ∧
      (loadLevels (.single onePixel) a.request none .empty).entry.level? 0 = some bytes ∧
      Readback.Copied (Bytes.zeros 5) [1, 2, 3, 255, 0] bytes 4
        (Readback.shape t.data.format l.width l.height bytes).1
        (Readback.shape t.data.format l.width l.height bytes).2 := by
  have hcopy : (start.run (.single onePixel) sharing).copyLevel 1 0 (Bytes.zeros 5) 4 2 =
      .ok (some [1, 2, 3, 255, 0]) := by
    decide +kernel
  refine copy_transparent (.single onePixel) (fun _ => .unscaled ["a.zim"] .desktop "") ?_ hcopy
  intro now i a ha
  simp only [sharing, List.mem_cons, List.not_mem_nil, Prod.mk.injEq, HostEvent.populate.injEq,
    reduceCtorEq, and_false, or_false, false_or] at ha
  rcases ha with ⟨-, -, rfl⟩ | ⟨-, -, rfl⟩
  · rfl
  · rfl

end Host
end TexturePack
