import Mathlib
import TexturePack.Registry
import TexturePack.Proofs.LevelCache

/-! A registry and all who hold its entries. However handles are got, copied and dropped and the
registry is pruned, the handles of one key are on one entry, and those of two keys on two. -/
namespace TexturePack

namespace Registry

variable {r : Registry} {key : CacheKey} {e fresh : Nat} {live : Nat → Bool}

def keys (r : Registry) : List CacheKey := r.slots.map Prod.fst

/-- No key has two entries and no entry two keys, and all entries have been made. -/
structure Sound (r : Registry) (made : Nat) : Prop where
  keys : r.keys.Nodup
  entries : (r.slots.map Prod.snd).Nodup
  made : ∀ slot ∈ r.slots, slot.2 < made

theorem sound_empty (made : Nat) : empty.Sound made := ⟨.nil, .nil, nofun⟩

theorem mem_keys_iff : key ∈ r.keys ↔ ∃ e, (key, e) ∈ r.slots := by simp [keys]

theorem Sound.key_eq {made : Nat} (hr : r.Sound made) {key' : CacheKey} (h : (key, e) ∈ r.slots)
    (h' : (key', e) ∈ r.slots) : key = key' :=
  congrArg Prod.fst (List.inj_on_of_nodup_map hr.entries h h' rfl)

theorem Sound.entry_eq {made e' : Nat} (hr : r.Sound made) (h : (key, e) ∈ r.slots)
    (h' : (key, e') ∈ r.slots) : e = e' :=
  congrArg Prod.snd (List.inj_on_of_nodup_map hr.keys h h' rfl)

theorem Sound.slot?_eq_some_iff {made : Nat} (hr : r.Sound made) :
    r.slot? key = some e ↔ (key, e) ∈ r.slots := by
  unfold slot?
  constructor
  · intro h
    obtain ⟨⟨key', e'⟩, hfind, rfl⟩ := Option.map_eq_some_iff.mp h
    obtain rfl : key' = key := by simpa using List.find?_some hfind
    exact List.mem_of_find?_eq_some hfind
  · intro h
    rcases hfind : r.slots.find? fun s => s.1 = key with _ | ⟨key', e'⟩
    · simpa using List.find?_eq_none.mp hfind _ h
    · obtain rfl : key' = key := by simpa using List.find?_some hfind
      rw [hfind, hr.entry_eq (List.mem_of_find?_eq_some hfind) h]
      rfl

/-- The entry of a key that is still alive is found, and otherwise a new one made. -/
theorem Sound.getOrCreate_cases {made : Nat} (hr : r.Sound made) (live : Nat → Bool)
    (key : CacheKey) (fresh : Nat) :
    (∃ e, (key, e) ∈ r.slots ∧ live e = true ∧ r.getOrCreate live key fresh = (r, e)) ∨
      (∀ e, (key, e) ∈ r.slots → live e = false) ∧
        r.getOrCreate live key fresh = (r.insert key fresh, fresh) := by
  unfold getOrCreate
  rcases hslot : (r.slot? key).filter live with _ | e
  · refine .inr ⟨fun e he => ?_, rfl⟩
    rw [hr.slot?_eq_some_iff.mpr he, Option.filter_some] at hslot
    by_contra hlive
    rw [if_pos (by simpa using hlive)] at hslot
    cases hslot
  · obtain ⟨he, hlive⟩ := Option.filter_eq_some_iff.mp hslot
    exact .inl ⟨e, hr.slot?_eq_some_iff.mp he, hlive, rfl⟩

theorem mem_insert_slots {slot : CacheKey × Nat} : slot ∈ (r.insert key fresh).slots ↔
    slot = (key, fresh) ∨ slot ∈ r.slots ∧ slot.1 ≠ key := by
  simp [insert]

theorem mem_prune_slots {slot : CacheKey × Nat} :
    slot ∈ (r.prune live).slots ↔ slot ∈ r.slots ∧ live slot.2 = true := by
  simp [prune]

theorem Sound.insert {made : Nat} (hr : r.Sound made) (key : CacheKey) :
    (r.insert key made).Sound (made + 1) := by
  have hsub : (r.slots.filter fun s => s.1 ≠ key).Sublist r.slots := List.filter_sublist
  refine ⟨List.nodup_cons.mpr ⟨?_, hr.keys.sublist (hsub.map _)⟩,
    List.nodup_cons.mpr ⟨?_, hr.entries.sublist (hsub.map _)⟩, fun slot hslot => ?_⟩
  · simp
  · intro hmem
    obtain ⟨slot, hslot, hentry⟩ := List.mem_map.mp hmem
    have hlt := hr.made slot (hsub.mem hslot)
    exact absurd hentry hlt.ne
  · rcases mem_insert_slots.mp hslot with rfl | ⟨hslot, -⟩
    · exact Nat.lt_succ_self made
    · exact Nat.lt_succ_of_lt (hr.made slot hslot)

theorem Sound.prune {made : Nat} (hr : r.Sound made) (live : Nat → Bool) :
    (r.prune live).Sound made := by
  have hsub : (r.prune live).slots.Sublist r.slots := List.filter_sublist
  exact ⟨hr.keys.sublist (hsub.map _), hr.entries.sublist (hsub.map _),
    fun slot hslot => hr.made slot (hsub.mem hslot)⟩

end Registry

/-- A handle on the entry of a key. -/
structure Handle where
  key : CacheKey
  entry : Nat
  deriving DecidableEq

/-- A registry, the entries that have been made for it, and the handles on them that are out. -/
structure Sharing where
  registry : Registry
  entries : List CacheEntry
  handles : List Handle

inductive SharingEvent where
  | get (key : CacheKey) (now : Instant)
  | clone (handle : Nat)
  | drop (handle : Nat)
  /-- A holder does something to the entry. -/
  | use (handle : Nat) (a : EntryAct)
  | prune

namespace Sharing

def start : Sharing := ⟨.empty, [], []⟩

/-- An entry lives as long as there is a handle on it. -/
def live (s : Sharing) (e : Nat) : Bool := s.handles.any fun h => h.entry = e

/-- A new handle on the entry of a key. -/
def get (s : Sharing) (key : CacheKey) (now : Instant) : Sharing × Handle :=
  let fresh := s.entries.length
  let (registry, e) := s.registry.getOrCreate s.live key fresh
  let entries := if e = fresh then s.entries ++ [.create now] else s.entries
  (⟨registry, entries, s.handles ++ [⟨key, e⟩]⟩, ⟨key, e⟩)

/-- Forgets the keys of dead entries; the answer is their number. -/
def prune (s : Sharing) : Sharing × Nat :=
  let r := s.registry.prune s.live
  ({ s with registry := r }, s.registry.size - r.size)

def step (s : Sharing) : SharingEvent → Sharing
  | .get key now => (s.get key now).1
  | .clone handle => { s with handles := s.handles ++ s.handles[handle]?.toList }
  | .drop handle => { s with handles := s.handles.eraseIdx handle }
  | .use handle a =>
      match s.handles[handle]? with
      | none => s
      | some h => { s with entries := s.entries.modify h.entry (·.act a) }
  | .prune => s.prune.1

def run (s : Sharing) (events : List SharingEvent) : Sharing := events.foldl step s

/-- Somebody has a handle for the key. -/
def Alive (s : Sharing) (key : CacheKey) : Prop := ∃ h ∈ s.handles, h.key = key

/-- The entry of every handle is the one that the registry has for its key. -/
structure Sound (s : Sharing) : Prop where
  registry : s.registry.Sound s.entries.length
  handles : ∀ h ∈ s.handles, (h.key, h.entry) ∈ s.registry.slots

variable {s : Sharing} {h h' : Handle} {key : CacheKey} {e : Nat}

theorem live_iff : s.live e = true ↔ ∃ h ∈ s.handles, h.entry = e := by simp [live]

theorem sound_start : start.Sound := ⟨Registry.sound_empty 0, nofun⟩

namespace Sound

/-- The slot of a key has a live entry if and only if somebody has a handle for the key. -/
theorem live_iff_alive (hs : s.Sound) (hslot : (key, e) ∈ s.registry.slots) :
    s.live e = true ↔ s.Alive key := by
  rw [live_iff]
  constructor
  · rintro ⟨h, hh, rfl⟩
    exact ⟨h, hh, hs.registry.key_eq (hs.handles h hh) hslot⟩
  · rintro ⟨h, hh, rfl⟩
    exact ⟨h, hh, hs.registry.entry_eq (hs.handles h hh) hslot⟩

theorem key_eq_iff (hs : s.Sound) (hh : h ∈ s.handles) (hh' : h' ∈ s.handles) :
    h.key = h'.key ↔ h.entry = h'.entry := by
  have hslot := hs.handles h hh
  have hslot' := hs.handles h' hh'
  constructor
  · intro hkey
    rw [hkey] at hslot
    exact hs.registry.entry_eq hslot hslot'
  · intro hentry
    rw [hentry] at hslot
    exact hs.registry.key_eq hslot hslot'

/-- A handle is on the entry that the others for its key are on, and on a new one if there are
none. -/
theorem get_cases (hs : s.Sound) (key : CacheKey) (now : Instant) :
    (∃ h ∈ s.handles, h.key = key ∧ s.get key now = ({ s with handles := s.handles ++ [h] }, h)) ∨
      ¬s.Alive key ∧ s.get key now =
        (⟨s.registry.insert key s.entries.length, s.entries ++ [.create now],
          s.handles ++ [⟨key, s.entries.length⟩]⟩, ⟨key, s.entries.length⟩) := by
  unfold get
  rcases hs.registry.getOrCreate_cases s.live key s.entries.length with
    ⟨e, hslot, hlive, hget⟩ | ⟨hdead, hget⟩
  · left
    obtain ⟨h, hh, rfl⟩ := live_iff.mp hlive
    obtain rfl := hs.registry.key_eq (hs.handles h hh) hslot
    have hne : h.entry ≠ s.entries.length := (hs.registry.made _ hslot).ne
    refine ⟨h, hh, rfl, ?_⟩
    simp only [hget, if_neg hne]
  · right
    refine ⟨?_, ?_⟩
    · rintro ⟨h, hh, rfl⟩
      have hlive := live_iff.mpr ⟨h, hh, rfl⟩
      rw [hdead h.entry (hs.handles h hh)] at hlive
      cases hlive
    · simp only [hget, if_true]

theorem get_of_mem (hs : s.Sound) (hh : h ∈ s.handles) (now : Instant) :
    (s.get h.key now).2.entry = h.entry := by
  rcases hs.get_cases h.key now with ⟨h', hh', hkey, hget⟩ | ⟨hdead, -⟩
  · rw [hget]
    exact (hs.key_eq_iff hh' hh).mp hkey
  · exact absurd ⟨h, hh, rfl⟩ hdead

theorem get (hs : s.Sound) (key : CacheKey) (now : Instant) : (s.get key now).1.Sound := by
  rcases hs.get_cases key now with ⟨h, hh, -, hget⟩ | ⟨hdead, hget⟩
  · rw [hget]
    refine ⟨hs.registry, fun h' hh' => ?_⟩
    rcases List.mem_append.mp hh' with hh' | hh'
    · exact hs.handles h' hh'
    · rw [List.mem_singleton.mp hh']
      exact hs.handles h hh
  · rw [hget]
    refine ⟨by simpa using hs.registry.insert key, fun h' hh' => ?_⟩
    rw [Registry.mem_insert_slots]
    rcases List.mem_append.mp hh' with hh' | hh'
    · exact .inr ⟨hs.handles h' hh', fun hkey => hdead ⟨h', hh', hkey⟩⟩
    · rw [List.mem_singleton.mp hh']
      exact .inl rfl

theorem prune (hs : s.Sound) : s.prune.1.Sound := by
  refine ⟨hs.registry.prune s.live, fun h hh => ?_⟩
  exact Registry.mem_prune_slots.mpr ⟨hs.handles h hh, live_iff.mpr ⟨h, hh, rfl⟩⟩

theorem of_subset (hs : s.Sound) {handles : List Handle} (hsub : handles ⊆ s.handles) :
    Sound { s with handles := handles } :=
  ⟨hs.registry, fun h hh => hs.handles h (hsub hh)⟩

theorem step (hs : s.Sound) (event : SharingEvent) : (s.step event).Sound := by
  cases event with
  | get key now => exact hs.get key now
  | clone handle =>
    refine hs.of_subset (List.append_subset.mpr ⟨List.Subset.refl _, fun h hh => ?_⟩)
    exact List.mem_of_getElem? (Option.mem_toList.mp hh)
  | drop handle => exact hs.of_subset List.eraseIdx_subset
  | use handle a =>
    rw [Sharing.step]
    split
    · exact hs
    · exact ⟨by simpa using hs.registry, hs.handles⟩
  | prune => exact hs.prune

/-- Pruning forgets the keys for which nobody has a handle. -/
theorem mem_keys_prune_iff (hs : s.Sound) :
    key ∈ s.prune.1.registry.keys ↔ key ∈ s.registry.keys ∧ s.Alive key := by
  rw [Registry.mem_keys_iff, Registry.mem_keys_iff]
  constructor
  · rintro ⟨e, he⟩
    obtain ⟨hslot, hlive⟩ := Registry.mem_prune_slots.mp he
    exact ⟨⟨e, hslot⟩, (hs.live_iff_alive hslot).mp hlive⟩
  · rintro ⟨⟨e, hslot⟩, halive⟩
    exact ⟨e, Registry.mem_prune_slots.mpr ⟨hslot, (hs.live_iff_alive hslot).mpr halive⟩⟩

theorem prune_count (hs : s.Sound) :
    s.prune.2 = {key | key ∈ s.registry.keys ∧ ¬s.Alive key}.ncard := by
  let dead := s.registry.slots.filter fun slot => !s.live slot.2
  have hset : {key | key ∈ s.registry.keys ∧ ¬s.Alive key} =
      ((dead.map Prod.fst).toFinset : Set CacheKey) := by
    ext key
    rw [Finset.mem_coe, List.mem_toFinset, List.mem_map, Set.mem_ofPred_eq, Registry.mem_keys_iff]
    constructor
    · rintro ⟨⟨e, hslot⟩, hdead⟩
      refine ⟨(key, e), List.mem_filter.mpr ⟨hslot, ?_⟩, rfl⟩
      simpa using mt (hs.live_iff_alive hslot).mp hdead
    · rintro ⟨⟨key', e⟩, hslot, rfl⟩
      obtain ⟨hslot, hdead⟩ := List.mem_filter.mp hslot
      exact ⟨⟨e, hslot⟩, mt (hs.live_iff_alive hslot).mpr (by simpa using hdead)⟩
  have hnodup : (dead.map Prod.fst).Nodup := hs.registry.keys.sublist (List.filter_sublist.map _)
  rw [hset, Set.ncard_coe_finset, List.toFinset_card_of_nodup hnodup, List.length_map]
  have hlen := List.length_eq_length_filter_add (l := s.registry.slots) fun slot => s.live slot.2
  change s.registry.slots.length - (s.registry.slots.filter fun slot => s.live slot.2).length = _
  exact Nat.sub_eq_of_eq_add' hlen

end Sound

theorem sound_run (events : List SharingEvent) : (start.run events).Sound := by
  induction events using List.reverseRecOn with
  | nil => exact sound_start
  | append_singleton events event ih =>
    rw [run, List.foldl_append]
    exact ih.step event

/-- At every time the handles that are out for one key are on one entry, and those for two keys on
two. Who asks for a key gets the entry of those who have a handle for it, and a new and empty one
if and only if nobody has. Pruning forgets the keys for which nobody has a handle, and parts no
holder from those who ask later. -/
theorem one_entry_per_key (events : List SharingEvent) :
    let s := start.run events
    (∀ h ∈ s.handles, h.entry < s.entries.length ∧
        ∀ h' ∈ s.handles, h.key = h'.key ↔ h.entry = h'.entry) ∧
      (∀ key now, ∃ s' h, s.get key now = (s', h) ∧
        h.key = key ∧ s'.handles = s.handles ++ [h] ∧
        (h.entry = s.entries.length ∧ s'.entries = s.entries ++ [.create now] ↔ ¬s.Alive key) ∧
        ∀ h' ∈ s.handles, h'.key = key → h.entry = h'.entry ∧ s'.entries = s.entries) ∧
      (∃ s' count, s.prune = (s', count) ∧
        count = {key | key ∈ s.registry.keys ∧ ¬s.Alive key}.ncard ∧
        (∀ key, key ∈ s'.registry.keys ↔ key ∈ s.registry.keys ∧ s.Alive key) ∧
        s'.handles = s.handles ∧ s'.entries = s.entries ∧
        ∀ h ∈ s.handles, ∀ now, (s'.get h.key now).2.entry = h.entry) := by
  intro s
  have hs : s.Sound := sound_run events
  refine ⟨fun h hh => ⟨hs.registry.made _ (hs.handles h hh), fun h' hh' => hs.key_eq_iff hh hh'⟩,
    fun key now => ?_, _, _, rfl, hs.prune_count, fun key => hs.mem_keys_prune_iff, rfl, rfl,
    fun h hh now => hs.prune.get_of_mem hh now⟩
  rcases hs.get_cases key now with ⟨h, hh, rfl, hget⟩ | ⟨hdead, hget⟩
  · refine ⟨_, _, hget, rfl, rfl, iff_of_false (fun hnew => ?_) (not_not.mpr ⟨h, hh, rfl⟩),
      fun h' hh' hkey => ⟨(hs.key_eq_iff hh hh').mp hkey.symm, rfl⟩⟩
    exact absurd hnew.1 (hs.registry.made _ (hs.handles h hh)).ne
  · exact ⟨_, _, hget, rfl, rfl, iff_of_true ⟨rfl, rfl⟩ hdead,
      fun h' hh' hkey => absurd ⟨h', hh', hkey⟩ hdead⟩

/-- Two contents of which one has been given up, and a copy of the handle on the other one. -/
def copied : List SharingEvent :=
  [.get ⟨1, 2⟩ (.ofSeconds 0), .clone 0, .get ⟨3, 4⟩ (.ofSeconds 0), .drop 2, .drop 0]

/-- The copy keeps its entry when the registry is pruned, and the key that has been given up is
forgotten. -/
theorem one_entry_per_key_copied :
    let s := start.run copied
    let h : Handle := ⟨⟨1, 2⟩, 0⟩
    h ∈ s.handles ∧ h.key = ⟨1, 2⟩ ∧
      h.entry < s.entries.length ∧ (∀ h' ∈ s.handles, h.key = h'.key ↔ h.entry = h'.entry) ∧
      (s.prune.1.get h.key (.ofSeconds 1)).2.entry = 0 ∧
      (s.get h.key (.ofSeconds 1)).2.entry = 0 ∧
      s.prune.2 = {key | key ∈ s.registry.keys ∧ ¬s.Alive key}.ncard ∧ s.prune.2 = 1 := by
  intro s h
  have hh : h ∈ s.handles := by decide
  obtain ⟨hshared, hget, s', count, hprune, hcount, -, -, -, hkept⟩ := one_entry_per_key copied
  obtain ⟨s'', h'', heq, -, -, -, hsame⟩ := hget h.key (.ofSeconds 1)
  have hprune' : s.prune = (s', count) := hprune
  have heq' : s.get h.key (.ofSeconds 1) = (s'', h'') := heq
  obtain ⟨hmade, hiff⟩ := hshared h hh
  rw [hprune', heq']
  exact ⟨hh, rfl, hmade, hiff, hkept h hh _, (hsame h hh rfl).1, hcount,
    (congrArg Prod.snd hprune').symm.trans (by decide)⟩

end Sharing
end TexturePack
