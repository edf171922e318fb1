import Mathlib
import TexturePack.LevelCache

/-! What the levels of a cache entry are after each operation. All of it is said through
`bytes`, which is empty where a level is not decoded. -/
namespace TexturePack.LevelData

/-- The bytes at a place, none where no level is stored. -/
def bytes (d : LevelData) (i : Nat) : Bytes := d.levels.getD i []

/-- Stores levels from place `i` on. -/
def putAll (d : LevelData) (i : Nat) : List Bytes → LevelData
  | [] => d
  | b :: bs => (d.put i b).putAll (i + 1) bs

/-- Every level that is stored here is stored there with the same bytes. -/
def Within (d d' : LevelData) : Prop := ∀ i, d.bytes i ≠ [] → d.bytes i = d'.bytes i

theorem level?_eq_some_iff {d : LevelData} {i : Nat} {b : Bytes} :
    d.level? i = some b ↔ d.bytes i = b ∧ b ≠ [] := by
  unfold level? bytes
  rw [List.getD_eq_getElem?_getD]
  rcases d.levels[i]? with _ | _ | ⟨x, xs⟩
  · simp only [Option.getD_none]
    grind
  · simp only [Option.getD_some]
    grind
  · simp only [Option.getD_some, Option.some.injEq]
    grind

theorem has_iff {d : LevelData} {i : Nat} : d.has i = true ↔ d.bytes i ≠ [] := by
  unfold has
  rw [Option.isSome_iff_exists]
  simp only [level?_eq_some_iff, exists_eq_left']

theorem bytes_of_length_le {d : LevelData} {i : Nat} (h : d.levels.length ≤ i) :
    d.bytes i = [] := by
  simp [bytes, List.getElem?_eq_none h]

@[simp] theorem bytes_put (d : LevelData) (i : Nat) (b : Bytes) (j : Nat) :
    (d.put i b).bytes j = if j = i then b else d.bytes j := by
  unfold put bytes
  split
  next h =>
    simp only [List.getD_eq_getElem?_getD, List.getElem?_set]
    grind
  next h =>
    have hle : d.levels.length ≤ i := Nat.le_of_not_lt h
    simp only [List.getD_eq_getElem?_getD, List.append_assoc]
    by_cases hj : j < d.levels.length
    · rw [List.getElem?_append_left hj, if_neg (by omega)]
    · rw [List.getElem?_append_right (by omega), List.getElem?_eq_none (by omega : _ ≤ j)]
      grind

@[simp] theorem bytes_clear (d : LevelData) (i j : Nat) :
    (d.clear i).bytes j = if j = i then [] else d.bytes j := by
  simp only [clear, bytes, List.getD_eq_getElem?_getD, List.getElem?_set]
  grind

theorem isEmpty_iff {d : LevelData} : d.isEmpty = true ↔ ∀ i, d.bytes i = [] := by
  simp only [isEmpty, List.all_eq_true, List.isEmpty_iff, bytes, List.getD_eq_getElem?_getD]
  constructor
  · intro h i
    rcases hi : d.levels[i]? with _ | b
    · rfl
    · exact h b (List.mem_of_getElem? hi)
  · intro h b hb
    obtain ⟨i, hi⟩ := List.mem_iff_getElem?.mp hb
    simpa [hi] using h i

theorem isEmpty_of_has {d : LevelData} {i : Nat} (h : d.has i = true) : d.isEmpty = false := by
  rw [← Bool.not_eq_true]
  intro hempty
  exact has_iff.mp h (isEmpty_iff.mp hempty i)

theorem not_has_of_isEmpty {d : LevelData} (h : d.isEmpty = true) (i : Nat) :
    d.has i = false := by
  rw [← Bool.not_eq_true]
  intro hhas
  exact Bool.noConfusion ((isEmpty_of_has hhas).symm.trans h)

theorem bytes_putAll (d : LevelData) (i : Nat) (bs : List Bytes) (j : Nat) :
    (d.putAll i bs).bytes j =
      if i ≤ j ∧ j < i + bs.length then bs.getD (j - i) [] else d.bytes j := by
  induction bs generalizing d i with
  | nil =>
    rw [if_neg (by simp only [List.length_nil]; omega)]
    rfl
  | cons b bs ih =>
    rw [putAll, ih, bytes_put, List.length_cons]
    rcases Nat.lt_trichotomy j i with h | rfl | h
    · rw [if_neg (by omega), if_neg (by omega), if_neg (by omega)]
    · rw [if_neg (by omega), if_pos rfl, if_pos (by omega), Nat.sub_self]
      rfl
    · by_cases hj : j < i + 1 + bs.length
      · rw [if_pos ⟨h, hj⟩, if_pos (by omega), show j - i = (j - (i + 1)) + 1 by omega]
        rfl
      · rw [if_neg (by omega), if_neg (by omega), if_neg (by omega)]

theorem bytes_putAll_of_lt (d : LevelData) {i j : Nat} (bs : List Bytes) (h : j < i) :
    (d.putAll i bs).bytes j = d.bytes j := by
  rw [bytes_putAll, if_neg (by omega)]

theorem put_eq_self {d : LevelData} {i : Nat} {b : Bytes} (h : d.levels[i]? = some b) :
    d.put i b = d := by
  obtain ⟨hi, rfl⟩ := List.getElem?_eq_some_iff.mp h
  rw [put, if_pos hi, List.set_getElem_self]

theorem getElem?_put_self (d : LevelData) (i : Nat) (b : Bytes) :
    (d.put i b).levels[i]? = some b := by
  unfold put
  split
  next h => simp only [List.getElem?_set, h, if_true]
  next h =>
    rw [List.getElem?_append_right
      (by simp only [List.length_append, List.length_replicate]; omega)]
    simp only [List.length_append, List.length_replicate]
    rw [show i - (d.levels.length + (i - d.levels.length)) = 0 by omega]
    rfl

theorem getElem?_put_of_ne {d : LevelData} {i j : Nat} (b : Bytes) (hne : j ≠ i)
    (hj : j < d.levels.length) : (d.put i b).levels[j]? = d.levels[j]? := by
  unfold put
  split
  next h => rw [List.getElem?_set_ne (Ne.symm hne)]
  next h => rw [List.append_assoc, List.getElem?_append_left hj]

theorem getElem?_putAll_of_lt {d : LevelData} {i j : Nat} (bs : List Bytes) (hji : j < i)
    (hj : j < d.levels.length) : (d.putAll i bs).levels[j]? = d.levels[j]? := by
  induction bs generalizing d i with
  | nil => rfl
  | cons b bs ih =>
    have hput := getElem?_put_of_ne (i := i) b (by omega) hj
    have hlen : j < (d.put i b).levels.length := by
      rw [List.getElem?_eq_getElem hj] at hput
      exact (List.getElem?_eq_some_iff.mp hput).1
    rw [putAll, ih (by omega) hlen, hput]

/-- Levels that have been stored are there, also those of no bytes. -/
theorem getElem?_putAll (d : LevelData) (i : Nat) {bs : List Bytes} {k : Nat}
    (hk : k < bs.length) : (d.putAll i bs).levels[i + k]? = some bs[k] := by
  induction bs generalizing d i k with
  | nil => simp at hk
  | cons b bs ih =>
    have hput := getElem?_put_self d i b
    rcases k with _ | k
    · have hlen := (List.getElem?_eq_some_iff.mp hput).1
      change ((d.put i b).putAll (i + 1) bs).levels[i]? = some b
      rw [getElem?_putAll_of_lt bs (by omega) hlen, hput]
    · rw [putAll, show i + (k + 1) = i + 1 + k by omega]
      exact ih (d.put i b) (i + 1) (Nat.lt_of_succ_lt_succ hk)

theorem putAll_eq_self {d : LevelData} {i : Nat} {bs : List Bytes}
    (h : ∀ k (hk : k < bs.length), d.levels[i + k]? = some bs[k]) : d.putAll i bs = d := by
  induction bs generalizing i with
  | nil => rfl
  | cons b bs ih =>
    have hfirst : d.levels[i]? = some b := h 0 (Nat.succ_pos _)
    rw [putAll, put_eq_self hfirst]
    apply ih
    intro k hk
    rw [show i + 1 + k = i + (k + 1) by omega]
    exact h (k + 1) (Nat.succ_lt_succ hk)

end TexturePack.LevelData
