import Mathlib
import TexturePack.Error

/-! Decodes that succeed, and rows and slices of byte strings. -/
namespace TexturePack

theorem Decode.bind_eq_ok {α β : Type} {x : Decode α} {f : α → Decode β} {b : β} :
    x >>= f = .ok b ↔ ∃ a, x = .ok a ∧ f a = .ok b := by
  rcases x with e | a
  · simp [bind, Except.bind]
  · simp [bind, Except.bind]

/-- The dimensions that a container may give its levels. -/
structure Measured (width height : Nat) : Prop where
  width_pos : 0 < width
  height_pos : 0 < height
  width_le : width ≤ maxDimension
  height_le : height ≤ maxDimension

theorem checkDimensions_eq_ok {container : String} {width height : Nat} {u : Unit}
    (h : checkDimensions container width height = .ok u) : Measured width height := by
  unfold checkDimensions at h
  split at h
  · cases h
  · constructor <;> omega

theorem checkDimensions_of_measured {width height : Nat} (h : Measured width height)
    (container : String) : checkDimensions container width height = .ok () := by
  obtain ⟨hw, hh, hw', hh'⟩ := h
  unfold checkDimensions
  rw [if_neg (by omega)]

namespace Bytes

@[simp] theorem length_zeros (n : Nat) : (zeros n).length = n := List.length_replicate

theorem rows_succ_cons (pitch n : Nat) (b : UInt8) (bs : Bytes) :
    rows pitch (n + 1) (b :: bs) =
      List.take pitch (b :: bs) :: rows pitch n (List.drop pitch (b :: bs)) := rfl

theorem rows_length {pitch : Nat} (hp : 0 < pitch) {n : Nat} {bs : Bytes}
    (h : n * pitch ≤ bs.length) : (bs.rows pitch n).length = n := by
  induction n generalizing bs with
  | zero => rfl
  | succ n ih =>
    rcases bs with _ | ⟨b, bs⟩
    · rw [Nat.succ_mul] at h
      simp only [List.length_nil] at h
      omega
    · rw [rows_succ_cons, List.length_cons, ih]
      rw [Nat.succ_mul] at h
      rw [List.length_drop]
      omega

theorem rows_nil (pitch n : Nat) : rows pitch n [] = [] := by
  cases n <;> rfl

/-- Rows of which there are enough bytes are whole. -/
theorem length_of_mem_rows {pitch n : Nat} {bs row : Bytes} (h : n * pitch ≤ bs.length)
    (hrow : row ∈ bs.rows pitch n) : row.length = pitch := by
  induction n generalizing bs with
  | zero => simp [rows] at hrow
  | succ n ih =>
    rw [Nat.succ_mul] at h
    rcases bs with _ | ⟨b, bs⟩
    · simp [rows] at hrow
    · rw [rows_succ_cons, List.mem_cons] at hrow
      rcases hrow with rfl | hrow
      · rw [List.length_take]
        omega
      · apply ih _ hrow
        rw [List.length_drop]
        omega

theorem flatten_rows {pitch n : Nat} {bs : Bytes} (h : n * pitch ≤ bs.length) :
    (bs.rows pitch n).flatten = bs.take (n * pitch) := by
  induction n generalizing bs with
  | zero => simp [rows]
  | succ n ih =>
    rw [Nat.succ_mul] at h
    rcases bs with _ | ⟨b, bs⟩
    · simp [rows]
    · rw [rows_succ_cons, List.flatten_cons, ih (by rw [List.length_drop]; omega), Nat.succ_mul,
        Nat.add_comm, List.take_add]

theorem slice_take {bs : Bytes} {start len n : Nat} (h : start + len ≤ n) :
    slice (bs.take n) start len = bs.slice start len := by
  unfold slice
  rw [List.drop_take, List.take_take]
  congr 1
  omega

theorem slice_append_left {front rest : Bytes} {start len : Nat} (h : start + len ≤ front.length) :
    slice (front ++ rest) start len = front.slice start len := by
  unfold slice
  rw [List.drop_append_of_le_length (by omega), List.take_append_of_le_length]
  rw [List.length_drop]
  omega

theorem slice_append_right {front rest : Bytes} {start len : Nat} (h : front.length ≤ start) :
    slice (front ++ rest) start len = rest.slice (start - front.length) len := by
  unfold slice
  rw [List.drop_append, List.drop_of_length_le h, List.nil_append]

theorem slice_middle {bs mid : Bytes} {start len : Nat} (front rest : Bytes)
    (hbs : bs = front ++ (mid ++ rest)) (hstart : front.length = start) (hlen : mid.length = len) :
    bs.slice start len = mid := by
  subst hbs hstart hlen
  rw [slice_append_right le_rfl, Nat.sub_self, slice, List.drop_zero, List.take_left]

theorem slice_zeros {n start len : Nat} (h : start + len ≤ n) :
    (zeros n).slice start len = zeros len := by
  unfold slice zeros
  rw [List.drop_replicate, List.take_replicate, Nat.min_eq_left (by omega)]

theorem getElem?_slice (bs : Bytes) {start len i : Nat} (hi : i < len) :
    (bs.slice start len)[i]? = bs[start + i]? := by
  rw [slice, List.getElem?_take_of_lt hi, List.getElem?_drop]

theorem slice_slice {bs : Bytes} {start len start' len' : Nat} (h : start' + len' ≤ len) :
    (bs.slice start len).slice start' len' = bs.slice (start + start') len' := by
  unfold slice
  rw [List.drop_take, List.take_take, List.drop_drop, Nat.min_eq_left (by omega)]

theorem slice_drop (bs : Bytes) (n start len : Nat) :
    slice (bs.drop n) start len = bs.slice (n + start) len := by
  unfold slice
  rw [List.drop_drop]

/-- Rows that are all there are parts that follow each other. -/
theorem rows_eq_slices {pitch n : Nat} {bs : Bytes} (hp : 0 < pitch) (h : n * pitch ≤ bs.length) :
    bs.rows pitch n = (List.range n).map fun i => bs.slice (i * pitch) pitch := by
  induction n generalizing bs with
  | zero => rfl
  | succ n ih =>
    rw [Nat.succ_mul] at h
    rcases bs with _ | ⟨b, bs⟩
    · simp only [List.length_nil] at h
      omega
    · have hrest : n * pitch ≤ (List.drop pitch (b :: bs)).length := by
        rw [List.length_drop]
        omega
      rw [rows_succ_cons, ih hrest, List.range_succ_eq_map, List.map_cons, List.map_map]
      congr 1
      · simp [slice]
      · apply List.map_congr_left
        intro i _
        rw [slice_drop, Function.comp_apply, Nat.succ_mul, Nat.add_comm]

theorem flatten_slices (bs : Bytes) (pitch n : Nat) :
    ((List.range n).map fun r => bs.slice (r * pitch) pitch).flatten =
      bs.take (n * pitch) := by
  induction n with
  | zero => simp
  | succ n ih =>
    rw [List.range_succ, List.map_append, List.flatten_append, ih, Nat.succ_mul, List.take_add]
    simp [slice]

theorem length_flatten {pitch : Nat} {lines : List Bytes} (h : ∀ row ∈ lines, row.length = pitch) :
    lines.flatten.length = lines.length * pitch := by
  rw [List.length_flatten, List.map_eq_replicate_iff.mpr h, List.sum_replicate, smul_eq_mul]

/-- A row of a list of rows that are all of one length. -/
theorem slice_flatten {pitch : Nat} {lines : List Bytes} (h : ∀ row ∈ lines, row.length = pitch)
    (r : Nat) : slice lines.flatten (r * pitch) pitch = lines.getD r [] := by
  induction lines generalizing r with
  | nil => simp [slice]
  | cons row lines ih =>
    obtain ⟨hrow, hlines⟩ := List.forall_mem_cons.mp h
    rcases r with _ | r
    · simp [slice, ← hrow]
    · rw [List.flatten_cons, Nat.succ_mul, Nat.add_comm, slice, ← List.drop_drop,
        List.drop_left' hrow]
      exact ih hlines r

theorem toNatLE_lt (bs : Bytes) : toNatLE bs < 256 ^ bs.length := by
  induction bs with
  | nil => exact Nat.one_pos
  | cons b bs ih =>
    have hb := b.toNat_lt
    rw [toNatLE, List.length_cons, Nat.pow_succ]
    omega

/-- The bytes of a number, the least significant one first. -/
def ofNatLE : Nat → Nat → Bytes
  | 0, _ => []
  | len + 1, n => UInt8.ofNat n :: ofNatLE len (n / 256)

@[simp] theorem length_ofNatLE (len n : Nat) : (ofNatLE len n).length = len := by
  induction len generalizing n with
  | zero => rfl
  | succ len ih => rw [ofNatLE, List.length_cons, ih]

theorem toNatLE_ofNatLE {len n : Nat} (h : n < 256 ^ len) : toNatLE (ofNatLE len n) = n := by
  induction len generalizing n with
  | zero =>
    rw [Nat.pow_zero, Nat.lt_one_iff] at h
    rw [h]
    rfl
  | succ len ih =>
    have hrest : n / 256 < 256 ^ len := by
      rw [Nat.div_lt_iff_lt_mul (by decide)]
      exact h
    rw [ofNatLE, toNatLE, ih hrest, UInt8.toNat_ofNat']
    omega

end Bytes

end TexturePack
