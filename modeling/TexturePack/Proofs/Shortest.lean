import Mathlib
import TexturePack.Json.Printer
import TexturePack.Proofs.Binary64

/-! The decimal that is written for a number rounds to that number. Seventeen digits make a grid
finer than the interval of any number, so the search for a decimal in the interval ends. -/
namespace TexturePack.Shortest

open Binary64

variable {i : Interval} {e k : Int} {m s : Nat}

/-- Whether a number of the common denominator lies in the interval. -/
structure Interval.Holds (i : Interval) (x : Rat) : Prop where
  low : i.low ≤ x
  high : x ≤ i.high
  inner : i.closed = false → i.low < x ∧ x < i.high

theorem Interval.holds_of_lt {x : Rat} (hlow : i.low < x) (hhigh : x < i.high) : i.Holds x :=
  ⟨hlow.le, hhigh.le, fun _ => ⟨hlow, hhigh⟩⟩

/-- The bounds and the decimal are compared as integers, on the side of the point where both
are. -/
theorem Interval.contains_eq (i : Interval) (d : Nat) (e : Int) :
    ∃ scaled unit : Nat, (0 : Rat) < unit ∧ (scaled : Rat) = d * 10 ^ e * i.den * unit ∧
      i.contains d e = if i.closed then i.low * unit ≤ scaled && scaled ≤ i.high * unit
        else i.low * unit < scaled && scaled < i.high * unit := by
  by_cases he : 0 ≤ e
  · refine ⟨d * Nat.pow 10 e.toNat * i.den, 1, by norm_num, ?_, ?_⟩
    · rw [Nat.cast_mul, Nat.cast_mul, cast_pow_toNat he, Nat.cast_one, mul_one]
    · simp only [contains, if_pos he]
  · refine ⟨d * i.den, Nat.pow 10 (-e).toNat, ?_, ?_, ?_⟩
    · rw [cast_pow_toNat (by omega)]
      positivity
    · rw [Nat.cast_mul, cast_pow_toNat (by omega), zpow_neg, mul_right_comm (d : Rat),
        mul_inv_cancel_right₀ (by positivity)]
    · simp only [contains, if_neg he]

theorem Interval.contains_iff (d : Nat) (e : Int) :
    i.contains d e = true ↔ i.Holds (d * 10 ^ e * i.den) := by
  obtain ⟨scaled, unit, hunit, hscaled, hcontains⟩ := i.contains_eq d e
  have hle (bound : Nat) : bound * unit ≤ scaled ↔ (bound : Rat) ≤ d * 10 ^ e * i.den := by
    rw [← mul_le_mul_iff_left₀ hunit, ← hscaled]
    exact_mod_cast Iff.rfl
  have hge (bound : Nat) : scaled ≤ bound * unit ↔ (d * 10 ^ e * i.den : Rat) ≤ bound := by
    rw [← mul_le_mul_iff_left₀ hunit, ← hscaled]
    exact_mod_cast Iff.rfl
  rw [hcontains]
  cases hclosed : i.closed with
  | true =>
    simp only [if_true, Bool.and_eq_true, decide_eq_true_eq, hle, hge]
    exact ⟨fun h => ⟨h.1, h.2, fun hopen => by simp [hclosed] at hopen⟩, fun h => ⟨h.low, h.high⟩⟩
  | false =>
    simp only [Bool.false_eq_true, if_false, Bool.and_eq_true, decide_eq_true_eq, ← not_le, hle,
      hge]
    simp only [not_le]
    exact ⟨fun h => Interval.holds_of_lt h.1 h.2, fun h => h.inner hclosed⟩

/-- The number itself over the grid. -/
theorem neighbours_eq (e : Int) :
    (neighbours i e).1 = ⌊(i.value / i.den / 10 ^ e : Rat)⌋₊ := by
  simp only [neighbours]
  rw [← Nat.floor_div_eq_div (K := Rat)]
  split_ifs with he
  · rw [Nat.cast_mul, cast_pow_toNat he, div_div]
  · rw [Nat.cast_mul, cast_pow_toNat (by omega), zpow_neg, div_right_comm, ← div_eq_mul_inv]

theorem hit?_isSome_of_contains (h : i.contains (neighbours i e).1 e = true ∨
    i.contains ((neighbours i e).1 + 1) e = true) : (hit? i e).isSome = true := by
  simp only [hit?]
  split_ifs <;> simp_all

/-- On a grid finer than the interval one of the two neighbours of a number inside is inside. -/
theorem hit?_isSome (hden : 0 < i.den) (hlow : i.low < i.value) (hhigh : i.value < i.high)
    (h : (10 : Rat) ^ e * i.den < i.high - i.low) : (hit? i e).isSome = true := by
  have hden' : (0 : Rat) < i.den := by exact_mod_cast hden
  have hgrid : (0 : Rat) < 10 ^ e := by positivity
  have hlow' : (i.low : Rat) < i.value := by exact_mod_cast hlow
  have hhigh' : (i.value : Rat) < i.high := by exact_mod_cast hhigh
  have hle : ((neighbours i e).1 * 10 ^ e * i.den : Rat) ≤ i.value := by
    rw [← le_div_iff₀ hden', ← le_div_iff₀ hgrid, neighbours_eq]
    exact Nat.floor_le (by positivity)
  have hlt : (i.value : Rat) < ((neighbours i e).1 + 1 : Nat) * 10 ^ e * i.den := by
    rw [← div_lt_iff₀ hden', ← div_lt_iff₀ hgrid, neighbours_eq]
    exact_mod_cast Nat.lt_floor_add_one _
  refine hit?_isSome_of_contains ?_
  rw [Interval.contains_iff, Interval.contains_iff]
  by_contra hneither
  obtain ⟨hlower, hupper⟩ := not_or.mp hneither
  have hx : ((neighbours i e).1 * 10 ^ e * i.den : Rat) ≤ i.low :=
    not_lt.mp fun hlow => hlower (Interval.holds_of_lt hlow (hle.trans_lt hhigh'))
  have hx' : (i.high : Rat) ≤ ((neighbours i e).1 + 1 : Nat) * 10 ^ e * i.den :=
    not_lt.mp fun hhigh => hupper (Interval.holds_of_lt (hlow'.trans hlt) hhigh)
  push_cast at hx'
  linarith

theorem contains_of_hit? {d : Nat} (h : hit? i e = some d) : i.contains d e = true := by
  simp only [hit?] at h
  split_ifs at h with hboth hup hlower hupper <;> simp_all

theorem strip_eq (fuel d : Nat) (e : Int) :
    ((strip d e fuel).1 * 10 ^ (strip d e fuel).2 : Rat) = d * 10 ^ e := by
  induction fuel generalizing d e with
  | zero => rfl
  | succ fuel ih =>
    rw [strip]
    split_ifs with h
    · have hd : d = d / 10 * 10 := (Nat.div_mul_cancel (Nat.dvd_of_mod_eq_zero h.2)).symm
      have hcast : (d : Rat) = (d / 10 : Nat) * 10 := by exact_mod_cast hd
      rw [ih, hcast, zpow_add_one₀ (by norm_num), mul_assoc, mul_comm (10 : Rat)]
    · rfl

/-- The search ends in the interval, if the finest grid meets it. -/
theorem search_holds {last : Nat} (hlast : (hit? i (k - last)).isSome = true) (fuel digits : Nat)
    (hdigits : digits + fuel = last) :
    i.Holds ((search i k digits (fuel + 1)).1 * 10 ^ (search i k digits (fuel + 1)).2 * i.den) := by
  induction fuel generalizing digits with
  | zero =>
    obtain ⟨d, hd⟩ := Option.isSome_iff_exists.mp hlast
    obtain rfl : digits = last := hdigits
    simp only [search, hd, strip_eq]
    exact (Interval.contains_iff ..).mp (contains_of_hit? hd)
  | succ fuel ih =>
    rw [search]
    cases hhit : hit? i (k - digits) with
    | some d =>
      simp only [strip_eq]
      exact (Interval.contains_iff ..).mp (contains_of_hit? hhit)
    | none => exact ih (digits + 1) (by omega)

theorem pow_sub_one_le {num den : Nat} (hden : 0 < den) (k : Int) (h : den ≤ num * 10) :
    (10 : Rat) ^ (k - 1) ≤ num / den * 10 ^ k := by
  have hden' : (0 : Rat) < den := by exact_mod_cast hden
  have htenth : (10 : Rat)⁻¹ ≤ num / den := by
    rw [inv_le_iff_one_le_mul₀ (by norm_num), div_mul_eq_mul_div, one_le_div hden']
    exact_mod_cast h
  rw [zpow_sub_one₀ (by norm_num), mul_comm]
  exact mul_le_mul_of_nonneg_right htenth (by positivity)

/-- The number reaches one unit of its first place. -/
theorem pointFrom_le {num den : Nat} (hden : 0 < den) (fuel : Nat) (k : Int)
    (h : den ≤ num * 10 ^ (fuel + 1)) :
    (10 : Rat) ^ (pointFrom num den k fuel - 1) ≤ num / den * 10 ^ k := by
  induction fuel generalizing num k with
  | zero => exact pow_sub_one_le hden k (by simpa using h)
  | succ fuel ih =>
    rw [pointFrom]
    split_ifs with hnum
    · have hshift : (num / den * 10 ^ k : Rat) = (num * 10 : Nat) / den * 10 ^ (k - 1) := by
        rw [zpow_sub_one₀ (by norm_num)]
        push_cast
        ring
      rw [hshift]
      refine ih (k - 1) (h.trans_eq ?_)
      rw [pow_succ', mul_assoc]
    · exact pow_sub_one_le hden k (not_lt.mp hnum)

theorem point_le {num den : Nat} (hden : 0 < den) (h : den ≤ num * 10 ^ (decimalReach + 1)) :
    (10 : Rat) ^ (point num den - 1) ≤ num / den := by
  rw [point]
  split_ifs with hle
  · have hpos : 0 < num / den := Nat.div_pos hle hden
    have hbounds := (decimal_bounds hpos 0).1
    rw [add_zero, zpow_zero, mul_one] at hbounds
    exact hbounds.trans Nat.cast_div_le
  · simpa using pointFrom_le hden decimalReach 0 h

/-- The bounds of an interval are those of the numbers that round to its own. -/
theorem low_eq (hm : 0 < m) (s : Nat) :
    ((interval m s).low : Rat) = 4 * 2 ^ s * (m - gapBelow m s) := by
  simp only [interval, gapBelow, Nat.shiftLeft_eq]
  split_ifs
  · rw [Nat.cast_mul, Nat.cast_sub (by omega)]
    push_cast
    ring
  · rw [Nat.cast_mul, Nat.cast_sub (by omega)]
    push_cast
    ring

theorem high_eq (m s : Nat) : ((interval m s).high : Rat) = 4 * 2 ^ s * (m + 1 / 2) := by
  simp only [interval, Nat.shiftLeft_eq]
  push_cast
  ring

theorem value_eq (m s : Nat) : ((interval m s).value : Rat) = 4 * 2 ^ s * m := by
  simp only [interval, Nat.shiftLeft_eq]
  push_cast
  ring

theorem cast_den (m s : Nat) : ((interval m s).den : Rat) = 4 * 2 ^ (1074 : Int) := by
  have hone : (one : Rat) = 2 ^ (1074 : Int) :=
    (cast_shiftLeft_toNat (e := 1074) (by decide) 1).trans (by rw [Nat.cast_one, one_mul])
  rw [interval, Nat.cast_mul, hone, Nat.cast_ofNat]

theorem den_pos (m s : Nat) : 0 < (interval m s).den := by
  have hcast : (0 : Rat) < (interval m s).den := by
    rw [cast_den]
    positivity
  exact_mod_cast hcast

theorem mul_den_eq (m s : Nat) (q : Rat) : q * (interval m s).den = 4 * 2 ^ s * (q / ulp s) := by
  rw [cast_den, ulp, zpow_sub₀ two_ne_zero, zpow_natCast, div_div_eq_mul_div]
  field_simp

theorem roundsTo_of_holds {q : Rat} (hm : 0 < m)
    (h : (interval m s).Holds (q * (interval m s).den)) : RoundsTo m s q := by
  have hpos : (0 : Rat) < 4 * 2 ^ s := by positivity
  obtain ⟨hlow, hhigh, hinner⟩ := h
  rw [mul_den_eq, low_eq hm, high_eq] at hinner
  rw [mul_den_eq, low_eq hm] at hlow
  rw [mul_den_eq, high_eq] at hhigh
  refine ⟨le_of_mul_le_mul_left hlow hpos, le_of_mul_le_mul_left hhigh hpos, fun hodd => ?_⟩
  have hopen : (interval m s).closed = false := by
    rw [Nat.even_iff] at hodd
    exact decide_eq_false hodd
  exact ⟨lt_of_mul_lt_mul_left (hinner hopen).1 hpos.le,
    lt_of_mul_lt_mul_left (hinner hopen).2 hpos.le⟩

/-- Seventeen digits are enough to tell a number from its neighbours. -/
theorem grid_lt (hc : Canonical m s) (hm : 0 < m)
    (hk : (10 : Rat) ^ (k - 1) ≤ (interval m s).value / (interval m s).den) :
    (10 : Rat) ^ (k - (17 : Nat)) * (interval m s).den <
      (interval m s).high - (interval m s).low := by
  have hden : (0 : Rat) < (interval m s).den := by exact_mod_cast den_pos m s
  have hgrid : (10 : Rat) ^ (k - (17 : Nat)) = 10 ^ (k - 1) / 10 ^ 16 := by
    rw [← zpow_natCast, ← zpow_sub₀ (by norm_num)]
    congr 1
    push_cast
    ring
  have hwidth : (m / 10 ^ 16 : Rat) < 1 / 2 + gapBelow m s := by
    have hmantissa : (m : Rat) < 2 * hiddenBit := by exact_mod_cast hc.mantissa_lt
    rw [div_lt_iff₀ (by norm_num)]
    unfold gapBelow
    split_ifs with hpower
    · rw [hpower.1]
      norm_num [hiddenBit]
    · norm_num [hiddenBit] at hmantissa ⊢
      linarith
  rw [le_div_iff₀ hden, value_eq] at hk
  rw [hgrid, low_eq hm, high_eq]
  calc (10 ^ (k - 1) / 10 ^ 16 * (interval m s).den : Rat)
      = 10 ^ (k - 1) * (interval m s).den / 10 ^ 16 := by ring
    _ ≤ 4 * 2 ^ s * m / 10 ^ 16 := by gcongr
    _ = 4 * 2 ^ s * (m / 10 ^ 16) := by ring
    _ < 4 * 2 ^ s * (1 / 2 + gapBelow m s) := by gcongr
    _ = 4 * 2 ^ s * (m + 1 / 2) - 4 * 2 ^ s * (m - gapBelow m s) := by ring

theorem low_lt_value (hm : 0 < m) (s : Nat) : (interval m s).low < (interval m s).value := by
  have hgap : 0 < gapBelow m s := by
    unfold gapBelow
    split_ifs <;> norm_num
  have hcast : ((interval m s).low : Rat) < (interval m s).value := by
    rw [low_eq hm, value_eq]
    gcongr
    linarith
  exact_mod_cast hcast

theorem value_lt_high (m s : Nat) : (interval m s).value < (interval m s).high := by
  have hcast : ((interval m s).value : Rat) < (interval m s).high := by
    rw [high_eq, value_eq]
    gcongr
    linarith
  exact_mod_cast hcast

theorem den_le (hm : 0 < m) (s : Nat) :
    (interval m s).den ≤ (interval m s).value * 10 ^ (decimalReach + 1) := by
  have hpow (places : Nat) (h : places ≤ 3 * (decimalReach + 1)) :
      1 <<< places ≤ 10 ^ (decimalReach + 1) :=
    (Nat.one_shiftLeft places).trans_le (two_pow_le_ten_pow h)
  have hvalue : 4 ≤ (interval m s).value := by
    simp only [interval, Nat.shiftLeft_eq]
    exact (Nat.le_mul_of_pos_right 4 hm).trans (Nat.le_mul_of_pos_right _ (Nat.two_pow_pos s))
  exact Nat.mul_le_mul hvalue (hpow 1074 (by decide))

/-- The decimal of a number rounds to it. -/
theorem decimal_roundsTo (hc : Canonical m s) (hm : 0 < m) :
    RoundsTo m s ((decimal m s).1 * 10 ^ (decimal m s).2) := by
  have hgrid := grid_lt hc hm (point_le (den_pos m s) (den_le hm s))
  have hlast := hit?_isSome (den_pos m s) (low_lt_value hm s) (value_lt_high m s) hgrid
  rw [decimal, if_neg hm.ne']
  exact roundsTo_of_holds hm (search_holds hlast 16 1 rfl)

/-- A finite number is read back from its decimal. -/
theorem ofDecimal_decimal {x : Binary64} (h : x.magnitude = .finite m s) :
    ofDecimal x.negative (decimal m s).1 (decimal m s).2 = x := by
  have hc := canonical_of_magnitude h
  have hx := (eq_withSign_of_magnitude h).symm
  rcases Nat.eq_zero_or_pos m with rfl | hm
  · have hs : s = 0 := Nat.eq_zero_of_not_pos fun hs => absurd (hc.hidden hs) (by decide)
    rw [hs, Nat.zero_mul, Nat.zero_add] at hx
    rw [decimal, if_pos rfl, ofDecimal, if_pos (.inl rfl), hx]
  · rw [ofDecimal_eq, ofRational_of_roundsTo (decimal_roundsTo hc hm) hc hm, hx]

end TexturePack.Shortest

namespace TexturePack.Json

/-- The number of a text that a finite number is written as gives that number. -/
theorem toBinary64?_decimal {x : Binary64} {m s : Nat} (h : x.magnitude = .finite m s) :
    (Number.decimal x.negative (Shortest.decimal m s).1 (Shortest.decimal m s).2).toBinary64? =
      some x := by
  have hfinite : x.magnitude ≠ .infinite := by
    rw [h]
    exact Binary64.Class.noConfusion
  unfold Number.toBinary64?
  simp only [Shortest.ofDecimal_decimal h, if_neg hfinite]

end TexturePack.Json
