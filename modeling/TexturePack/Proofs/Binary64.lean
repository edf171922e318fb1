import Mathlib
import TexturePack.Json

/-! Rounding to binary numbers of 64 bits, over the rational numbers. A quotient and a decimal
become the number nearest to the rational they stand for, and what lies within half the distance
to the neighbours of a number becomes that number. -/
namespace TexturePack

/-- The integer nearest to a number that is not below zero; a half goes to the even neighbour. -/
def nearestEven (q : Rat) : Nat :=
  if q - ⌊q⌋₊ < 1 / 2 then ⌊q⌋₊
  else if 1 / 2 < q - ⌊q⌋₊ then ⌊q⌋₊ + 1
  else ⌊q⌋₊ + ⌊q⌋₊ % 2

theorem roundDiv_eq (num : Nat) {den : Nat} (h : 0 < den) :
    roundDiv num den = nearestEven (num / den) := by
  have hden : (0 : Rat) < den := by exact_mod_cast h
  have hfloor : ⌊(num : Rat) / den⌋₊ = num / den := Nat.floor_div_eq_div num den
  have hrest : (num : Rat) / den - (num / den : Nat) = (num % den : Nat) / den := by
    rw [eq_div_iff hden.ne', sub_mul, div_mul_cancel₀ _ hden.ne', sub_eq_iff_eq_add]
    exact_mod_cast (Nat.mod_add_div' num den).symm
  have hlow : ((num % den : Nat) / den : Rat) < 1 / 2 ↔ 2 * (num % den) < den := by
    rw [div_lt_div_iff₀ hden two_pos, one_mul, mul_comm]
    exact_mod_cast Iff.rfl
  have hhigh : 1 / 2 < ((num % den : Nat) / den : Rat) ↔ den < 2 * (num % den) := by
    rw [div_lt_div_iff₀ two_pos hden, one_mul, mul_comm]
    exact_mod_cast Iff.rfl
  simp only [roundDiv, nearestEven, hfloor, hrest, hlow, hhigh]

/-- A number within half a unit of an integer is rounded to it, at the ends if it is even. -/
theorem nearestEven_eq {q : Rat} {n : Nat} (hlow : n - 1 / 2 ≤ q) (hhigh : q ≤ n + 1 / 2)
    (heven : ¬Even n → n - 1 / 2 < q ∧ q < n + 1 / 2) (hq : 0 ≤ q) : nearestEven q = n := by
  unfold nearestEven
  rcases le_or_gt (n : Rat) q with hle | hlt
  · have hfloor : ⌊q⌋₊ = n := by
      rw [Nat.floor_eq_iff hq]
      exact ⟨hle, by linarith⟩
    rw [hfloor]
    split_ifs with h h'
    · rfl
    · linarith
    · have hn : Even n := by
        by_contra hodd
        exact h (by linarith [(heven hodd).2])
      rw [Nat.even_iff.mp hn, Nat.add_zero]
  · rcases n with _ | n
    · exact absurd hlt (not_lt.mpr (by simpa using hq))
    have hfloor : ⌊q⌋₊ = n := by
      rw [Nat.floor_eq_iff hq]
      push_cast at hlow hlt
      exact ⟨by linarith, hlt⟩
    rw [hfloor]
    push_cast at hlow heven
    split_ifs with h h'
    · linarith
    · rfl
    · have hn : Even (n + 1) := by
        by_contra hodd
        exact h' (by linarith [(heven hodd).1])
      have hone : n % 2 = 1 := Nat.odd_iff.mp (by simpa [Nat.even_add_one] using hn)
      rw [hone]

theorem nearestEven_eq_zero {q : Rat} (hq : 0 ≤ q) (h : q < 1 / 2) : nearestEven q = 0 := by
  refine nearestEven_eq ?_ ?_ (fun hodd => absurd Even.zero hodd) hq
  · push_cast
    linarith
  · push_cast
    linarith

theorem cast_shiftLeft_toNat {e : Int} (h : 0 ≤ e) (n : Nat) :
    ((n <<< e.toNat : Nat) : Rat) = n * 2 ^ e := by
  rw [Nat.shiftLeft_eq, Nat.cast_mul, Nat.cast_pow, Nat.cast_ofNat, ← zpow_natCast,
    Int.toNat_of_nonneg h]

theorem cast_pow_toNat {e : Int} (h : 0 ≤ e) : ((Nat.pow 10 e.toNat : Nat) : Rat) = 10 ^ e := by
  rw [Nat.pow_eq, Nat.cast_pow, Nat.cast_ofNat, ← zpow_natCast, Int.toNat_of_nonneg h]

namespace Binary64

variable {num den m s : Nat} {q : Rat} {negative : Bool} {x : Binary64}

/-- Whether a power of two reaches a quotient, on whichever side it is an integer. -/
theorem shifted_le_iff (num : Nat) (hden : 0 < den) (e : Int) :
    (if 0 ≤ e then den <<< e.toNat ≤ num else den ≤ num <<< (-e).toNat) ↔
      (2 : Rat) ^ e ≤ num / den := by
  have hden' : (0 : Rat) < den := by exact_mod_cast hden
  rw [le_div_iff₀ hden']
  split_ifs with he
  · rw [← Nat.cast_le (α := Rat), cast_shiftLeft_toNat he, mul_comm]
  · rw [← Nat.cast_le (α := Rat), cast_shiftLeft_toNat (by omega), zpow_neg, ← div_eq_mul_inv,
      le_div_iff₀ (by positivity), mul_comm]

theorem log2_bounds {n : Nat} (hn : 0 < n) :
    (2 : Rat) ^ (n.log2 : Int) ≤ n ∧ (n : Rat) < 2 ^ ((n.log2 : Int) + 1) := by
  rw [← Nat.cast_succ, zpow_natCast, zpow_natCast]
  exact_mod_cast And.intro (Nat.log2_self_le hn.ne') Nat.lt_log2_self

theorem floorLog2_eq (hnum : 0 < num) (hden : 0 < den) :
    floorLog2 num den = Int.log 2 (num / den : Rat) := by
  have hq : (0 : Rat) < num / den := by positivity
  have hden' : (0 : Rat) < den := by positivity
  -- The quotient lies within a factor of two of the one of the highest powers of two.
  have hlow : (num.log2 : Int) - den.log2 - 1 ≤ Int.log 2 (num / den : Rat) := by
    rw [← Int.zpow_le_iff_le_log one_lt_two hq, sub_sub, Nat.cast_two,
      zpow_sub₀ two_ne_zero]
    exact div_le_div₀ num.cast_nonneg (log2_bounds hnum).1 hden' (log2_bounds hden).2.le
  have hhigh : Int.log 2 (num / den : Rat) < (num.log2 : Int) - den.log2 + 1 := by
    rw [← Int.lt_zpow_iff_log_lt one_lt_two hq, sub_add_eq_add_sub, Nat.cast_two,
      zpow_sub₀ two_ne_zero]
    exact div_lt_div₀ (log2_bounds hnum).2 (log2_bounds hden).1 (by positivity) (by positivity)
  have hreached := (shifted_le_iff num hden ((num.log2 : Int) - den.log2)).trans
    (Int.zpow_le_iff_le_log one_lt_two hq)
  simp only [floorLog2, hreached]
  split_ifs <;> omega

/-- The number nearest to a rational one that is not below zero. Next to numbers below the least
binade the unit is the least number of all. -/
def ofRational (negative : Bool) (q : Rat) : Binary64 :=
  if q = 0 then withSign negative 0
  else
    let unit := max (Int.log 2 q - 52) (-1074)
    withSign negative
      (min infinityBits ((unit + 1074).toNat * hiddenBit + nearestEven (q / 2 ^ unit)))

theorem roundDiv_shifted (hden : 0 < den) (unit : Int) :
    (if 0 ≤ unit then roundDiv num (den <<< unit.toNat)
      else roundDiv (num <<< (-unit).toNat) den) = nearestEven (num / den / 2 ^ unit) := by
  split_ifs with h
  · rw [roundDiv_eq _ (by rw [Nat.shiftLeft_eq]; positivity), cast_shiftLeft_toNat h, div_div]
  · rw [roundDiv_eq _ hden, cast_shiftLeft_toNat (by omega), zpow_neg, div_right_comm,
      ← div_eq_mul_inv]

theorem ofRatio_eq (negative : Bool) (num : Nat) (hden : 0 < den) :
    ofRatio negative num den = ofRational negative (num / den) := by
  rcases Nat.eq_zero_or_pos num with rfl | hnum
  · simp [ofRatio, ofRational]
  have hq : (num / den : Rat) ≠ 0 := by positivity
  simp only [ofRatio, ofRational, if_neg hnum.ne', if_neg hq, floorLog2_eq hnum hden,
    roundDiv_shifted hden]

theorem ofRational_eq {unit : Int} {n : Nat} (hq : 0 < q)
    (hunit : max (Int.log 2 q - 52) (-1074) = unit) (hnear : nearestEven (q / 2 ^ unit) = n)
    (hbits : (unit + 1074).toNat * hiddenBit + n ≤ infinityBits) :
    ofRational negative q = withSign negative ((unit + 1074).toNat * hiddenBit + n) := by
  simp only [ofRational, if_neg hq.ne', hunit, hnear, min_eq_right hbits]

/-- Below half the least number there is only zero. -/
theorem ofRational_of_lt (hq : 0 < q) (h : q < 2 ^ (-1075 : Int)) :
    ofRational negative q = withSign negative 0 := by
  have hlog : Int.log 2 q < -1075 := (Int.lt_zpow_iff_log_lt one_lt_two hq).mp h
  have hunit : max (Int.log 2 q - 52) (-1074) = -1074 := max_eq_right (by omega)
  have hhalf : q / 2 ^ (-1074 : Int) < 1 / 2 := by
    rw [div_lt_iff₀ (by positivity), one_div, ← zpow_neg_one, ← zpow_add₀ two_ne_zero]
    exact h
  exact ofRational_eq hq hunit (nearestEven_eq_zero (by positivity) hhalf) (by decide)

/-- What lies beyond the largest number is infinite. -/
theorem ofRational_of_le (h : 2 ^ (1025 : Int) ≤ q) :
    ofRational negative q = withSign negative infinityBits := by
  have hq : 0 < q := lt_of_lt_of_le (by positivity) h
  have hlog : 1025 ≤ Int.log 2 q := (Int.zpow_le_iff_le_log one_lt_two hq).mp h
  have hunit : 2047 ≤ (max (Int.log 2 q - 52) (-1074) + 1074).toNat := by omega
  rw [ofRational, if_neg hq.ne']
  exact congrArg (withSign negative)
    (min_eq_left (Nat.le_add_right_of_le (Nat.mul_le_mul_right _ hunit)))

theorem two_pow_le_ten_pow {a b : Nat} (h : a ≤ 3 * b) : 2 ^ a ≤ 10 ^ b :=
  calc 2 ^ a ≤ 2 ^ (3 * b) := Nat.pow_le_pow_right two_pos h
    _ = 8 ^ b := pow_mul 2 3 b
    _ ≤ 10 ^ b := Nat.pow_le_pow_left (by decide) b

theorem digitCount_bounds {n : Nat} (hn : 0 < n) :
    10 ^ digitCount n ≤ 10 * n ∧ n < 10 ^ digitCount n := by
  induction n using Nat.strongRecOn with
  | ind n ih =>
    rw [digitCount]
    split_ifs with h
    · omega
    · obtain ⟨hlow, hhigh⟩ := ih (n / 10) (by omega) (by omega)
      rw [pow_succ]
      omega

/-- The size of a decimal as a power of ten. -/
theorem decimal_bounds {n : Nat} (hn : 0 < n) (e : Int) :
    (10 : Rat) ^ (digitCount n + e - 1) ≤ n * 10 ^ e ∧
      (n * 10 ^ e : Rat) < 10 ^ (digitCount n + e) := by
  obtain ⟨hlow, hhigh⟩ := digitCount_bounds hn
  have hlow' : (10 : Rat) ^ digitCount n ≤ 10 * n := by exact_mod_cast hlow
  have hhigh' : (n : Rat) < 10 ^ digitCount n := by exact_mod_cast hhigh
  have hpos : (0 : Rat) < 10 ^ e := by positivity
  rw [zpow_sub_one₀ (by norm_num), zpow_add₀ (by norm_num), zpow_natCast]
  constructor
  · rw [← div_eq_mul_inv, div_le_iff₀ (by norm_num)]
    nlinarith
  · exact mul_lt_mul_of_pos_right hhigh' hpos

theorem ofDecimal_eq (negative : Bool) (significand : Nat) (exponent : Int) :
    ofDecimal negative significand exponent =
      ofRational negative (significand * 10 ^ exponent) := by
  rcases Nat.eq_zero_or_pos significand with rfl | hpos
  · simp [ofDecimal, ofRational]
  obtain ⟨hlow, hhigh⟩ := decimal_bounds hpos exponent
  simp only [ofDecimal, hpos.ne', false_or]
  split_ifs with hsmall hlarge hexp
  · rw [ofRational_of_lt (by positivity)]
    calc (significand * 10 ^ exponent : Rat) < 10 ^ (digitCount significand + exponent) := hhigh
      _ ≤ 10 ^ (-400 : Int) := zpow_le_zpow_right₀ (by norm_num) hsmall.le
      _ ≤ 2 ^ (-1075 : Int) := by
        rw [zpow_neg, zpow_neg]
        exact inv_anti₀ (by positivity) (by exact_mod_cast two_pow_le_ten_pow (by decide))
  · rw [ofRational_of_le]
    calc (2 : Rat) ^ (1025 : Int) ≤ 10 ^ (400 : Int) := by
          exact_mod_cast two_pow_le_ten_pow (by decide)
      _ ≤ 10 ^ (digitCount significand + exponent - 1) :=
        zpow_le_zpow_right₀ (by norm_num) (Int.le_sub_one_of_lt hlarge)
      _ ≤ significand * 10 ^ exponent := hlow
  · rw [ofRatio_eq _ _ one_pos, Nat.cast_mul, cast_pow_toNat hexp, Nat.cast_one, div_one]
  · rw [ofRatio_eq, cast_pow_toNat (by omega), zpow_neg, div_inv_eq_mul]
    exact Nat.pow_pos (by decide)

/-- The mantissa and the scale of a finite number: only those of the least scale go without the
hidden bit. -/
structure Canonical (mantissa scale : Nat) : Prop where
  mantissa_lt : mantissa < 2 * hiddenBit
  scale_lt : scale < 2046
  hidden : 0 < scale → hiddenBit ≤ mantissa

theorem negative_iff : x.negative = true ↔ signBit ≤ x.bits.toNat := decide_eq_true_iff

/-- The bits of a number are its sign and its fields. -/
theorem eq_withSign_fields (x : Binary64) :
    x = withSign x.negative (x.exponentField * hiddenBit + x.fractionField) := by
  have hlt := x.bits.toNat_lt
  have hbits : x.bits.toNat = if x.negative then
      signBit + (x.exponentField * hiddenBit + x.fractionField)
    else x.exponentField * hiddenBit + x.fractionField := by
    simp only [exponentField, fractionField, hiddenBit]
    split_ifs with h <;> rw [negative_iff] at h <;> simp only [signBit] at h ⊢ <;> omega
  rw [withSign, ← hbits, UInt64.ofNat_toNat]

theorem eq_withSign_of_magnitude (h : x.magnitude = .finite m s) :
    x = withSign x.negative (s * hiddenBit + m) := by
  have hfields : x.exponentField * hiddenBit + x.fractionField = s * hiddenBit + m := by
    simp only [magnitude] at h
    split_ifs at h with htop hfraction hzero
    · obtain ⟨rfl, rfl⟩ := Class.finite.inj h
      rw [hzero]
    · obtain ⟨rfl, rfl⟩ := Class.finite.inj h
      obtain ⟨n, hn⟩ := Nat.exists_eq_succ_of_ne_zero hzero
      rw [hn, Nat.succ_sub_one, Nat.succ_mul, Nat.add_assoc]
  rw [← hfields]
  exact x.eq_withSign_fields

theorem canonical_of_magnitude (h : x.magnitude = .finite m s) : Canonical m s := by
  have hfraction : x.fractionField < hiddenBit := Nat.mod_lt _ (by decide)
  have hexponent : x.exponentField < 2048 := Nat.mod_lt _ (by decide)
  simp only [magnitude] at h
  split_ifs at h with htop hinfinite hzero
  · obtain ⟨rfl, rfl⟩ := Class.finite.inj h
    exact ⟨by omega, by decide, fun h => absurd h (lt_irrefl 0)⟩
  · obtain ⟨rfl, rfl⟩ := Class.finite.inj h
    exact ⟨by omega, by omega, fun _ => Nat.le_add_right ..⟩

/-- Up to the bits of the infinite number there are only numbers. -/
theorem magnitude_withSign_ne_nan {bits : Nat} (h : bits ≤ infinityBits) :
    (withSign negative bits).magnitude ≠ .nan := by
  have hbits : (withSign negative bits).bits.toNat =
      if negative then signBit + bits else bits := by
    refine UInt64.toNat_ofNat_of_lt' ?_
    simp only [infinityBits, hiddenBit] at h
    simp only [signBit, UInt64.size]
    split_ifs <;> omega
  have hfraction : (withSign negative bits).exponentField = 2047 →
      (withSign negative bits).fractionField = 0 := by
    simp only [infinityBits, hiddenBit] at h
    simp only [exponentField, fractionField, hbits, hiddenBit, signBit]
    split_ifs <;> omega
  rw [magnitude]
  split_ifs with htop hzero
  · exact Class.noConfusion
  · exact absurd (hfraction htop) hzero
  · exact Class.noConfusion
  · exact Class.noConfusion

theorem magnitude_ofRational_ne_nan : (ofRational negative q).magnitude ≠ .nan := by
  unfold ofRational
  split_ifs
  · exact magnitude_withSign_ne_nan (Nat.zero_le _)
  · exact magnitude_withSign_ne_nan (Nat.min_le_left ..)

/-- How far below a mantissa the rationals begin that round to it. Below a power of two the next
number is nearer. -/
def gapBelow (m s : Nat) : Rat := if m = hiddenBit ∧ 0 < s then 1 / 4 else 1 / 2

/-- The number one in the last place of a mantissa. -/
def ulp (s : Nat) : Rat := 2 ^ ((s : Int) - 1074)

/-- The rationals half way to the neighbours of a number; the ends belong to even mantissas. -/
structure RoundsTo (m s : Nat) (q : Rat) : Prop where
  low : m - gapBelow m s ≤ q / ulp s
  high : q / ulp s ≤ m + 1 / 2
  inner : ¬Even m → m - gapBelow m s < q / ulp s ∧ q / ulp s < m + 1 / 2

theorem Canonical.bits_le (h : Canonical m s) : s * hiddenBit + m ≤ infinityBits := by
  obtain ⟨hm, hs, -⟩ := h
  simp only [hiddenBit] at hm
  simp only [infinityBits, hiddenBit]
  omega

theorem ulp_pos (s : Nat) : 0 < ulp s := by
  unfold ulp
  positivity

theorem gapBelow_le : gapBelow m s ≤ 1 / 2 := by
  unfold gapBelow
  split_ifs <;> norm_num

theorem RoundsTo.pos (h : RoundsTo m s q) (hm : 0 < m) : 0 < q := by
  have hone : (1 : Rat) ≤ m := by exact_mod_cast hm
  have hlow := h.low
  have hgap := gapBelow_le (m := m) (s := s)
  exact (div_pos_iff_of_pos_right (ulp_pos s)).mp (by linarith)

theorem RoundsTo.nearestEven_eq (h : RoundsTo m s q) (hm : 0 < m) :
    nearestEven (q / ulp s) = m := by
  have hgap := gapBelow_le (m := m) (s := s)
  have hlow := h.low
  refine TexturePack.nearestEven_eq (by linarith) h.high (fun hodd => ?_)
    (div_nonneg (h.pos hm).le (ulp_pos s).le)
  have hinner := h.inner hodd
  exact ⟨by linarith, hinner.2⟩

theorem le_log_iff (hq : 0 < q) (s : Nat) (k : Int) :
    k + (s - 1074) ≤ Int.log 2 q ↔ (2 : Rat) ^ k ≤ q / ulp s := by
  rw [← Int.zpow_le_iff_le_log one_lt_two hq, le_div_iff₀ (ulp_pos s), ulp, Nat.cast_two,
    zpow_add₀ two_ne_zero]

theorem cast_hiddenBit : (hiddenBit : Rat) = 2 ^ (52 : Int) := by norm_num [hiddenBit]

/-- Just below a power of two the unit is half as large, and the mantissa twice. -/
theorem ofRational_below_power {s : Nat} (hs : 0 < s) (hlow : hiddenBit - 1 / 4 ≤ q / ulp s)
    (hhigh : q / ulp s < hiddenBit) (hbits : s * hiddenBit + hiddenBit ≤ infinityBits) :
    ofRational negative q = withSign negative (s * hiddenBit + hiddenBit) := by
  have hq : 0 < q := by
    refine (div_pos_iff_of_pos_right (ulp_pos s)).mp (lt_of_lt_of_le ?_ hlow)
    norm_num [hiddenBit]
  have hlog : 51 + (s - 1074) ≤ Int.log 2 q := by
    rw [le_log_iff hq]
    refine le_trans ?_ hlow
    norm_num [hiddenBit]
  have hlog' : Int.log 2 q < 52 + (s - 1074) := by
    rw [← not_le, le_log_iff hq, not_le, ← cast_hiddenBit]
    exact hhigh
  have hunit : max (Int.log 2 q - 52) (-1074) = (s : Int) - 1 - 1074 := by omega
  have hhalf : q / 2 ^ ((s : Int) - 1 - 1074) = 2 * (q / ulp s) := by
    rw [ulp, sub_right_comm, zpow_sub_one₀ two_ne_zero, ← div_eq_mul_inv, div_div_eq_mul_div]
    ring
  have hnear : nearestEven (q / 2 ^ ((s : Int) - 1 - 1074)) = 2 * hiddenBit := by
    rw [hhalf]
    refine nearestEven_eq ?_ ?_ (fun hodd => absurd (even_two_mul _) hodd) ?_
    · push_cast
      linarith
    · push_cast
      linarith
    · have := div_pos hq (ulp_pos s)
      linarith
  have hscale : ((s : Int) - 1 - 1074 + 1074).toNat * hiddenBit + 2 * hiddenBit =
      s * hiddenBit + hiddenBit := by
    rw [← Nat.add_mul, ← Nat.succ_mul]
    congr 1
    omega
  rw [ofRational_eq hq hunit hnear (hscale.le.trans hbits), hscale]

theorem ofRational_of_roundsTo (h : RoundsTo m s q) (hc : Canonical m s) (hm : 0 < m) :
    ofRational negative q = withSign negative (s * hiddenBit + m) := by
  have hq := h.pos hm
  by_cases hbelow : 0 < s ∧ q / ulp s < hiddenBit
  · obtain ⟨hs, hlt⟩ := hbelow
    have hpower : m = hiddenBit := by
      have hlow := h.low
      have hgap := gapBelow_le (m := m) (s := s)
      have hnext : (m : Rat) < hiddenBit + 1 := by linarith
      exact le_antisymm (Nat.lt_succ_iff.mp (by exact_mod_cast hnext)) (hc.hidden hs)
    have hlow := h.low
    rw [gapBelow, if_pos ⟨hpower, hs⟩] at hlow
    subst hpower
    exact ofRational_below_power hs hlow hlt hc.bits_le
  · have hlog : Int.log 2 q < 53 + (s - 1074) := by
      have hlt : (m : Rat) + 1 ≤ 2 * hiddenBit := by exact_mod_cast hc.mantissa_lt
      have htwice : (2 : Rat) ^ (53 : Int) = 2 * hiddenBit := by norm_num [hiddenBit]
      rw [← not_le, le_log_iff hq, not_le, htwice]
      linarith [h.high]
    have hunit : max (Int.log 2 q - 52) (-1074) = (s : Int) - 1074 := by
      rcases Nat.eq_zero_or_pos s with rfl | hs
      · omega
      · have : 52 + (s - 1074) ≤ Int.log 2 q := by
          rw [le_log_iff hq, ← cast_hiddenBit]
          exact not_lt.mp fun hlt => hbelow ⟨hs, hlt⟩
        omega
    have hscale : ((s : Int) - 1074 + 1074).toNat * hiddenBit + m = s * hiddenBit + m := by
      rw [sub_add_cancel, Int.toNat_natCast]
    rw [ofRational_eq hq hunit (h.nearestEven_eq hm) (hscale.le.trans hc.bits_le), hscale]

end Binary64

namespace Json.Number

variable {n n' : Number} {x : Binary64}

def negative : Number → Bool
  | whole _ => false
  | decimal negative _ _ => negative

/-- What a number stands for, without its sign. -/
def rational : Number → Rat
  | whole n => n
  | decimal _ significand exponent => significand * 10 ^ exponent

theorem toBinary64?_eq (n : Number) :
    n.toBinary64? =
      if (Binary64.ofRational n.negative n.rational).magnitude = .infinite then none
      else some (Binary64.ofRational n.negative n.rational) := by
  cases n with
  | whole n =>
    have hscaled : (n : Rat) = n * 10 ^ (0 : Int) := by rw [zpow_zero, mul_one]
    rw [negative, rational, hscaled, ← Binary64.ofDecimal_eq]
    rfl
  | decimal negative significand exponent =>
    rw [Number.negative, rational, ← Binary64.ofDecimal_eq]
    rfl

/-- Only the sign and the rational matter, not how they are written. -/
theorem toBinary64?_congr (hsign : n.negative = n'.negative) (h : n.rational = n'.rational) :
    n.toBinary64? = n'.toBinary64? := by
  rw [toBinary64?_eq, toBinary64?_eq, hsign, h]

theorem finite_of_toBinary64? (h : n.toBinary64? = some x) : ∃ m s, x.magnitude = .finite m s := by
  rw [toBinary64?_eq] at h
  split_ifs at h with hinfinite
  obtain rfl := Option.some.inj h
  cases hclass : (Binary64.ofRational n.negative n.rational).magnitude with
  | nan => exact absurd hclass Binary64.magnitude_ofRational_ne_nan
  | infinite => exact absurd hclass hinfinite
  | finite m s => exact ⟨m, s, rfl⟩

end Json.Number
end TexturePack
