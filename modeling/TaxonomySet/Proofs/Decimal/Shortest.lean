import Mathlib
import TaxonomySet.Decimal.Shortest

namespace TaxonomySet

namespace Binary64

theorem zpow_eq_div {b : ℚ} (hb : b ≠ 0) (z : ℤ) : b ^ z = b ^ z.toNat / b ^ (-z).toNat := by
  conv_lhs => rw [← Int.toNat_sub_toNat_neg z]
  rw [zpow_sub₀ hb, zpow_natCast, zpow_natCast]

theorem decimalLe_iff {c m : ℕ} {k e : ℤ} : decimalLe c k m e = true ↔ (c : ℚ) * 10 ^ k ≤ m * 2 ^ e := by
  unfold decimalLe
  rw [decide_eq_true_iff, Nat.shiftLeft_eq, Nat.shiftLeft_eq, zpow_eq_div (by norm_num) k,
    zpow_eq_div (by norm_num) e, mul_div_assoc', mul_div_assoc', div_le_div_iff₀ (by positivity) (by positivity)]
  exact_mod_cast Iff.rfl

theorem leDecimal_iff {c m : ℕ} {k e : ℤ} : leDecimal m e c k = true ↔ (m : ℚ) * 2 ^ e ≤ c * 10 ^ k := by
  unfold leDecimal
  rw [decide_eq_true_iff, Nat.shiftLeft_eq, Nat.shiftLeft_eq, zpow_eq_div (by norm_num) k,
    zpow_eq_div (by norm_num) e, mul_div_assoc', mul_div_assoc', div_le_div_iff₀ (by positivity) (by positivity)]
  exact_mod_cast Iff.rfl

namespace Rounding

/-- Where the numbers begin that round to a number. -/
def low (r : Rounding) : ℚ := r.lower * 2 ^ r.exponent

/-- Where the numbers end that round to a number. -/
def high (r : Rounding) : ℚ := r.upper * 2 ^ r.exponent

/-- What rounds to a number. -/
def range (r : Rounding) : Set ℚ := if r.closed then Set.Icc r.low r.high else Set.Ioo r.low r.high

theorem holds_iff {r : Rounding} {c : ℕ} {k : ℤ} : r.holds c k = true ↔ (c : ℚ) * 10 ^ k ∈ r.range := by
  unfold holds range
  split
  · rw [Bool.and_eq_true, leDecimal_iff, decimalLe_iff, Set.mem_Icc]
    rfl
  · rw [Bool.and_eq_true, Bool.not_eq_true', Bool.not_eq_true', ← Bool.not_eq_true, ← Bool.not_eq_true,
      decimalLe_iff, leDecimal_iff, not_le, not_le, Set.mem_Ioo]
    rfl

theorem mem_range_of_between {r : Rounding} {v : ℚ} (hlow : r.low < v) (hhigh : v < r.high) : v ∈ r.range := by
  unfold range
  split
  · exact ⟨hlow.le, hhigh.le⟩
  · exact ⟨hlow, hhigh⟩

theorem between_of_mem_range {r : Rounding} {v : ℚ} (h : v ∈ r.range) : r.low ≤ v ∧ v ≤ r.high := by
  unfold range at h
  split at h
  · exact h
  · exact ⟨h.1.le, h.2.le⟩

end Rounding

theorem exponentUnit_eq : exponentUnit = 2 ^ 52 := by decide

/-- A magnitude is a mantissa in a binade. But for the first binade, the mantissa has all its bits. -/
theorem exists_binade (x : Binary64) :
    ∃ b : ℕ, x.exponent = b - 1074 ∧ x.magnitude = b * exponentUnit + x.mantissa ∧
      x.mantissa < 2 * exponentUnit ∧ (0 < b → exponentUnit ≤ x.mantissa) := by
  refine ⟨max 1 (x.magnitude / exponentUnit) - 1, ?_⟩
  unfold exponent mantissa
  rw [exponentUnit_eq]
  split <;> omega

theorem closed_rounding (x : Binary64) : x.rounding.closed = decide (x.magnitude % 2 = 0) := by
  obtain ⟨b, -, hmagnitude, -⟩ := x.exists_binade
  unfold rounding
  rw [hmagnitude, exponentUnit_eq, decide_eq_decide]
  omega

theorem scale_eq (n b : ℕ) {e : ℤ} (he : e = b - 1074) :
    (n : ℚ) * 2 ^ (e - 2) = (n * 2 ^ b : ℕ) * 2 ^ (-1076 : ℤ) := by
  rw [he, show (b : ℤ) - 1074 - 2 = b + (-1076) by ring, zpow_add₀ (by norm_num), zpow_natCast,
    Nat.cast_mul, Nat.cast_pow, Nat.cast_ofNat, mul_assoc]

/-- The numbers that round to a number end before those begin that round to a greater one. Only where the second
number is the next are the ends the same. -/
theorem high_rounding_le_low_rounding {x y : Binary64} (h : x.magnitude < y.magnitude) :
    x.rounding.high ≤ y.rounding.low ∧
      (x.rounding.high = y.rounding.low → y.magnitude = x.magnitude + 1) := by
  obtain ⟨b, hx, hxMagnitude, hxLt, hxGe⟩ := x.exists_binade
  obtain ⟨c, hy, hyMagnitude, hyLt, hyGe⟩ := y.exists_binade
  have hlower : y.rounding.lower = 4 * y.mantissa - 1 ∧ 0 < c ∧ y.mantissa = exponentUnit ∨
      y.rounding.lower = 4 * y.mantissa - 2 ∧ ¬ (0 < c ∧ y.mantissa = exponentUnit) := by
    unfold rounding
    dsimp only
    split <;> omega
  have hends : (4 * x.mantissa + 2) * 2 ^ b ≤ y.rounding.lower * 2 ^ c ∧
      ((4 * x.mantissa + 2) * 2 ^ b = y.rounding.lower * 2 ^ c → y.magnitude = x.magnitude + 1) := by
    rw [exponentUnit_eq] at *
    have hpos := Nat.two_pow_pos b
    rcases Nat.lt_trichotomy b c with hbc | rfl | hbc
    · -- in a higher binade, everything lies above the last number of this one
      obtain ⟨d, rfl⟩ := Nat.exists_eq_add_of_lt hbc
      have hpow : 2 ^ (b + d + 1) = (2 * 2 ^ d) * 2 ^ b := by ring
      rw [hpow, ← mul_assoc, Nat.mul_le_mul_right_iff hpos, Nat.mul_left_inj hpos.ne']
      rcases Nat.eq_zero_or_pos d with rfl | hd
      · omega
      · have hgrows : y.rounding.lower * (2 * 2) ≤ y.rounding.lower * (2 * 2 ^ d) :=
          Nat.mul_le_mul_left _ (Nat.mul_le_mul_left _ (Nat.le_self_pow hd.ne' 2))
        omega
    · rw [Nat.mul_le_mul_right_iff hpos, Nat.mul_left_inj hpos.ne']
      omega
    · omega
  change ((4 * x.mantissa + 2 : ℕ) : ℚ) * 2 ^ (x.exponent - 2) ≤ y.rounding.lower * 2 ^ (y.exponent - 2) ∧
    (((4 * x.mantissa + 2 : ℕ) : ℚ) * 2 ^ (x.exponent - 2) = y.rounding.lower * 2 ^ (y.exponent - 2) → _)
  rw [scale_eq _ _ hx, scale_eq _ _ hy, mul_le_mul_iff_left₀ (by positivity), mul_left_inj' (by positivity),
    Nat.cast_le, Nat.cast_inj]
  exact hends

theorem disjoint_range {x y : Binary64} (h : x.magnitude < y.magnitude) :
    Disjoint x.rounding.range y.rounding.range := by
  rw [Set.disjoint_left]
  intro v hx hy
  obtain ⟨hle, hnext⟩ := high_rounding_le_low_rounding h
  have hxv := (Rounding.between_of_mem_range hx).2
  have hvy := (Rounding.between_of_mem_range hy).1
  have hclosed : x.rounding.closed = true ∧ y.rounding.closed = true := by
    constructor
    · by_contra hopen
      rw [Rounding.range, if_neg hopen] at hx
      exact absurd (hx.2.trans_le hle) (not_lt.2 hvy)
    · by_contra hopen
      rw [Rounding.range, if_neg hopen] at hy
      exact absurd (hle.trans_lt hy.1) (not_lt.2 hxv)
  rw [closed_rounding, closed_rounding, decide_eq_true_iff, decide_eq_true_iff] at hclosed
  have hmagnitude := hnext (le_antisymm hle (hvy.trans hxv))
  omega

theorem lt_pow_decimalLength (n : ℕ) : n < 10 ^ decimalLength n := by
  fun_induction decimalLength n with
  | case1 => exact Nat.one_pos
  | case2 n _ ih =>
    rw [pow_succ]
    omega

theorem exists_decimalLength {n : ℕ} (h : 0 < n) : ∃ l, decimalLength n = l + 1 ∧ 10 ^ l ≤ n := by
  fun_induction decimalLength n with
  | case1 => cases h
  | case2 n _ ih =>
    refine ⟨_, rfl, ?_⟩
    rcases Nat.eq_zero_or_pos (n / 10) with hzero | hpos
    · rw [hzero, decimalLength, if_pos rfl]
      exact h
    · obtain ⟨l, hl, hle⟩ := ih hpos
      rw [hl, pow_succ]
      omega

/-- A number has as many digits before its point as `decimalPoint` says, or more. -/
theorem zpow_decimalPoint_le {m : ℕ} (hm : 0 < m) (e : ℤ) : (10 : ℚ) ^ (decimalPoint m e - 1) ≤ m * 2 ^ e := by
  have hnum : 0 < m <<< e.toNat := by
    rw [Nat.shiftLeft_eq]
    positivity
  have hden : 0 < 1 <<< (-e).toNat := by
    rw [Nat.shiftLeft_eq]
    positivity
  have hvalue : (m : ℚ) * (2 : ℚ) ^ e = (m <<< e.toNat : ℕ) / (1 <<< (-e).toNat : ℕ) := by
    rw [zpow_eq_div (by norm_num), Nat.shiftLeft_eq, Nat.shiftLeft_eq, mul_div_assoc']
    push_cast
    rw [one_mul]
  rw [hvalue]
  unfold decimalPoint
  generalize m <<< e.toNat = num at *
  generalize 1 <<< (-e).toNat = den at *
  dsimp only
  split
  · rename_i hle
    obtain ⟨l, hl, hpow⟩ := exists_decimalLength (Nat.div_pos hle hden)
    rw [hl, Nat.cast_add, Nat.cast_one, add_sub_cancel_right, zpow_natCast]
    calc (10 : ℚ) ^ l ≤ (num / den : ℕ) := by exact_mod_cast hpow
      _ ≤ num / den := Nat.cast_div_le
  · have hceil : den ≤ num * 10 ^ decimalLength ((den + num - 1) / num - 1) := by
      have hlt := lt_pow_decimalLength ((den + num - 1) / num - 1)
      calc den ≤ num * ((den + num - 1) / num) := by
            have hmod := Nat.mod_lt (den + num - 1) hnum
            have hdiv := Nat.div_add_mod (den + num - 1) num
            omega
        _ ≤ num * 10 ^ decimalLength ((den + num - 1) / num - 1) := Nat.mul_le_mul_left _ (by omega)
    rw [sub_right_comm, sub_self, zero_sub, zpow_neg, zpow_natCast, inv_eq_one_div,
      div_le_div_iff₀ (by positivity) (by positivity), one_mul]
    exact_mod_cast hceil

namespace Rounding

/-- The decimals of one exponent next to a number. -/
theorem neighbours (v c : ℕ) (e k : ℤ)
    (hc : c = (v <<< e.toNat) * Nat.pow 10 (-k).toNat / (Nat.pow 10 k.toNat <<< (-e).toNat)) :
    (c : ℚ) * 10 ^ k ≤ v * 2 ^ e ∧ (v : ℚ) * 2 ^ e < (c + 1 : ℕ) * 10 ^ k := by
  have hden : 0 < Nat.pow 10 k.toNat <<< (-e).toNat := by
    rw [Nat.shiftLeft_eq]
    exact Nat.mul_pos (Nat.pow_pos (by norm_num)) (Nat.two_pow_pos _)
  have hscale (n : ℕ) : (n * Nat.pow 10 k.toNat) <<< (-e).toNat = n * (Nat.pow 10 k.toNat <<< (-e).toNat) := by
    rw [Nat.shiftLeft_eq, Nat.shiftLeft_eq, Nat.mul_assoc]
  rw [← not_le, ← decimalLe_iff, ← decimalLe_iff]
  unfold decimalLe
  rw [decide_eq_true_iff, decide_eq_true_iff, hscale, hscale, hc, not_le]
  exact ⟨Nat.div_mul_le_self _ _, Nat.lt_mul_of_div_lt (Nat.lt_succ_self _) hden⟩

variable {r : Rounding} (hlow : r.low < r.value * 2 ^ r.exponent) (hhigh : r.value * 2 ^ r.exponent < r.high)
include hlow hhigh

/-- Where decimals lie closer than an interval is wide, one of those next to the number is in the interval. -/
theorem holds_neighbour {c : ℕ} {k : ℤ} (hwidth : (10 : ℚ) ^ k < r.high - r.low)
    (hle : (c : ℚ) * 10 ^ k ≤ r.value * 2 ^ r.exponent)
    (hlt : r.value * 2 ^ r.exponent < (c + 1 : ℕ) * (10 : ℚ) ^ k) :
    r.holds c k = true ∨ r.holds (c + 1) k = true := by
  rw [holds_iff, holds_iff]
  rcases lt_or_ge r.low (c * 10 ^ k) with habove | hbelow
  · exact .inl (mem_range_of_between habove (hle.trans_lt hhigh))
  · refine .inr (mem_range_of_between (hlow.trans hlt) ?_)
    push_cast
    linarith

/-- Seventeen digits are enough where they make decimals closer than the interval is wide. -/
theorem search_mem_range {point : ℤ} (hwidth : (10 : ℚ) ^ (point - 17) < r.high - r.low) (fuel digits : ℕ)
    (hdigits : digits + fuel = 17) :
    ((r.search point fuel digits).1 : ℚ) * 10 ^ (r.search point fuel digits).2 ∈ r.range := by
  have hshift (c : ℕ) (k : ℤ) (h : c % 10 = 0) : ((c / 10 : ℕ) : ℚ) * 10 ^ (k + 1) = c * 10 ^ k := by
    obtain ⟨d, rfl⟩ := Nat.dvd_of_mod_eq_zero h
    rw [Nat.mul_div_cancel_left _ (by norm_num), zpow_add_one₀ (by norm_num)]
    push_cast
    ring
  fun_induction search r point fuel digits with
  | case1 fuel digits k num den c nearerAbove hbelow => exact holds_iff.1 (Bool.and_eq_true_iff.1 hbelow).1
  | case2 fuel digits k num den c nearerAbove hbelow habove hten =>
    rw [hshift _ _ hten]
    exact holds_iff.1 habove
  | case3 fuel digits k num den c nearerAbove hbelow habove hten => exact holds_iff.1 habove
  | case4 digits k num den c nearerAbove hbelow habove =>
    obtain ⟨hle, hlt⟩ := neighbours r.value c r.exponent k rfl
    have hspacing : (10 : ℚ) ^ k < r.high - r.low := by
      change (10 : ℚ) ^ (point - digits) < _
      rwa [show digits = 17 by omega]
    rcases holds_neighbour hlow hhigh hspacing hle hlt with hhit | hhit
    · simp [hhit, habove] at hbelow
    · exact absurd hhit habove
  | case5 digits k num den c nearerAbove hbelow habove fuel ih => exact ih (by omega)

end Rounding

/-- The shortest decimal rounds to the number. -/
theorem shortest_mem_range {x : Binary64} (hpos : 0 < x.magnitude) :
    (x.shortest.1 : ℚ) * 10 ^ x.shortest.2 ∈ x.rounding.range := by
  obtain ⟨b, -, hmagnitude, hmantissa, -⟩ := x.exists_binade
  have hm : 0 < x.mantissa := by
    unfold mantissa
    rw [exponentUnit_eq]
    split <;> omega
  have hscale : (0 : ℚ) < 2 ^ x.rounding.exponent := by positivity
  have hvalue : x.rounding.value = 4 * x.mantissa := rfl
  have hupper : x.rounding.upper = 4 * x.mantissa + 2 := rfl
  have hlower : x.rounding.lower = 4 * x.mantissa - 1 ∧ x.mantissa = exponentUnit ∨
      x.rounding.lower = 4 * x.mantissa - 2 := by
    unfold rounding
    dsimp only
    split <;> omega
  rw [exponentUnit_eq] at hmantissa hlower
  have hwidth : x.rounding.value < 10 ^ 16 * (x.rounding.upper - x.rounding.lower) := by omega
  refine Rounding.search_mem_range ?_ ?_ ?_ 16 1 rfl
  · exact mul_lt_mul_of_pos_right (Nat.cast_lt.2 (by omega)) hscale
  · exact mul_lt_mul_of_pos_right (Nat.cast_lt.2 (by omega)) hscale
  · have hpoint := zpow_decimalPoint_le (show 0 < x.rounding.value by omega) x.rounding.exponent
    have hlt : (x.rounding.value : ℚ) < 10 ^ 16 * (x.rounding.upper - x.rounding.lower) := by
      rw [← Nat.cast_sub (by omega)]
      exact_mod_cast hwidth
    calc (10 : ℚ) ^ (decimalPoint x.rounding.value x.rounding.exponent - 17)
        = 10 ^ (decimalPoint x.rounding.value x.rounding.exponent - 1) / 10 ^ 16 := by
          rw [show ((10 : ℚ) ^ 16) = 10 ^ (16 : ℤ) by norm_cast, ← zpow_sub₀ (by norm_num)]
          congr 1
          ring
      _ ≤ x.rounding.value * 2 ^ x.rounding.exponent / 10 ^ 16 := by gcongr
      _ < 10 ^ 16 * (x.rounding.upper - x.rounding.lower) * 2 ^ x.rounding.exponent / 10 ^ 16 := by gcongr
      _ = x.rounding.high - x.rounding.low := by
          unfold Rounding.high Rounding.low
          ring

/-- Numbers of one shortest decimal are the same up to the sign. -/
theorem magnitude_eq_of_shortest {x y : Binary64} (hx : 0 < x.magnitude) (hy : 0 < y.magnitude)
    (h : (x.shortest.1 : ℚ) * 10 ^ x.shortest.2 = y.shortest.1 * 10 ^ y.shortest.2) :
    x.magnitude = y.magnitude := by
  have hxRange := shortest_mem_range hx
  have hyRange := shortest_mem_range hy
  rw [h] at hxRange
  rcases Nat.lt_trichotomy x.magnitude y.magnitude with hlt | heq | hgt
  · exact absurd hyRange (Set.disjoint_left.1 (disjoint_range hlt) hxRange)
  · exact heq
  · exact absurd hxRange (Set.disjoint_left.1 (disjoint_range hgt) hyRange)

end Binary64

end TaxonomySet
