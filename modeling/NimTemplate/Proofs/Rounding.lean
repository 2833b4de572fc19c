import Mathlib.Algebra.Order.Field.Power
import Mathlib.Data.Int.Log
import Mathlib.Data.Rat.Floor
import Mathlib.Tactic.NormNum
import Mathlib.Tactic.Positivity
import NimTemplate.Proofs.Doubles

/-! Rounding to the nearest double leaves a double as it is, so the shortest digits of a double
read back as that double. -/

namespace NimTemplate.Double

theorem log_eq {x : ℚ} {power : ℤ} (lower : (2 : ℚ) ^ power ≤ x) (upper : x < (2 : ℚ) ^ (power + 1)) :
    Int.log 2 x = power := by
  have positive : 0 < x := lt_of_lt_of_le (by positivity) lower
  have least : power ≤ Int.log 2 x := (Int.zpow_le_iff_le_log (by decide) positive).mp lower
  have most : Int.log 2 x < power + 1 := (Int.lt_zpow_iff_log_lt (by decide) positive).mp upper
  omega

theorem ratio_shifted (num den : ℕ) (shift : ℤ) :
    ((shifted num den shift).1 : ℚ) / (shifted num den shift).2 = num / den * 2 ^ (-shift) := by
  have powers : (2 : ℚ) ^ (-shift).toNat / 2 ^ shift.toNat = 2 ^ (-shift) := by
    rw [← zpow_natCast, ← zpow_natCast, ← zpow_sub₀ two_ne_zero]
    congr 1
    omega
  simp only [shifted, Nat.shiftLeft_eq, Nat.cast_mul, Nat.cast_pow, Nat.cast_ofNat, mul_div_mul_comm, powers]

theorem shifted_pos {den : ℕ} (positive : 0 < den) (num : ℕ) (shift : ℤ) : 0 < (shifted num den shift).2 := by
  simp only [shifted, Nat.shiftLeft_eq]
  positivity

/-- The powers of two around a number, by its binary digits. -/
theorem log2_bounds {n : ℕ} (positive : 0 < n) : (2 : ℚ) ^ (n.log2 : ℤ) ≤ n ∧ (n : ℚ) < 2 ^ ((n.log2 : ℤ) + 1) := by
  constructor
  · exact_mod_cast Nat.log2_self_le (Nat.ne_of_gt positive)
  · exact_mod_cast Nat.lt_log2_self

section

variable {num den : ℕ} (filled : 0 < num) (positive : 0 < den)

include positive

theorem shifted_le_iff (power : ℤ) :
    (shifted num den power).2 ≤ (shifted num den power).1 ↔ (2 : ℚ) ^ power ≤ num / den := by
  have bottom : (0 : ℚ) < (shifted num den power).2 := by exact_mod_cast shifted_pos positive num power
  rw [← Nat.cast_le (α := ℚ), ← one_le_div bottom, ratio_shifted, zpow_neg, ← div_eq_mul_inv, one_le_div (by positivity)]

include filled

theorem log2_sub_log2_bounds : (2 : ℚ) ^ ((num.log2 : ℤ) - den.log2 - 1) ≤ num / den ∧
    (num : ℚ) / den < 2 ^ ((num.log2 : ℤ) - den.log2 + 1) := by
  have numBounds := log2_bounds filled
  have denBounds := log2_bounds positive
  have bottom : (0 : ℚ) < den := by exact_mod_cast positive
  constructor
  · calc (2 : ℚ) ^ ((num.log2 : ℤ) - den.log2 - 1) = 2 ^ (num.log2 : ℤ) / 2 ^ ((den.log2 : ℤ) + 1) := by
          rw [← zpow_sub₀ two_ne_zero, sub_sub]
      _ ≤ num / den := div_le_div₀ (Nat.cast_nonneg _) numBounds.1 bottom (le_of_lt denBounds.2)
  · calc (num : ℚ) / den < 2 ^ ((num.log2 : ℤ) + 1) / 2 ^ (den.log2 : ℤ) :=
          div_lt_div₀ numBounds.2 denBounds.1 (by positivity) (by positivity)
      _ = 2 ^ ((num.log2 : ℤ) - den.log2 + 1) := by
          rw [← zpow_sub₀ two_ne_zero]
          congr 1
          omega

/-- The logarithms of the parts leave two candidates, and the comparison takes the right one. -/
theorem floorLog_eq : floorLog num den = Int.log 2 ((num : ℚ) / den) := by
  obtain ⟨lower, upper⟩ := log2_sub_log2_bounds filled positive
  unfold floorLog
  simp only
  split
  next reached => exact (log_eq ((shifted_le_iff positive _).mp reached) upper).symm
  next missed =>
    apply (log_eq lower ?_).symm
    rw [sub_add_cancel, ← not_le, ← shifted_le_iff positive]
    exact missed

end

theorem divNearest_mul (n : ℕ) {den : ℕ} (positive : 0 < den) : divNearest (n * den) den = n := by
  simp [divNearest, positive]

section

variable {size : ℕ} (positive : 0 < size) (finite : size < infinity)

include positive in
theorem log_value : Int.log 2 ((mantissa size : ℚ) * 2 ^ scale size) = (mantissa size).log2 + scale size := by
  obtain ⟨lower, upper⟩ := log2_bounds (mantissa_pos positive)
  apply log_eq
  · rw [zpow_add₀ two_ne_zero]
    gcongr
  · rw [add_right_comm, zpow_add₀ two_ne_zero]
    gcongr

include positive in
/-- The grid of doubles around a double is that of its own scale. -/
theorem shift_value : max (((mantissa size).log2 : ℤ) + scale size - 52) (-1074) = scale size := by
  by_cases small : size < leadingBit
  · have below : size.log2 < 52 := (Nat.log2_lt (Nat.ne_of_gt positive)).mpr small
    rw [mantissa, if_pos small, scale, Nat.div_eq_of_lt small]
    omega
  · rw [log2_mantissa (Nat.not_lt.mp small), scale]
    omega

theorem place_mantissa : (scale size + 1074).toNat * leadingBit + mantissa size = size := by
  have place : (scale size + 1074).toNat = max (size / leadingBit) 1 - 1 := by
    unfold scale
    omega
  rw [place, mantissa]
  unfold leadingBit
  split <;> omega

include positive finite in
/-- A fraction that is a double is rounded to it. -/
theorem nearest_value {num den : ℕ} (bottom : 0 < den) (value : (num : ℚ) / den = mantissa size * 2 ^ scale size) :
    nearest num den = size := by
  have mantissaPositive := mantissa_pos positive
  have filled : 0 < num := by
    apply Nat.pos_of_ne_zero
    rintro rfl
    have : (0 : ℚ) < mantissa size * 2 ^ scale size := by positivity
    simp [← value] at this
  have exact : (shifted num den (scale size)).1 = mantissa size * (shifted num den (scale size)).2 := by
    have whole := ratio_shifted num den (scale size)
    have below : (0 : ℚ) < (shifted num den (scale size)).2 := by exact_mod_cast shifted_pos bottom num _
    rw [value, mul_assoc, ← zpow_add₀ two_ne_zero, add_neg_cancel, zpow_zero, mul_one, div_eq_iff (ne_of_gt below)] at whole
    exact_mod_cast whole
  unfold nearest
  rw [if_neg (Nat.ne_of_gt filled)]
  simp only [floorLog_eq filled bottom, value, log_value positive, shift_value positive, exact,
    divNearest_mul _ (shifted_pos bottom num _), place_mantissa]
  exact Nat.min_eq_left (Nat.le_of_lt finite)

end

end NimTemplate.Double

namespace NimTemplate.Decimal

/-- What makes the digits of a magnitude right: there are some, and they read back. -/
structure ReadsAs (decimal : Decimal) (size : ℕ) : Prop where
  filled : 0 < decimal.digits
  magnitude : decimal.magnitude = size

theorem magnitude_eq_nearest {digits : ℕ} {exponent : ℤ} (filled : 0 < digits) (least : -1200 ≤ exponent)
    (most : exponent ≤ 400) : (⟨digits, exponent⟩ : Decimal).magnitude =
      Double.nearest (digits * 10 ^ exponent.toNat) (10 ^ (-exponent).toNat) := by
  unfold magnitude
  rw [if_neg (Nat.ne_of_gt filled), if_neg (Int.not_lt.mpr most), if_neg (by simp only; omega)]
  rfl

theorem readsAs_exact {size : ℕ} (positive : 0 < size) (finite : size < Double.infinity) :
    (exact (Double.mantissa size) (Double.scale size)).ReadsAs size := by
  have mantissaPositive := Double.mantissa_pos positive
  have least : -1074 ≤ Double.scale size := by
    unfold Double.scale
    omega
  unfold exact
  split
  next whole =>
    have filled : 0 < Double.mantissa size <<< (Double.scale size).toNat := by
      rw [Nat.shiftLeft_eq]
      positivity
    have value : ((Double.mantissa size <<< (Double.scale size).toNat : ℕ) : ℚ) =
        Double.mantissa size * 2 ^ Double.scale size := by
      obtain ⟨places, same⟩ := Int.eq_ofNat_of_zero_le whole
      rw [same, Nat.shiftLeft_eq]
      push_cast
      rfl
    refine ⟨filled, ?_⟩
    rw [magnitude_eq_nearest filled (by decide) (by decide)]
    apply Double.nearest_value positive finite (by decide)
    simpa using value
  next part =>
    have filled : 0 < Double.mantissa size * Nat.pow 5 (-Double.scale size).toNat :=
      Nat.mul_pos mantissaPositive (Nat.pow_pos (by decide))
    refine ⟨filled, ?_⟩
    rw [magnitude_eq_nearest filled (by omega) (by omega)]
    apply Double.nearest_value positive finite (Nat.pow_pos (by decide))
    obtain ⟨places, same⟩ : ∃ places : ℕ, Double.scale size = -places := ⟨(-Double.scale size).toNat, by omega⟩
    rw [same]
    have none : (-(places : ℤ)).toNat = 0 := by omega
    have all : (- -(places : ℤ)).toNat = places := by omega
    -- A power of ten is its fives and its twos; the fives are the ones that make the digits whole.
    have tens : ((10 ^ places : ℕ) : ℚ) = 2 ^ places * 5 ^ places := by
      rw [← mul_pow]
      norm_num
    have fives : (5 : ℚ) ^ places ≠ 0 := by positivity
    rw [none, all, pow_zero, mul_one, tens, zpow_neg, zpow_natCast, ← div_eq_mul_inv, Nat.pow_eq, Nat.cast_mul,
      Nat.cast_pow, Nat.cast_ofNat, mul_div_mul_right _ _ fives]

theorem readsAs_of_test {digits size : ℕ} {exponent : ℤ}
    (tested : (digits != 0 && (⟨digits, exponent⟩ : Decimal).magnitude == size) = true) :
    (⟨digits, exponent⟩ : Decimal).ReadsAs size := by
  have parts : digits ≠ 0 ∧ (⟨digits, exponent⟩ : Decimal).magnitude = size := by simpa using tested
  exact ⟨Nat.pos_of_ne_zero parts.1, parts.2⟩

theorem readsAs_onGrid? {tie : Tie} {size num den : ℕ} {exponent : ℤ} {decimal : Decimal}
    (found : onGrid? tie size num den exponent = some decimal) : decimal.ReadsAs size := by
  unfold onGrid? at found
  simp only at found
  split at found
  next below above =>
    have lower := readsAs_of_test below
    have upper := readsAs_of_test (Bool.and_eq_true_iff.mpr ⟨bne_iff_ne.mpr (Nat.succ_ne_zero _), above⟩)
    repeat' split at found
    all_goals
      cases found
      assumption
  next below _ =>
    cases found
    exact readsAs_of_test below
  next above =>
    cases found
    exact readsAs_of_test (Bool.and_eq_true_iff.mpr ⟨bne_iff_ne.mpr (Nat.succ_ne_zero _), above⟩)
  next => cases found

theorem readsAs_search {tie : Tie} {size num den steps : ℕ} {exponent : ℤ} {decimal : Decimal}
    (found : search tie size num den steps exponent = some decimal) : decimal.ReadsAs size := by
  induction steps generalizing exponent with
  | zero => cases found
  | succ steps ih =>
    unfold search at found
    split at found
    next grid =>
      cases found
      exact readsAs_onGrid? grid
    next => exact ih found

/-- The search tests what it returns, and where it finds nothing all digits are taken. -/
theorem readsAs_shortest (tie : Tie) {size : ℕ} (positive : 0 < size) (finite : size < Double.infinity) :
    (shortest tie size).ReadsAs size := by
  unfold shortest
  simp only
  cases found : search tie size _ _ _ _ with
  | none => exact readsAs_exact positive finite
  | some decimal => exact readsAs_search found

end NimTemplate.Decimal
