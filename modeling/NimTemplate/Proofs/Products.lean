import NimTemplate.Proofs.Rounding

/-! Whole numbers as doubles, and their products. A number is rounded to its 53 leading binary digits,
and a product of two doubles is infinite exactly when the exact product is too large to be rounded to
a finite one. -/

namespace NimTemplate.Double

open Float.Model (Format UnpackedFloat totalExponent)
open Float.Model.UnpackedFloat

/-- The numbers below it are rounded to finite doubles: it is half a step above the largest of them. -/
def limit : ℕ := (2 ^ 54 - 1) * 2 ^ 970

/-- A number with its 53 leading binary digits, a half going to the even neighbour. -/
def rounded (n : ℕ) : ℕ := divNearest n (2 ^ (n.log2 - 52)) * 2 ^ (n.log2 - 52)

/-! Rounded quotients. -/

section

variable {n den bound : ℕ} (positive : 0 < den)

include positive

theorem le_divNearest (least : bound * den ≤ n) : bound ≤ divNearest n den := by
  have whole : bound ≤ n / den := (Nat.le_div_iff_mul_le positive).mpr least
  unfold divNearest
  dsimp only
  split
  · exact whole
  · split <;> omega

theorem divNearest_le (most : n ≤ bound * den) : divNearest n den ≤ bound := by
  have whole := Nat.div_add_mod n den
  have below := Nat.mod_lt n positive
  by_cases exact : n / den < bound
  · unfold divNearest
    dsimp only
    split
    · omega
    · split <;> omega
  · have same : n / den = bound := Nat.le_antisymm (Nat.div_le_of_le_mul (Nat.mul_comm den bound ▸ most)) (Nat.not_lt.mp exact)
    have none : n % den = 0 := by
      rw [same, Nat.mul_comm] at whole
      omega
    simp [divNearest, same, none, positive]

/-- The number above an odd one is reached from the middle between the two on. -/
theorem divNearest_eq_succ_iff (odd : bound % 2 = 1) (most : n < (bound + 1) * den) :
    divNearest n den = bound + 1 ↔ (2 * bound + 1) * den ≤ 2 * n := by
  have whole := Nat.div_add_mod' n den
  have below := Nat.mod_lt n positive
  have least : n / den ≤ bound := Nat.le_of_lt_succ ((Nat.div_lt_iff_lt_mul positive).mpr most)
  rw [Nat.add_mul, Nat.mul_assoc, Nat.one_mul]
  rcases Nat.lt_or_eq_of_le least with less | same
  · have early : (n / den + 1) * den ≤ bound * den := Nat.mul_le_mul_right den less
    rw [Nat.add_mul, Nat.one_mul] at early
    have small : divNearest n den ≤ n / den + 1 := by
      apply divNearest_le positive
      rw [Nat.add_mul, Nat.one_mul]
      omega
    constructor <;> intro <;> omega
  · rw [same] at whole
    unfold divNearest
    dsimp only
    rw [same]
    split
    · constructor <;> intro <;> omega
    · split <;> constructor <;> intro <;> omega

end

/-- A number of which 53 leading binary digits are kept is rounded up to the next power of two from half
a step below it on. -/
theorem carries_iff {n places : ℕ} (digits : n.log2 = 52 + places) :
    divNearest n (2 ^ places) = 2 ^ 53 ↔ (2 ^ 54 - 1) * 2 ^ places ≤ 2 * n := by
  have odd : (2 ^ 53 - 1) % 2 = 1 := by decide
  have most : n < (2 ^ 53 - 1 + 1) * 2 ^ places := by
    have bound := @Nat.lt_log2_self n
    rwa [digits, show 52 + places + 1 = 53 + places by omega, Nat.pow_add] at bound
  exact divNearest_eq_succ_iff (Nat.two_pow_pos places) odd most

/-! A mantissa that is shifted keeps two bits that say how to round it. -/

theorem shift_exact (n count : ℕ) : ExtendedMantissa.ofMantissaAndAccuracy n .exact >>> (count + 1) =
    ⟨n / 2 ^ (count + 1), n / 2 ^ count % 2 != 0, n % 2 ^ count != 0⟩ := by
  induction count with
  | zero =>
    have first : ExtendedMantissa.ofMantissaAndAccuracy n .exact >>> 1 = ⟨n / 2, n % 2 != 0, false⟩ := rfl
    simp [first, Nat.mod_one]
  | succ count ih =>
    change ExtendedMantissa.shiftRightOne (ExtendedMantissa.ofMantissaAndAccuracy n .exact >>> (count + 1)) = _
    rw [ih, ExtendedMantissa.shiftRightOne, Nat.div_div_eq_div_mul, ← Nat.pow_succ]
    congr 1
    have bits := @Nat.mod_pow_succ n 2 count
    have positive := Nat.two_pow_pos count
    rw [Bool.eq_iff_iff]
    simp only [Bool.or_eq_true, bne_iff_ne, bits]
    rcases Nat.mod_two_eq_zero_or_one (n / 2 ^ count) with zero | one
    · simp [zero]
    · simp only [one, Nat.mul_one]
      omega

theorem roundedMantissa_shift (n count : ℕ) :
    (ExtendedMantissa.ofMantissaAndAccuracy n .exact >>> (count + 1)).roundedMantissa = divNearest n (2 ^ (count + 1)) := by
  have bits := @Nat.mod_pow_succ n 2 count
  have below := Nat.mod_lt n (Nat.two_pow_pos count)
  rw [shift_exact, divNearest, bits, Nat.pow_succ]
  rcases Nat.mod_two_eq_zero_or_one (n / 2 ^ count) with zero | one
  · have less : 2 * (n % 2 ^ count + 2 ^ count * 0) < 2 ^ count * 2 := by omega
    rw [zero, if_pos less]
    cases n % 2 ^ count != 0 <;> rfl
  · rw [one]
    by_cases exact : n % 2 ^ count = 0
    · rw [exact, if_neg (by omega), if_neg (by omega)]
      rfl
    · have sticky : (n % 2 ^ count != 0) = true := by simpa using exact
      rw [sticky, if_neg (by omega), if_pos (by omega)]
      rfl

theorem targetExponent_eq (exponents : ℤ) : Format.binary64.targetExponent exponents = max (exponents - 53) (-1074) := rfl

/-- A mantissa of 53 binary digits stays as it is, and the next power of two goes on by one. -/
theorem shiftToTargetExponent_rounded {n : ℕ} {exponent : ℤ} (least : -1074 ≤ exponent) (lower : 2 ^ 52 ≤ n) (upper : n ≤ 2 ^ 53) :
    ∃ extended place, shiftToTargetExponent .binary64 n exponent .exact = (extended, place) ∧
      extended.mantissa.log2 = 52 ∧ 0 < extended.mantissa ∧ place = exponent + if n = 2 ^ 53 then 1 else 0 := by
  rcases Nat.lt_or_eq_of_le upper with less | same
  · have digits : n.log2 = 52 := (Nat.log2_eq_iff (by omega)).mpr ⟨lower, less⟩
    have target : Format.binary64.targetExponent (totalExponent n exponent) = exponent := by
      rw [targetExponent_eq, totalExponent, digits]
      omega
    refine ⟨.ofMantissaAndAccuracy n .exact, exponent, ?_, digits, by exact Nat.lt_of_lt_of_le (by decide) lower, ?_⟩
    · rw [shiftToTargetExponent, target, shiftToExponent]
      simp only [Int.sub_self, Int.toNat_zero]
      exact congrArg (Prod.mk _) (Int.add_zero exponent)
    · rw [if_neg (Nat.ne_of_lt less), Int.add_zero]
  · have digits : n.log2 = 53 := by rw [same, Nat.log2_two_pow]
    have target : Format.binary64.targetExponent (totalExponent n exponent) = exponent + 1 := by
      rw [targetExponent_eq, totalExponent, digits]
      omega
    refine ⟨⟨2 ^ 52, false, false⟩, exponent + 1, ?_, Nat.log2_two_pow, by decide, by rw [if_pos same]⟩
    rw [shiftToTargetExponent, target, shiftToExponent, same]
    have one : (exponent + 1 - exponent).toNat = 1 := by omega
    simp only [one]
    rfl

theorem roundWithAccuracy_exact {n count : ℕ} (digits : n.log2 = 53 + count) (exponent : ℤ)
    (least : -1074 ≤ exponent + (count + 1 : ℕ)) :
    ∃ m place, ∃ positive : 0 < m, roundWithAccuracy .binary64 .positive n exponent .exact = .finite .positive m place positive ∧
      m.log2 = 52 ∧
      place = exponent + (count + 1 : ℕ) + if divNearest n (2 ^ (count + 1)) = 2 ^ 53 then 1 else 0 := by
  have filled : n ≠ 0 := by
    rintro rfl
    rw [Nat.log2_zero] at digits
    omega
  have bounds : 2 ^ (53 + count) ≤ n ∧ n < 2 ^ (53 + count + 1) := (Nat.log2_eq_iff filled).mp digits
  have target : Format.binary64.targetExponent (totalExponent n exponent) = exponent + (count + 1 : ℕ) := by
    rw [targetExponent_eq, totalExponent, digits]
    omega
  have shift : (exponent + (count + 1 : ℕ) - exponent).toNat = count + 1 := by omega
  have lower : 2 ^ 52 ≤ divNearest n (2 ^ (count + 1)) := by
    apply le_divNearest (Nat.two_pow_pos _)
    rw [← Nat.pow_add, show 52 + (count + 1) = 53 + count by omega]
    exact bounds.1
  have upper : divNearest n (2 ^ (count + 1)) ≤ 2 ^ 53 := by
    apply divNearest_le (Nat.two_pow_pos _)
    rw [← Nat.pow_add, ← Nat.add_assoc]
    exact Nat.le_of_lt bounds.2
  obtain ⟨extended, place, final, short, positive, placed⟩ := shiftToTargetExponent_rounded least lower upper
  refine ⟨extended.mantissa, place, positive, ?_, short, placed⟩
  have first : shiftToTargetExponent .binary64 n exponent .exact =
      (ExtendedMantissa.ofMantissaAndAccuracy n .exact >>> (count + 1), exponent + (count + 1 : ℕ)) := by
    rw [shiftToTargetExponent, target, shiftToExponent]
    simp only [shift]
  rw [roundWithAccuracy, first]
  dsimp only
  rw [roundedMantissa_shift, final]
  exact dif_neg (Nat.ne_of_gt positive)

theorem isInf_unpack_of_exponent {bits : BitVec 64} (bounded : @unpackExponent .binary64 bits ≠ -1#11) :
    (UnpackedFloat.unpack .binary64 bits).isInf = false := by
  have finite : bits.toNat % signBit < infinity := Nat.not_le.mp (mt exponent_full_iff.mpr bounded)
  rcases Nat.eq_zero_or_pos (bits.toNat % signBit) with zero | filled
  · rw [unpack_zero zero]
    rfl
  · rw [unpack_finite filled finite]
    rfl

theorem isInf_pack {m : ℕ} {place : ℤ} (positive : 0 < m) (digits : m.log2 = 52) (least : -1074 ≤ place) :
    (Float.Model.pack (.finite .positive m place positive)).unpack.isInf = decide (972 ≤ place) := by
  change (UnpackedFloat.unpack .binary64 (UnpackedFloat.pack .binary64 (.finite .positive m place positive))).isInf = _
  have full : m.log2 + 1 = Format.binary64.mantissaBits := by rw [digits]; rfl
  by_cases large : 972 ≤ place
  · have infinite : UnpackedFloat.pack .binary64 (.finite .positive m place positive) = packedInfinity .binary64 .positive :=
      if_pos (by change 2048 ≤ (place + 1023 + 52).toNat + 1; omega)
    rw [infinite, decide_eq_true large]
    decide +kernel
  · have finite : UnpackedFloat.pack .binary64 (.finite .positive m place positive) =
        packComponents .binary64 .positive (BitVec.ofNat 11 (place + 1023 + 52).toNat) (BitVec.ofNat 52 m) :=
      (if_neg (by change ¬ 2048 ≤ (place + 1023 + 52).toNat + 1; omega)).trans (if_pos full)
    have bounded : BitVec.ofNat 11 (place + 1023 + 52).toNat ≠ -1#11 := by
      intro same
      have := congrArg BitVec.toNat same
      simp at this
      omega
    rw [finite, decide_eq_false large]
    exact isInf_unpack_of_exponent (by rwa [unpackExponent_packComponents])

theorem limit_eq : (limit : ℚ) = (2 ^ 54 - 1) * 2 ^ (970 : ℤ) := by
  rw [limit, Nat.cast_mul, Nat.cast_pow, zpow_ofNat]
  norm_num

theorem limit_bounds : (2 : ℚ) ^ (1023 : ℤ) ≤ limit ∧ (limit : ℚ) ≤ 2 ^ (1024 : ℤ) := by
  have below : (2 : ℚ) ^ (1023 : ℤ) = 2 ^ 53 * 2 ^ (970 : ℤ) := by
    rw [← zpow_natCast, ← zpow_add₀ two_ne_zero]
    rfl
  have above : (2 : ℚ) ^ (1024 : ℤ) = 2 ^ 54 * 2 ^ (970 : ℤ) := by
    rw [← zpow_natCast, ← zpow_add₀ two_ne_zero]
    rfl
  rw [limit_eq, below, above]
  constructor
  · gcongr
    norm_num
  · gcongr
    norm_num

theorem limit_le_scaled_iff {n count : ℕ} {exponent : ℤ} (same : exponent + count = 970) :
    (limit : ℚ) ≤ n * 2 ^ exponent ↔ (2 ^ 54 - 1) * 2 ^ count ≤ n := by
  have power : (2 : ℚ) ^ exponent * 2 ^ count = 2 ^ (970 : ℤ) := by
    rw [← zpow_natCast, ← zpow_add₀ two_ne_zero, same]
  have regrouped : ((2 : ℚ) ^ 54 - 1) * (2 ^ exponent * 2 ^ count) = ((2 ^ 54 - 1) * 2 ^ count : ℕ) * 2 ^ exponent := by
    rw [mul_comm ((2 : ℚ) ^ exponent), ← mul_assoc, Nat.cast_mul, Nat.cast_pow]
    norm_num
  rw [limit_eq, ← power, regrouped, mul_le_mul_iff_left₀ (by positivity), Nat.cast_le]

/-- The place of the rounded number is too high exactly when the number is not below the limit. -/
theorem limit_le_iff {n count : ℕ} (digits : n.log2 = 53 + count) {exponent : ℤ} :
    972 ≤ exponent + (count + 1 : ℕ) + (if divNearest n (2 ^ (count + 1)) = 2 ^ 53 then 1 else 0) ↔
      (limit : ℚ) ≤ n * 2 ^ exponent := by
  have filled : 0 < n := by
    apply Nat.pos_of_ne_zero
    rintro rfl
    rw [Nat.log2_zero] at digits
    omega
  obtain ⟨lower, upper⟩ := log2_bounds filled
  rw [digits] at lower upper
  rcases lt_trichotomy (exponent + (count + 1 : ℕ)) 971 with low | same | high
  · have small : (n : ℚ) * 2 ^ exponent < limit := by
      calc (n : ℚ) * 2 ^ exponent < 2 ^ (((53 + count : ℕ) : ℤ) + 1) * 2 ^ exponent := by gcongr
        _ = 2 ^ (((53 + count : ℕ) : ℤ) + 1 + exponent) := (zpow_add₀ two_ne_zero _ _).symm
        _ ≤ 2 ^ (1023 : ℤ) := zpow_le_zpow_right₀ one_le_two (by push_cast at low ⊢; omega)
        _ ≤ limit := limit_bounds.1
    refine iff_of_false ?_ (not_le.mpr small)
    split <;> omega
  · have halves : (2 ^ 54 - 1) * 2 ^ (count + 1) ≤ 2 * n ↔ (2 ^ 54 - 1) * 2 ^ count ≤ n := by
      rw [Nat.pow_succ]
      omega
    have scaled : exponent + count = 970 := by
      push_cast at same
      omega
    rw [limit_le_scaled_iff scaled, same, ← halves, ← carries_iff (by omega)]
    split <;> omega
  · have large : (limit : ℚ) ≤ n * 2 ^ exponent := by
      calc (limit : ℚ) ≤ 2 ^ (1024 : ℤ) := limit_bounds.2
        _ ≤ 2 ^ (((53 + count : ℕ) : ℤ) + exponent) := zpow_le_zpow_right₀ one_le_two (by push_cast at high ⊢; omega)
        _ = 2 ^ ((53 + count : ℕ) : ℤ) * 2 ^ exponent := zpow_add₀ two_ne_zero _ _
        _ ≤ n * 2 ^ exponent := by gcongr
    refine iff_of_true ?_ large
    split <;> omega

theorem unpack_ofMagnitude {size : ℕ} (positive : 0 < size) (finite : size < infinity) :
    (ofMagnitude false size).toModel.unpack = .finite .positive (mantissa size) (scale size) (mantissa_pos positive) := by
  have same := magnitude_ofMagnitude false (Nat.le_of_lt finite)
  have filled : 0 < magnitude (ofMagnitude false size) := by rwa [same]
  have below : magnitude (ofMagnitude false size) < infinity := by rwa [same]
  refine (unpack_finite filled below).trans ?_
  congr 1
  · rw [sign_eq, isNegative_ofMagnitude false (Nat.le_of_lt finite)]
    rfl
  · exact congrArg mantissa same
  · exact congrArg scale same

/-- A product of two doubles that have all their digits is infinite from the limit on. -/
theorem isInf_mul_iff {one other : ℕ} (first : leadingBit ≤ one) (second : leadingBit ≤ other) (firstFinite : one < infinity)
    (secondFinite : other < infinity) (least : -1074 ≤ scale one + scale other) :
    (ofMagnitude false one * ofMagnitude false other).isInf ↔
      (limit : ℚ) ≤ (mantissa one * 2 ^ scale one) * (mantissa other * 2 ^ scale other) := by
  have positive : 0 < leadingBit := by decide
  have bounds : ∀ {size}, leadingBit ≤ size → 2 ^ 52 ≤ mantissa size ∧ mantissa size < 2 ^ 53 := by
    intro size large
    have filled := mantissa_pos (Nat.lt_of_lt_of_le positive large)
    exact (Nat.log2_eq_iff (Nat.ne_of_gt filled)).mp (log2_mantissa large)
  have lower : 2 ^ 104 ≤ mantissa one * mantissa other :=
    calc 2 ^ 104 = 2 ^ 52 * 2 ^ 52 := by decide
      _ ≤ mantissa one * mantissa other := Nat.mul_le_mul (bounds first).1 (bounds second).1
  have filled : mantissa one * mantissa other ≠ 0 := Nat.ne_of_gt (Nat.lt_of_lt_of_le (by decide) lower)
  have long : 104 ≤ (mantissa one * mantissa other).log2 := (Nat.le_log2 filled).mpr lower
  obtain ⟨count, digits⟩ : ∃ count, (mantissa one * mantissa other).log2 = 53 + count := ⟨_, (Nat.add_sub_of_le (by omega)).symm⟩
  obtain ⟨m, place, some, product, short, placed⟩ := roundWithAccuracy_exact digits (scale one + scale other) (by omega)
  have result : (ofMagnitude false one * ofMagnitude false other).isInf = decide (972 ≤ place) := by
    change (Float.Model.pack (UnpackedFloat.mul .binary64 (ofMagnitude false one).toModel.unpack
      (ofMagnitude false other).toModel.unpack)).unpack.isInf = _
    rw [unpack_ofMagnitude (Nat.lt_of_lt_of_le positive first) firstFinite,
      unpack_ofMagnitude (Nat.lt_of_lt_of_le positive second) secondFinite]
    change (Float.Model.pack (roundWithAccuracy .binary64 .positive (mantissa one * mantissa other) (scale one + scale other)
      .exact)).unpack.isInf = _
    rw [product]
    refine isInf_pack some short ?_
    split at placed <;> omega
  rw [result, decide_eq_true_iff, placed, limit_le_iff digits, Nat.cast_mul, zpow_add₀ two_ne_zero, mul_mul_mul_comm]

/-! Whole numbers. -/

/-- The 53 leading binary digits of a number, rounded, or the number itself with zeros behind it. -/
def leadingDigits (n : ℕ) : ℕ := divNearest (n * 2 ^ (52 - n.log2)) (2 ^ (n.log2 - 52))

section

variable {n : ℕ} (filled : 0 < n)

include filled

theorem leadingDigits_bounds : 2 ^ 52 ≤ leadingDigits n ∧ leadingDigits n ≤ 2 ^ 53 := by
  have lower := Nat.log2_self_le (Nat.ne_of_gt filled)
  have upper := @Nat.lt_log2_self n
  constructor
  · apply le_divNearest (Nat.two_pow_pos _)
    calc 2 ^ 52 * 2 ^ (n.log2 - 52) = 2 ^ n.log2 * 2 ^ (52 - n.log2) := by
          rw [← Nat.pow_add, ← Nat.pow_add]
          congr 1
          omega
      _ ≤ n * 2 ^ (52 - n.log2) := Nat.mul_le_mul_right _ lower
  · apply divNearest_le (Nat.two_pow_pos _)
    calc n * 2 ^ (52 - n.log2) ≤ 2 ^ (n.log2 + 1) * 2 ^ (52 - n.log2) := Nat.mul_le_mul_right _ (Nat.le_of_lt upper)
      _ = 2 ^ 53 * 2 ^ (n.log2 - 52) := by
          rw [← Nat.pow_add, ← Nat.pow_add]
          congr 1
          omega

omit filled in
theorem rounded_eq : (rounded n : ℚ) = leadingDigits n * 2 ^ ((n.log2 : ℤ) - 52) := by
  rcases Nat.le_total 52 n.log2 with long | short
  · have place : (n.log2 : ℤ) - 52 = ((n.log2 - 52 : ℕ) : ℤ) := by omega
    rw [rounded, leadingDigits, Nat.sub_eq_zero_of_le long, Nat.pow_zero, Nat.mul_one, place, zpow_natCast]
    push_cast
    rfl
  · have place : (n.log2 : ℤ) - 52 = -((52 - n.log2 : ℕ) : ℤ) := by omega
    have exact : ∀ m, divNearest m 1 = m := fun m => by simpa using divNearest_mul m Nat.one_pos
    rw [rounded, leadingDigits, Nat.sub_eq_zero_of_le short, Nat.pow_zero, exact, exact, place, zpow_neg, zpow_natCast]
    push_cast
    rw [mul_one, mul_inv_cancel_right₀ (by positivity)]

theorem le_rounded : 2 ^ n.log2 ≤ rounded n := by
  have lower := (leadingDigits_bounds filled).1
  have whole : (2 : ℚ) ^ (n.log2 : ℤ) ≤ rounded n := by
    calc (2 : ℚ) ^ (n.log2 : ℤ) = 2 ^ 52 * 2 ^ ((n.log2 : ℤ) - 52) := by
          rw [← zpow_natCast, ← zpow_add₀ two_ne_zero]
          congr 1
          omega
      _ ≤ leadingDigits n * 2 ^ ((n.log2 : ℤ) - 52) := by
          gcongr
          exact_mod_cast lower
      _ = rounded n := rounded_eq.symm
  exact_mod_cast whole

theorem nearest_one : nearest n 1 = min (((n.log2 : ℤ) - 52 + 1074).toNat * leadingBit + leadingDigits n) infinity := by
  have log : floorLog n 1 = n.log2 := by
    obtain ⟨lower, upper⟩ := log2_bounds filled
    rw [floorLog_eq filled Nat.one_pos, Nat.cast_one, div_one]
    exact log_eq lower upper
  have shift : max ((n.log2 : ℤ) - 52) (-1074) = n.log2 - 52 := by omega
  have up : (-((n.log2 : ℤ) - 52)).toNat = 52 - n.log2 := by omega
  have down : ((n.log2 : ℤ) - 52).toNat = n.log2 - 52 := by omega
  rw [nearest, if_neg (Nat.ne_of_gt filled)]
  simp only [log, shift, shifted, up, down, Nat.shiftLeft_eq, Nat.one_mul]
  rfl

/-- Below the limit the digits stay within the largest place. -/
theorem place_lt_infinity (below : n < limit) :
    ((n.log2 : ℤ) - 52 + 1074).toNat * leadingBit + leadingDigits n < infinity := by
  have bounds := leadingDigits_bounds filled
  have full : 2047 * leadingBit = infinity := rfl
  have unit : leadingBit = 2 ^ 52 := rfl
  have short : n.log2 < 1024 := by
    have small : (n : ℚ) < 2 ^ (1024 : ℤ) := lt_of_lt_of_le (by exact_mod_cast below) limit_bounds.2
    have exponents := lt_of_le_of_lt (log2_bounds filled).1 small
    exact_mod_cast (zpow_lt_zpow_iff_right₀ one_lt_two).mp exponents
  rcases Nat.lt_or_eq_of_le (Nat.le_of_lt_succ short) with less | same
  · have place : ((n.log2 : ℤ) - 52 + 1074).toNat ≤ 2044 := by omega
    have := Nat.mul_le_mul_right leadingBit place
    omega
  · -- In the largest place the digits do not carry.
    have digits : leadingDigits n = divNearest n (2 ^ (n.log2 - 52)) := by
      rw [leadingDigits, Nat.sub_eq_zero_of_le (show 52 ≤ n.log2 by omega), Nat.pow_zero, Nat.mul_one]
    have kept : leadingDigits n ≠ 2 ^ 53 := by
      intro reached
      have large := (carries_iff (by omega)).mp (digits.symm.trans reached)
      unfold limit at below
      obtain ⟨last, named⟩ : ∃ last, last = 970 := ⟨970, rfl⟩
      rw [← named] at below
      rw [show n.log2 - 52 = last + 1 by omega, Nat.pow_succ] at large
      omega
    have place : ((n.log2 : ℤ) - 52 + 1074).toNat = 2045 := by omega
    rw [place]
    omega

end

theorem value_place (shift : ℤ) {digits : ℕ} (least : -1073 ≤ shift) (lower : 2 ^ 52 ≤ digits) (upper : digits ≤ 2 ^ 53) :
    leadingBit ≤ (shift + 1074).toNat * leadingBit + digits ∧
      shift ≤ scale ((shift + 1074).toNat * leadingBit + digits) ∧
      (mantissa ((shift + 1074).toNat * leadingBit + digits) : ℚ) *
        2 ^ scale ((shift + 1074).toNat * leadingBit + digits) = digits * 2 ^ shift := by
  have unit : leadingBit = 2 ^ 52 := rfl
  obtain ⟨place, same⟩ : ∃ place : ℕ, shift = (place : ℤ) - 1073 := ⟨(shift + 1073).toNat, by omega⟩
  have shown : (shift + 1074).toNat = place + 1 := by omega
  rw [shown]
  generalize whole : (place + 1) * leadingBit + digits = size
  have large : leadingBit ≤ size := by
    rw [← whole, Nat.add_mul]
    omega
  rw [scale, mantissa, if_neg (Nat.not_lt.mpr large)]
  refine ⟨large, ?_⟩
  unfold leadingBit at *
  rcases Nat.lt_or_eq_of_le upper with less | carried
  · have quotient : size / 0x10000000000000 = place + 2 := by omega
    have rest : 0x10000000000000 + size % 0x10000000000000 = digits := by omega
    have scaled : ((max (place + 2) 1 : ℕ) : ℤ) - 1075 = shift := by omega
    rw [quotient, rest]
    exact ⟨Int.le_of_eq scaled.symm, by rw [scaled]⟩
  · have quotient : size / 0x10000000000000 = place + 3 := by omega
    have rest : 0x10000000000000 + size % 0x10000000000000 = 2 ^ 52 := by omega
    have scaled : ((max (place + 3) 1 : ℕ) : ℤ) - 1075 = 1 + shift := by omega
    rw [quotient, rest, scaled, carried]
    refine ⟨by omega, ?_⟩
    rw [zpow_add₀ two_ne_zero, ← mul_assoc]
    norm_num

/-- A number below the limit as a double: it has all its digits, and stands for the number rounded. -/
theorem nearest_spec {n : ℕ} (filled : 0 < n) (below : n < limit) :
    leadingBit ≤ nearest n 1 ∧ nearest n 1 < infinity ∧ -52 ≤ scale (nearest n 1) ∧
      (mantissa (nearest n 1) : ℚ) * 2 ^ scale (nearest n 1) = rounded n := by
  have finite := place_lt_infinity filled below
  have bounds := leadingDigits_bounds filled
  obtain ⟨large, least, value⟩ := value_place ((n.log2 : ℤ) - 52) (by omega) bounds.1 bounds.2
  rw [nearest_one filled, Nat.min_eq_left (Nat.le_of_lt finite)]
  exact ⟨large, finite, by omega, value.trans rounded_eq.symm⟩

theorem isInf_ofNat_mul_iff {one other : ℕ} (oneFilled : 0 < one) (oneBelow : one < limit) (otherFilled : 0 < other)
    (otherBelow : other < limit) : (ofNat one * ofNat other).isInf ↔ limit ≤ rounded one * rounded other := by
  obtain ⟨first, firstFinite, firstScale, firstValue⟩ := nearest_spec oneFilled oneBelow
  obtain ⟨second, secondFinite, secondScale, secondValue⟩ := nearest_spec otherFilled otherBelow
  rw [ofNat, ofNat, isInf_mul_iff first second firstFinite secondFinite (by omega), firstValue, secondValue]
  exact_mod_cast Iff.rfl

end NimTemplate.Double
