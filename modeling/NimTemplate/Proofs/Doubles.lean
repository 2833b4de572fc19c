import NimTemplate.Value.Number

/-! Doubles by their bits. A pattern of 64 bits is a sign and a magnitude, and the magnitude says what
the double is: zero, finite, infinite or not a number. Only those that are not a number share a
pattern, so all others are told apart by the two. -/

namespace NimTemplate.Double

open Float.Model (UnpackedFloat)
open Float.Model.UnpackedFloat (Sign packComponents unpackExponent unpackMantissa unpackSign)

/-! The fields of a pattern. -/

section

variable (bits : BitVec 64)

theorem toNat_unpackMantissa : (@unpackMantissa .binary64 bits).toNat = bits.toNat % signBit % leadingBit := by
  change bits.toNat % leadingBit = _
  unfold signBit leadingBit
  omega

theorem toNat_unpackExponent : (@unpackExponent .binary64 bits).toNat = bits.toNat % signBit / leadingBit := by
  change (bits.toNat >>> 52) % 2048 = _
  rw [Nat.shiftRight_eq_div_pow]
  unfold signBit leadingBit
  omega

theorem toNat_unpackSign : (@unpackSign .binary64 bits).toNat = bits.toNat / signBit := by
  change (bits.toNat >>> 63) % 2 = _
  rw [Nat.shiftRight_eq_div_pow]
  have bound := bits.isLt
  unfold signBit
  omega

end

/-- The sign of a pattern. -/
def sign (bits : BitVec 64) : Sign := Sign.ofBitVec (@unpackSign .binary64 bits)

theorem toNat_sign (bits : BitVec 64) : (sign bits).toBitVec.toNat = bits.toNat / signBit := by
  rw [← toNat_unpackSign, sign]
  generalize @unpackSign .binary64 bits = bit
  revert bit
  decide

theorem toNat_packComponents (sign : Sign) (exponent : BitVec 11) (mantissa : BitVec 52) :
    (packComponents .binary64 sign exponent mantissa).toNat =
      sign.toBitVec.toNat * signBit + (exponent.toNat * leadingBit + mantissa.toNat) := by
  have upper : (sign.toBitVec ++ exponent).toNat = sign.toBitVec.toNat * 2048 + exponent.toNat := by
    rw [BitVec.toNat_append, ← Nat.shiftLeft_add_eq_or_of_lt exponent.isLt, Nat.shiftLeft_eq]
  have whole : (sign.toBitVec ++ exponent ++ mantissa).toNat =
      (sign.toBitVec ++ exponent).toNat * leadingBit + mantissa.toNat := by
    rw [BitVec.toNat_append, ← Nat.shiftLeft_add_eq_or_of_lt mantissa.isLt, Nat.shiftLeft_eq]
    rfl
  change (sign.toBitVec ++ exponent ++ mantissa).toNat = _
  rw [whole, upper]
  unfold signBit leadingBit
  omega

theorem toNat_append_leading (mantissa : BitVec 52) : (1#1 ++ mantissa).toNat = leadingBit + mantissa.toNat := by
  rw [BitVec.toNat_append, ← Nat.shiftLeft_add_eq_or_of_lt mantissa.isLt]
  rfl

theorem mantissa_pos {size : Nat} (positive : 0 < size) : 0 < mantissa size := by
  unfold mantissa
  split
  · exact positive
  · exact Nat.lt_of_lt_of_le (by decide) (Nat.le_add_right _ _)

/-! From a pattern to its double and back. -/

section

variable {bits : BitVec 64}

theorem unpackExponent_eq_iff {exponent : BitVec 11} :
    @unpackExponent .binary64 bits = exponent ↔ bits.toNat % signBit / leadingBit = exponent.toNat := by
  rw [← BitVec.toNat_inj, toNat_unpackExponent]

theorem unpackMantissa_eq_iff {mantissa : BitVec 52} :
    @unpackMantissa .binary64 bits = mantissa ↔ bits.toNat % signBit % leadingBit = mantissa.toNat := by
  rw [← BitVec.toNat_inj, toNat_unpackMantissa]

/-- The largest exponent is left to what is not finite. -/
theorem exponent_full_iff : @unpackExponent .binary64 bits = -1#11 ↔ infinity ≤ bits.toNat % signBit := by
  have bound : bits.toNat % signBit < signBit := Nat.mod_lt _ (by decide)
  rw [unpackExponent_eq_iff]
  change bits.toNat % signBit / leadingBit = 2047 ↔ _
  generalize bits.toNat % signBit = size at bound
  unfold signBit at bound
  unfold leadingBit infinity
  omega

theorem unpack_nan (above : infinity < bits.toNat % signBit) : UnpackedFloat.unpack .binary64 bits = .notANumber := by
  have bound : bits.toNat % signBit < signBit := Nat.mod_lt _ (by decide)
  have mantissa : ¬ @unpackMantissa .binary64 bits = 0#52 := by
    rw [unpackMantissa_eq_iff]
    change ¬ bits.toNat % signBit % leadingBit = 0
    generalize bits.toNat % signBit = size at above bound
    unfold infinity at above
    unfold signBit at bound
    unfold leadingBit
    omega
  exact (if_pos (exponent_full_iff.mpr (Nat.le_of_lt above))).trans (if_neg mantissa)

theorem unpack_infinity (infinite : bits.toNat % signBit = infinity) :
    UnpackedFloat.unpack .binary64 bits = .infinity (sign bits) := by
  have mantissa : @unpackMantissa .binary64 bits = 0#52 := by
    rw [unpackMantissa_eq_iff, infinite]
    rfl
  exact (if_pos (exponent_full_iff.mpr (Nat.le_of_eq infinite.symm))).trans (if_pos mantissa)

theorem unpack_zero (zero : bits.toNat % signBit = 0) : UnpackedFloat.unpack .binary64 bits = .zero (sign bits) := by
  have exponent : @unpackExponent .binary64 bits = 0#11 := by
    rw [unpackExponent_eq_iff, zero]
    rfl
  have mantissa : @unpackMantissa .binary64 bits = 0#52 := by
    rw [unpackMantissa_eq_iff, zero]
    rfl
  have finite : ¬ @unpackExponent .binary64 bits = -1#11 := by
    rw [exponent]
    decide
  exact (if_neg finite).trans ((if_pos exponent).trans (dif_pos mantissa))

theorem unpack_finite (positive : 0 < bits.toNat % signBit) (finite : bits.toNat % signBit < infinity) :
    UnpackedFloat.unpack .binary64 bits =
      .finite (sign bits) (mantissa (bits.toNat % signBit)) (scale (bits.toNat % signBit)) (mantissa_pos positive) := by
  refine (if_neg (mt exponent_full_iff.mp (Nat.not_le.mpr finite))).trans ?_
  -- Below the leading bit the pattern has no exponent, and its mantissa is written in full.
  by_cases small : bits.toNat % signBit < leadingBit
  · have exponent : @unpackExponent .binary64 bits = 0#11 := unpackExponent_eq_iff.mpr (Nat.div_eq_of_lt small)
    have filled : ¬ @unpackMantissa .binary64 bits = 0#52 := by
      rw [unpackMantissa_eq_iff, Nat.mod_eq_of_lt small]
      exact Nat.ne_of_gt positive
    refine (if_pos exponent).trans ((dif_neg filled).trans ?_)
    congr 1
    · rw [toNat_unpackMantissa, mantissa, if_pos small, Nat.mod_eq_of_lt small]
    · rw [exponent, scale, Nat.div_eq_of_lt small]
      rfl
  · have large : 1 ≤ bits.toNat % signBit / leadingBit := (Nat.one_le_div_iff (by decide)).mpr (Nat.not_lt.mp small)
    have exponent : ¬ @unpackExponent .binary64 bits = 0#11 := mt unpackExponent_eq_iff.mp (Nat.ne_of_gt large)
    refine (if_neg exponent).trans ?_
    congr 1
    · refine (toNat_append_leading _).trans ?_
      rw [toNat_unpackMantissa, mantissa, if_neg small]
    · rw [toNat_unpackExponent, scale, Nat.max_eq_left large]
      rfl

theorem log2_mantissa {size : Nat} (large : leadingBit ≤ size) : (mantissa size).log2 = 52 := by
  rw [mantissa, if_neg (Nat.not_lt.mpr large), Nat.log2_eq_iff (by unfold leadingBit; omega)]
  unfold leadingBit
  omega

theorem toNat_pack_finite (sign : Sign) {size : Nat} (positive : 0 < size) (finite : size < infinity) :
    (UnpackedFloat.pack .binary64 (.finite sign (mantissa size) (scale size) (mantissa_pos positive))).toNat =
      sign.toBitVec.toNat * signBit + size := by
  have biased : (scale size + 1023 + 52).toNat = max (size / leadingBit) 1 := by
    unfold scale
    omega
  have bound : max (size / leadingBit) 1 < 2047 := by
    unfold infinity at finite
    unfold leadingBit
    omega
  have bounded : ¬ 2 ^ 11 ≤ (scale size + 1023 + 52).toNat + 1 := by omega
  refine (congrArg BitVec.toNat (if_neg bounded)).trans ?_
  by_cases small : size < leadingBit
  · have short : ¬ (mantissa size).log2 + 1 = 53 := by
      have below : size.log2 < 52 := (Nat.log2_lt (Nat.ne_of_gt positive)).mpr small
      rw [mantissa, if_pos small]
      omega
    refine (congrArg BitVec.toNat (if_neg short)).trans ((toNat_packComponents _ _ _).trans ?_)
    change _ + (0 * leadingBit + mantissa size % leadingBit) = _
    rw [mantissa, if_pos small, Nat.mod_eq_of_lt small, Nat.zero_mul, Nat.zero_add]
  · have long : (mantissa size).log2 + 1 = 53 := by rw [log2_mantissa (Nat.not_lt.mp small)]
    refine (congrArg BitVec.toNat (if_pos long)).trans ((toNat_packComponents _ _ _).trans ?_)
    change _ + ((scale size + 1023 + 52).toNat % 2048 * leadingBit + mantissa size % leadingBit) = _
    rw [biased, Nat.mod_eq_of_lt (Nat.lt_succ_of_lt bound), mantissa, if_neg small]
    unfold leadingBit at small ⊢
    omega

/-- Only patterns that are not a number are changed by a way through the parts of a double. -/
theorem pack_unpack (number : bits.toNat % signBit ≤ infinity) :
    UnpackedFloat.pack .binary64 (UnpackedFloat.unpack .binary64 bits) = bits := by
  have parts : (sign bits).toBitVec.toNat * signBit + bits.toNat % signBit = bits.toNat := by
    rw [toNat_sign]
    exact Nat.div_add_mod' _ _
  apply BitVec.eq_of_toNat_eq
  refine Eq.trans ?_ parts
  rcases Nat.lt_or_eq_of_le number with finite | infinite
  · rcases Nat.eq_zero_or_pos (bits.toNat % signBit) with zero | positive
    · rw [unpack_zero zero, zero]
      exact (toNat_packComponents (sign bits) 0#11 0#52).trans (by simp)
    · rw [unpack_finite positive finite]
      exact toNat_pack_finite (sign bits) positive finite
  · have full : 2047 * leadingBit = infinity := rfl
    rw [unpack_infinity infinite, infinite]
    exact (toNat_packComponents (sign bits) (-1#11) 0#52).trans (by simp [full])

end

theorem toBits_ofBits {bits : UInt64} (number : bits.toNat % signBit ≤ infinity) : (Float.ofBits bits).toBits = bits :=
  congrArg UInt64.ofBitVec (pack_unpack number)

theorem toBits_inj {x y : Float} (same : x.toBits = y.toBits) : x = y := by
  obtain ⟨⟨left, _⟩⟩ := x
  obtain ⟨⟨right, _⟩⟩ := y
  cases same
  rfl

/-- What a double is, by its magnitude. -/
theorem unpack_cases (x : Float) :
    (magnitude x = 0 ∧ x.toModel.unpack = .zero (sign x.toBits.toBitVec)) ∨
    (0 < magnitude x ∧ magnitude x < infinity ∧
      ∃ mantissa scale positive, x.toModel.unpack = .finite (sign x.toBits.toBitVec) mantissa scale positive) ∨
    (magnitude x = infinity ∧ x.toModel.unpack = .infinity (sign x.toBits.toBitVec)) ∨
    (infinity < magnitude x ∧ x.toModel.unpack = .notANumber) := by
  rcases Nat.lt_trichotomy (magnitude x) infinity with finite | infinite | above
  · rcases Nat.eq_zero_or_pos (magnitude x) with zero | positive
    · exact .inl ⟨zero, unpack_zero zero⟩
    · exact .inr (.inl ⟨positive, finite, _, _, _, unpack_finite positive finite⟩)
  · exact .inr (.inr (.inl ⟨infinite, unpack_infinity infinite⟩))
  · exact .inr (.inr (.inr ⟨above, unpack_nan above⟩))

section

variable (x : Float)

theorem status_eq : x.isNaN = decide (infinity < magnitude x) ∧ x.isInf = decide (magnitude x = infinity) ∧
    x.isFinite = decide (magnitude x < infinity) := by
  have positive : 0 < infinity := by decide
  change x.toModel.unpack.isNaN = _ ∧ x.toModel.unpack.isInf = _ ∧ x.toModel.unpack.isFinite = _
  rcases unpack_cases x with ⟨size, parts⟩ | ⟨_, size, _, _, _, parts⟩ | ⟨size, parts⟩ | ⟨size, parts⟩
  all_goals rw [parts]
  · exact ⟨(decide_eq_false (by omega)).symm, (decide_eq_false (by omega)).symm, (decide_eq_true (by omega)).symm⟩
  · exact ⟨(decide_eq_false (by omega)).symm, (decide_eq_false (by omega)).symm, (decide_eq_true size).symm⟩
  · exact ⟨(decide_eq_false (by omega)).symm, (decide_eq_true size).symm, (decide_eq_false (by omega)).symm⟩
  · exact ⟨(decide_eq_true size).symm, (decide_eq_false (by omega)).symm, (decide_eq_false (by omega)).symm⟩

theorem isInf_iff : x.isInf = true ↔ magnitude x = infinity := by
  rw [(status_eq x).2.1, decide_eq_true_iff]

theorem isFinite_iff : x.isFinite = true ↔ magnitude x < infinity := by
  rw [(status_eq x).2.2, decide_eq_true_iff]

theorem isNaN_eq_false_iff : x.isNaN = false ↔ magnitude x ≤ infinity := by
  rw [(status_eq x).1, decide_eq_false_iff_not, Nat.not_lt]

theorem sign_eq : sign x.toBits.toBitVec = if isNegative x then .negative else .positive := by
  have bit : @unpackSign .binary64 x.toBits.toBitVec = 0#1 ↔ x.toBits.toNat < signBit := by
    rw [← BitVec.toNat_inj, toNat_unpackSign]
    exact Nat.div_eq_zero_iff_lt (by decide)
  rw [isNegative]
  by_cases below : x.toBits.toNat < signBit
  · rw [if_neg (by simpa using below)]
    exact if_pos (bit.mpr below)
  · rw [if_pos (by simpa using below)]
    exact if_neg (mt bit.mp below)

/-- The order on doubles takes both zeros as one. -/
theorem nonneg_iff (number : x.isNaN = false) : 0 ≤ x ↔ isNegative x = false ∨ magnitude x = 0 := by
  have below := (isNaN_eq_false_iff x).mp number
  have zero : (0 : Float).toModel.unpack = .zero (sign (0 : Float).toBits.toBitVec) := unpack_zero (by decide +kernel)
  have order : 0 ≤ x ↔ UnpackedFloat.le (0 : Float).toModel.unpack x.toModel.unpack = true := decide_eq_true_iff
  rw [order, zero]
  rcases unpack_cases x with ⟨size, parts⟩ | ⟨positive, _, _, _, _, parts⟩ | ⟨size, parts⟩ | ⟨size, parts⟩
  · rw [parts]
    exact iff_of_true rfl (.inr size)
  · rw [parts, sign_eq x, or_iff_left (Nat.ne_of_gt positive)]
    cases isNegative x with
    | false => exact iff_of_true rfl rfl
    | true => exact iff_of_false Bool.noConfusion Bool.noConfusion
  · have filled : ¬ magnitude x = 0 := by
      rw [size]
      decide
    rw [parts, sign_eq x, or_iff_left filled]
    cases isNegative x with
    | false => exact iff_of_true rfl rfl
    | true => exact iff_of_false Bool.noConfusion Bool.noConfusion
  · omega

end

/-- The pattern of a sign and a magnitude. -/
def pattern (negative : Bool) (size : Nat) : Nat := if negative then signBit + size else size

section

variable (negative : Bool) {size : Nat} (number : size ≤ infinity)

include number

theorem pattern_bounds : pattern negative size < UInt64.size ∧ pattern negative size % signBit = size ∧
    (signBit ≤ pattern negative size ↔ negative = true) := by
  have word : UInt64.size = 2 * signBit := rfl
  have half : infinity < signBit := by decide
  cases negative with
  | false =>
    have same : pattern false size = size := rfl
    rw [same]
    exact ⟨by omega, Nat.mod_eq_of_lt (by omega), iff_of_false (by omega) Bool.noConfusion⟩
  | true =>
    have same : pattern true size = signBit + size := rfl
    rw [same, Nat.add_mod_left]
    exact ⟨by omega, Nat.mod_eq_of_lt (by omega), iff_of_true (Nat.le_add_right _ _) rfl⟩

theorem toBits_ofMagnitude : (ofMagnitude negative size).toBits.toNat = pattern negative size := by
  obtain ⟨word, modulo, _⟩ := pattern_bounds negative number
  have bits : (UInt64.ofNat (pattern negative size)).toNat = pattern negative size := UInt64.toNat_ofNat_of_lt' word
  have kept : (ofMagnitude negative size).toBits = UInt64.ofNat (pattern negative size) := by
    apply toBits_ofBits
    change (UInt64.ofNat (pattern negative size)).toNat % signBit ≤ infinity
    rw [bits, modulo]
    exact number
  rw [kept, bits]

theorem magnitude_ofMagnitude : magnitude (ofMagnitude negative size) = size := by
  rw [magnitude, toBits_ofMagnitude negative number]
  exact (pattern_bounds negative number).2.1

theorem isNegative_ofMagnitude : isNegative (ofMagnitude negative size) = negative := by
  rw [isNegative, toBits_ofMagnitude negative number]
  simp [(pattern_bounds negative number).2.2]

end

/-- A double other than the one that is not a number is its sign and its magnitude. -/
theorem ofMagnitude_magnitude {x : Float} (number : x.isNaN = false) : ofMagnitude (isNegative x) (magnitude x) = x := by
  have bound : x.toBits.toNat < 0x10000000000000000 := x.toBits.toNat_lt
  apply toBits_inj
  apply UInt64.toNat_inj.mp
  rw [toBits_ofMagnitude _ ((isNaN_eq_false_iff x).mp number), pattern, magnitude]
  by_cases negative : signBit ≤ x.toBits.toNat
  · rw [isNegative, if_pos (decide_eq_true negative)]
    unfold signBit at *
    omega
  · rw [isNegative, if_neg (by simp [negative])]
    exact Nat.mod_eq_of_lt (Nat.not_le.mp negative)

theorem eq_ofMagnitude {x : Float} (number : x.isNaN = false) :
    x = ofMagnitude false (magnitude x) ∨ x = ofMagnitude true (magnitude x) := by
  have same := (ofMagnitude_magnitude number).symm
  cases sign : isNegative x with
  | false => exact .inl (sign ▸ same)
  | true => exact .inr (sign ▸ same)

theorem isNaN_ofMagnitude (negative : Bool) {size : Nat} (number : size ≤ infinity) :
    (ofMagnitude negative size).isNaN = false := by
  rw [isNaN_eq_false_iff, magnitude_ofMagnitude negative number]
  exact number

theorem not_isNaN_nan : ¬ nan.isNaN = false := by decide +kernel

theorem neg_infinity : -ofMagnitude false infinity = ofMagnitude true infinity := by decide +kernel

/-! Rounding never goes beyond infinity. -/

theorem nearest_le (num den : Nat) : nearest num den ≤ infinity := by
  unfold nearest
  split
  · exact Nat.zero_le _
  · exact Nat.min_le_right _ _

end NimTemplate.Double

namespace NimTemplate

theorem Decimal.magnitude_le (decimal : Decimal) : decimal.magnitude ≤ Double.infinity := by
  unfold Decimal.magnitude
  split
  · exact Nat.zero_le _
  split
  · exact Nat.le_refl _
  split
  · exact Nat.zero_le _
  · exact Double.nearest_le _ _

end NimTemplate
