import Mathlib.Data.List.TakeWhile
import NimTemplate.Json.Reader
import NimTemplate.Proofs.Digits
import NimTemplate.Proofs.Products

/-! The texts that write a number in a JSON document, and the numbers in the range of doubles. The
range is said by the doubles next to the digits and to the power of ten, with the limit from which
on a product is infinite. -/

namespace NimTemplate.Json

def IsDigits (digits : List Char) : Prop := digits ≠ [] ∧ ∀ c ∈ digits, c.isDigit

theorem IsDigits.unsigned {digits : List Char} (isDigits : IsDigits digits) :
    ∃ first more, digits = first :: more ∧ first ≠ '+' ∧ first ≠ '-' := by
  obtain ⟨first, more, rfl⟩ := List.exists_cons_of_ne_nil isDigits.1
  have digit := isDigits.2 first List.mem_cons_self
  refine ⟨first, more, rfl, ?_, ?_⟩
  all_goals
    rintro rfl
    cases digit

/-- The digits before the point, which start with zero only if there is no other. -/
structure IsWhole (whole : List Char) : Prop where
  digits : IsDigits whole
  leading : whole.head? = some '0' → whole = ['0']

/-- The point and the digits behind it, or neither. -/
inductive WritesFraction : (fraction text : List Char) → Prop where
  | none : WritesFraction [] []
  | some {fraction : List Char} : IsDigits fraction → WritesFraction fraction ('.' :: fraction)

/-- The power of ten with its mark, or nothing. -/
inductive WritesPower : (power : List Char) → (exponent : Int) → (text : List Char) → Prop where
  | none : WritesPower [] 0 []
  | some {mark : Char} {sign digits : List Char} : mark ∈ ['e', 'E'] → sign ∈ [[], ['+'], ['-']] → IsDigits digits →
      WritesPower (sign ++ digits) ((if sign = ['-'] then -1 else 1) * Nat.ofDigitChars 10 digits 0)
        (mark :: (sign ++ digits))

/-- The leading digits that go on with a number within a word. -/
structure Fits (start : Nat) (digits leading : List Char) : Prop where
  leads : leading <+: digits
  within : Nat.ofDigitChars 10 leading start < wordSize
  longest : ∀ c, leading ++ [c] <+: digits → wordSize ≤ Nat.ofDigitChars 10 (leading ++ [c]) start

/-- The double next to a number within a word times the double next to a power of ten is finite. It
takes a positive power to leave the range. -/
def Bounded (significand : Nat) (exponent : Int) : Prop :=
  significand = 0 ∨ exponent ≤ 0 ∨ Double.rounded significand * Double.rounded (10 ^ exponent.toNat) < Double.limit

/-- The range of doubles. Of the digits those count that fit a word, the others of the whole part
with their places only. -/
def InRange (whole fraction : List Char) (exponent : Int) : Prop :=
  ∃ leading others, Fits 0 whole leading ∧ Fits (Nat.ofDigitChars 10 leading 0) fraction others ∧
    Bounded (Nat.ofDigitChars 10 (leading ++ others) 0)
      ((whole.length - leading.length : Nat) - others.length + exponent)

inductive IsNumber : List Char → Prop where
  | mk {sign whole fraction fractionText power powerText : List Char} {exponent : Int} : sign ∈ [[], ['-']] →
      IsWhole whole → WritesFraction fraction fractionText → WritesPower power exponent powerText →
      InRange whole fraction exponent → IsNumber (sign ++ (whole ++ (fractionText ++ powerText)))

/-! The reader's test decides the range. -/

theorem le_ofDigitChars (digits : List Char) (n : Nat) : n ≤ Nat.ofDigitChars 10 digits n := by
  rw [Nat.ofDigitChars_eq_ofDigitChars_zero]
  exact Nat.le_add_right_of_le (Nat.le_mul_of_pos_left n (Nat.pow_pos (by decide)))

theorem Fits.cons_iff {start : Nat} {c : Char} {digits leading : List Char} :
    Fits start (c :: digits) (c :: leading) ↔ Fits (10 * start + (c.toNat - '0'.toNat)) digits leading := by
  constructor
  · rintro ⟨leads, within, longest⟩
    refine ⟨(List.cons_prefix_cons.mp leads).2, within, fun next longer => ?_⟩
    exact longest next (List.cons_prefix_cons.mpr ⟨rfl, longer⟩)
  · rintro ⟨leads, within, longest⟩
    refine ⟨List.cons_prefix_cons.mpr ⟨rfl, leads⟩, within, fun next longer => ?_⟩
    exact longest next (List.cons_prefix_cons.mp longer).2

theorem Fits.all {start : Nat} {digits : List Char} (within : Nat.ofDigitChars 10 digits start < wordSize) :
    Fits start digits digits := by
  refine ⟨List.prefix_rfl, within, fun c longer => ?_⟩
  have shorter := longer.length_le
  simp at shorter

theorem takeDigits_of_fits {start : Nat} {digits leading : List Char} (fits : Fits start digits leading) (taken : Nat) :
    takeDigits start taken digits = (Nat.ofDigitChars 10 leading start, taken + leading.length) := by
  induction digits generalizing start leading taken with
  | nil =>
    obtain rfl := List.prefix_nil.mp fits.leads
    rfl
  | cons c digits ih =>
    cases leading with
    | nil =>
      have large : wordSize ≤ 10 * start + (c.toNat - '0'.toNat) := fits.longest c (by simp)
      rw [takeDigits, if_neg (Nat.not_lt.mpr large)]
      rfl
    | cons d leading =>
      obtain ⟨rfl, -⟩ := List.cons_prefix_cons.mp fits.leads
      have behind := Fits.cons_iff.mp fits
      rw [takeDigits, if_pos (Nat.lt_of_le_of_lt (le_ofDigitChars leading _) behind.within), ih behind,
        Nat.ofDigitChars_cons, List.length_cons]
      exact congrArg _ (by omega)

theorem exists_fits {start : Nat} (within : start < wordSize) (digits : List Char) :
    ∃ leading, Fits start digits leading := by
  induction digits generalizing start with
  | nil => exact ⟨[], .all within⟩
  | cons c digits ih =>
    by_cases next : 10 * start + (c.toNat - '0'.toNat) < wordSize
    · obtain ⟨leading, fits⟩ := ih next
      exact ⟨c :: leading, Fits.cons_iff.mpr fits⟩
    · refine ⟨[], List.nil_prefix, within, fun d first => ?_⟩
      obtain ⟨rfl, -⟩ := List.cons_prefix_cons.mp first
      exact Nat.not_lt.mp next

theorem integer?_of_writes {power text : List Char} {exponent : Int} (writes : WritesPower power exponent text) :
    (Decimal.integer? power).getD 0 = exponent := by
  cases writes with
  | none => rfl
  | @some _ sign digits _ signed isDigits =>
    have read := Decimal.natural?_of_digits isDigits.1 isDigits.2
    simp only [List.mem_cons, List.not_mem_nil, or_false] at signed
    rcases signed with rfl | rfl | rfl
    · obtain ⟨first, more, rfl, plus, minus⟩ := isDigits.unsigned
      simp_all [Decimal.integer?]
    · simp [Decimal.integer?, read]
    · simp [Decimal.integer?, read]

theorem wordSize_lt_limit : wordSize < Double.limit := by decide +kernel

/-- The powers of ten that doubles reach. -/
theorem power_lt_limit {exponent : Nat} (reached : exponent ≤ 308) : 10 ^ exponent < Double.limit := by
  calc 10 ^ exponent ≤ 10 ^ (154 * 2) := Nat.pow_le_pow_right (by decide) reached
    _ = (10 ^ 154) ^ 2 := Nat.pow_mul ..
    _ < Double.limit := by decide +kernel

theorem limit_le_power {exponent : Nat} (beyond : 308 < exponent) : Double.limit ≤ Double.rounded (10 ^ exponent) := by
  -- The exponents have names, so that no step writes the powers out.
  obtain ⟨places, places_eq⟩ : ∃ places, places = 128 * 8 := ⟨_, rfl⟩
  obtain ⟨least, least_eq⟩ : ∃ least, least = 103 * 3 := ⟨_, rfl⟩
  have split : 2 ^ places = (2 ^ 128) ^ 8 := by rw [places_eq, Nat.pow_mul]
  have power : 2 ^ places ≤ 10 ^ exponent := by
    calc 2 ^ places = (2 ^ 128) ^ 8 := split
      _ ≤ (10 ^ 103) ^ 3 := by decide +kernel
      _ = 10 ^ least := by rw [least_eq, Nat.pow_mul]
      _ ≤ 10 ^ exponent := Nat.pow_le_pow_right (by decide) (by omega)
  have filled : 0 < 10 ^ exponent := Nat.pow_pos (by decide)
  have log : places ≤ (10 ^ exponent).log2 := (Nat.le_log2 (Nat.ne_of_gt filled)).mpr power
  calc Double.limit ≤ (2 ^ 128) ^ 8 := by decide +kernel
    _ = 2 ^ places := split.symm
    _ ≤ 2 ^ (10 ^ exponent).log2 := Nat.pow_le_pow_right (by decide) log
    _ ≤ Double.rounded (10 ^ exponent) := Double.le_rounded filled

theorem ofMagnitude_power {exponent : Int} (positive : 0 < exponent) (reached : exponent ≤ 308) :
    Double.ofMagnitude false (Decimal.magnitude ⟨1, exponent⟩) = Double.ofNat (10 ^ exponent.toNat) := by
  have whole : (-exponent).toNat = 0 := by omega
  have middle : ¬ 400 < exponent := by omega
  have some_size : ¬ exponent + (Nat.log2 1 : Int) + 1200 < 0 := by
    have : Nat.log2 1 = 0 := by decide
    omega
  rw [Decimal.magnitude, if_neg Nat.one_ne_zero, if_neg middle, if_neg some_size, whole, Nat.one_mul]
  rfl

theorem bounded_iff {significand : Nat} (within : significand < wordSize) (exponent : Int) :
    (significand != 0 && (308 < exponent || (0 < exponent &&
      (Double.ofNat significand * Double.ofMagnitude false (Decimal.magnitude ⟨1, exponent⟩)).isInf))) = false ↔
      Bounded significand exponent := by
  rcases Nat.eq_zero_or_pos significand with rfl | filled
  · simp [Bounded]
  · have one : 1 ≤ Double.rounded significand := Nat.le_trans Nat.one_le_two_pow (Double.le_rounded filled)
    rcases Int.lt_or_le 308 exponent with beyond | reached
    · have large : Double.limit ≤ Double.rounded significand * Double.rounded (10 ^ exponent.toNat) :=
        Nat.le_trans (limit_le_power (by omega)) (Nat.le_mul_of_pos_left _ one)
      refine iff_of_false (by simp [Nat.ne_of_gt filled, beyond]) ?_
      rintro (zero | short | small)
      · exact Nat.ne_of_gt filled zero
      · omega
      · exact Nat.not_lt.mpr large small
    · rcases Int.lt_or_le 0 exponent with positive | short
      · have product := Double.isInf_ofNat_mul_iff filled (Nat.lt_trans within wordSize_lt_limit)
          (Nat.pow_pos (n := exponent.toNat) (show 0 < 10 by decide)) (power_lt_limit (by omega))
        rw [ofMagnitude_power positive reached]
        simp [Bounded, Nat.ne_of_gt filled, positive, reached, ← Bool.not_eq_true, product]
      · simp [Bounded, short, reached]

theorem isTooLarge_eq_false_iff {whole fraction power text : List Char} {exponent : Int}
    (writes : WritesPower power exponent text) :
    isTooLarge whole fraction power = false ↔ InRange whole fraction exponent := by
  have decided : ∀ {leading others}, Fits 0 whole leading → Fits (Nat.ofDigitChars 10 leading 0) fraction others →
      (isTooLarge whole fraction power = false ↔ Bounded (Nat.ofDigitChars 10 (leading ++ others) 0)
        ((whole.length - leading.length : Nat) - others.length + exponent)) := by
    intro leading others first second
    have within := second.within
    rw [Nat.ofDigitChars_append, ← bounded_iff within, isTooLarge, takeDigits_of_fits first]
    dsimp only
    rw [takeDigits_of_fits second, integer?_of_writes writes, Nat.zero_add, Nat.zero_add]
  constructor
  · intro passed
    obtain ⟨leading, first⟩ := exists_fits (show 0 < wordSize by decide) whole
    obtain ⟨others, second⟩ := exists_fits first.within fraction
    exact ⟨leading, others, first, second, (decided first second).mp passed⟩
  · rintro ⟨leading, others, first, second, bounded⟩
    exact (decided first second).mpr bounded

/-- What stands behind a value: a blank, the next punctuator or nothing. -/
def Ends (rest : List Char) : Prop := ∀ c ∈ rest.head?, isBlank c ∨ c ∈ [',', ']', '\x7d']

/-- Digits cannot go on with the text. -/
def Stops (rest : List Char) : Prop := ∀ c ∈ rest.head?, c.isDigit = false

theorem digits_run {run rest : List Char} (isDigits : ∀ c ∈ run, c.isDigit) (stops : Stops rest) :
    digits (run ++ rest) = (run, rest) := by
  rw [digits, Text.takeWhile_run isDigits stops, Text.dropWhile_run isDigits stops]

theorem Ends.outside {rest : List Char} (ends : Ends rest) {p : Char → Bool}
    (apart : [' ', '\t', '\n', '\r', ',', ']', '\x7d'].all fun c => !p c) : ∀ c ∈ rest.head?, p c = false := by
  intro c first
  have listed : c ∈ [' ', '\t', '\n', '\r', ',', ']', '\x7d'] := by simpa [isBlank, or_assoc] using ends c first
  simpa using List.all_eq_true.mp apart c listed

theorem Ends.stops {rest : List Char} (ends : Ends rest) : Stops rest := ends.outside (by decide)

theorem powerPart?_of_writes {power text rest : List Char} {exponent : Int} (writes : WritesPower power exponent text) (ends : Ends rest) :
    powerPart? (text ++ rest) = some (power, rest) := by
  cases writes with
  | none =>
    cases rest with
    | nil => rfl
    | cons c rest =>
      have plain : Decimal.isMark c = false := ends.outside (by decide) c rfl
      simp [powerPart?, plain]
  | @some mark sign digits marks signed isDigits =>
    have marked : Decimal.isMark mark := by
      simp only [List.mem_cons, List.not_mem_nil, or_false] at marks
      rcases marks with rfl | rfl <;> rfl
    have run := digits_run isDigits.2 ends.stops
    have some_power : digits.isEmpty = false := by simpa using isDigits.1
    simp only [List.mem_cons, List.not_mem_nil, or_false] at signed
    rcases signed with rfl | rfl | rfl
    · obtain ⟨first, more, rfl, plus, minus⟩ := isDigits.unsigned
      simp_all [powerPart?]
    · simp [powerPart?, marked, run, some_power]
    · simp [powerPart?, marked, run, some_power]

theorem Stops.of_power {power text rest : List Char} {exponent : Int} (writes : WritesPower power exponent text) (ends : Ends rest) :
    Stops (text ++ rest) ∧ (text ++ rest).head? ≠ some '.' := by
  cases writes with
  | none =>
    have other : ∀ c ∈ rest.head?, (c == '.') = false := ends.outside (by decide)
    exact ⟨ends.stops, fun point => Bool.false_ne_true (other '.' point).symm⟩
  | some marks =>
    simp only [List.mem_cons, List.not_mem_nil, or_false] at marks
    rcases marks with rfl | rfl <;> simp [Stops]

theorem fractionPart?_of_writes {fraction text rest : List Char} (writes : WritesFraction fraction text)
    (stops : Stops rest) (other : rest.head? ≠ some '.') : fractionPart? (text ++ rest) = some (fraction, rest) := by
  cases writes with
  | none =>
    cases rest with
    | nil => rfl
    | cons c rest =>
      rw [List.nil_append, fractionPart?]
      intro more same
      simp_all
  | some isDigits =>
    simp [fractionPart?, digits_run isDigits.2 stops, isDigits.1]

theorem Stops.of_fraction {fraction text rest : List Char} (writes : WritesFraction fraction text) (stops : Stops rest) :
    Stops (text ++ rest) := by
  cases writes with
  | none => exact stops
  | some => simp [Stops]

theorem wholePart?_of_isWhole {whole rest : List Char} (isWhole : IsWhole whole) (stops : Stops rest) :
    wholePart? (whole ++ rest) = some (whole, rest) := by
  have some_digit := isWhole.digits.1
  by_cases zero : whole.head? = some '0'
  · have single : whole.length = 1 := congrArg List.length (isWhole.leading zero)
    simp [wholePart?, digits_run isWhole.digits.2 stops, some_digit, single]
  · simp [wholePart?, digits_run isWhole.digits.2 stops, some_digit, zero]

theorem take_front (text rest : List Char) : (text ++ rest).take ((text ++ rest).length - rest.length) = text := by
  simp

theorem number?_of_unsigned {text rest : List Char} (minus : (text ++ rest).head? ≠ some '-')
    (unsigned : unsignedNumber? (text ++ rest) = some rest) :
    number? (text ++ rest) = some (String.ofList text, rest) := by
  rw [number?, unsigned]
  · exact congrArg (fun literal => some (String.ofList literal, rest)) (take_front text rest)
  · intro tail same
    exact minus (congrArg List.head? same)

theorem number?_of_negative {text rest : List Char} (unsigned : unsignedNumber? (text ++ rest) = some rest) :
    number? ('-' :: text ++ rest) = some (String.ofList ('-' :: text), rest) := by
  rw [List.cons_append, number?, unsigned]
  exact congrArg (fun literal => some (String.ofList literal, rest)) (take_front ('-' :: text) rest)

theorem IsDigits.head {digits : List Char} (isDigits : IsDigits digits) (more : List Char) :
    ∃ c ∈ (digits ++ more).head?, c.isDigit := by
  obtain ⟨c, others, rfl⟩ := List.exists_cons_of_ne_nil isDigits.1
  exact ⟨c, rfl, isDigits.2 c List.mem_cons_self⟩

theorem number?_of_isNumber {text rest : List Char} (isNumber : IsNumber text) (ends : Ends rest) :
    number? (text ++ rest) = some (String.ofList text, rest) := by
  cases isNumber with
  | @mk sign whole fraction fractionText power powerText exponent signed isWhole fractional powered inRange =>
    have behind := Stops.of_power powered ends
    have unsigned : unsignedNumber? (whole ++ (fractionText ++ powerText) ++ rest) = some rest := by
      rw [List.append_assoc, List.append_assoc, unsignedNumber?,
        wholePart?_of_isWhole isWhole (behind.1.of_fraction fractional)]
      dsimp only [bind, Option.bind]
      rw [fractionPart?_of_writes fractional behind.1 behind.2]
      dsimp only
      rw [powerPart?_of_writes powered ends]
      dsimp only
      rw [(isTooLarge_eq_false_iff powered).mpr inRange]
      rfl
    simp only [List.mem_cons, List.not_mem_nil, or_false] at signed
    rcases signed with rfl | rfl
    · refine number?_of_unsigned ?_ unsigned
      obtain ⟨c, first, digit⟩ := isWhole.digits.head (fractionText ++ powerText ++ rest)
      intro minus
      rw [List.nil_append, List.append_assoc, Option.mem_def.mp first] at minus
      cases minus
      cases digit
    · exact number?_of_negative unsigned

/-! Whole numbers that fit a word are in the range of doubles. -/

theorem isNumber_natural {n : Nat} (fits : n < wordSize) : IsNumber (toString n).toList := by
  have written : (toString n).toList = [] ++ (Nat.toDigits 10 n ++ ([] ++ [])) := by
    simp
  have isWhole : IsWhole (Nat.toDigits 10 n) := by
    refine ⟨⟨Nat.toDigits_ne_nil, fun c => Nat.isDigit_of_mem_toDigits (by decide) (by decide)⟩, fun zero => ?_⟩
    obtain rfl : n = 0 := Nat.eq_zero_of_not_pos fun positive => Decimal.head?_toDigits positive zero
    exact Nat.toDigits_zero 10
  have within : Nat.ofDigitChars 10 (Nat.toDigits 10 n) 0 < wordSize := by rwa [Nat.ofDigitChars_ten_toDigits]
  have inRange : InRange (Nat.toDigits 10 n) [] 0 := by
    refine ⟨_, [], .all within, .all within, .inr (.inl ?_)⟩
    simp
  rw [written]
  exact .mk List.mem_cons_self isWhole .none .none inRange

end NimTemplate.Json
