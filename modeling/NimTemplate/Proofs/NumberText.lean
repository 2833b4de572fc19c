import NimTemplate.Proofs.Constancy
import NimTemplate.Proofs.Literals
import NimTemplate.Proofs.Nesting
import NimTemplate.Proofs.Numerals
import NimTemplate.Proofs.Rounding

/-! Numbers as they are printed. Whatever layout a number is given, both the conversion of texts
and the expression language read it back. -/

namespace NimTemplate

/-- The characters of a numeral before its power of ten. -/
theorem Decimal.Significand.plain {digits places : Nat} {text : List Char} (significand : Significand digits places text) :
    ∀ c ∈ text, c.isDigit ∨ c = '.' := by
  cases significand with
  | whole number => exact fun c member => .inl (number.all c member)
  | @pointed whole part n number all =>
    intro c member
    rcases List.mem_append.mp member with before | behind
    · exact .inl (number.all c before)
    · rcases List.mem_cons.mp behind with point | digit
      · exact .inr point
      · exact .inl (all c digit)
  | @fraction part n number =>
    intro c member
    rcases List.mem_cons.mp member with point | digit
    · exact .inr point
    · exact .inl (number.all c digit)

/-! Numerals among the tokens. -/

namespace Token

open Decimal (Numeral Power)

/-- Digits and points are taken whatever stands before them, and leave the mark to what follows. -/
theorem numeralSpan_run {run : List Char} (plain : ∀ c ∈ run, c.isDigit ∨ c = '.') (marked : Bool) (previous : Char)
    (rest : List Char) : ∃ last, numeralSpan marked previous (run ++ rest) =
      (run ++ (numeralSpan marked last rest).1, (numeralSpan marked last rest).2) := by
  induction run generalizing previous with
  | nil => exact ⟨previous, rfl⟩
  | cons c run ih =>
    obtain ⟨last, span⟩ := ih (fun d member => plain d (List.mem_cons_of_mem c member)) c
    have first := plain c List.mem_cons_self
    have accepted : (c.isDigit || c == '.') = true := by simpa using first
    have unmarked : Decimal.isMark c = false := by
      rcases first with digit | rfl
      · apply Bool.eq_false_iff.mpr
        intro mark
        simp only [Decimal.isMark, Bool.or_eq_true, beq_iff_eq] at mark
        rcases mark with rfl | rfl <;> cases digit
      · rfl
    refine ⟨last, ?_⟩
    rw [List.cons_append, numeralSpan, if_pos (by simp [accepted]), unmarked, Bool.or_false, span]
    rfl

theorem numeralSpan_digits {digits : List Char} {n : Nat} (number : Decimal.Digits digits n) (marked : Bool)
    (previous : Char) : numeralSpan marked previous digits = (digits, []) := by
  obtain ⟨last, span⟩ := numeralSpan_run (fun c member => .inl (number.all c member)) marked previous []
  simpa [numeralSpan] using span

theorem numeralSpan_power {power : Int} {text : List Char} (powered : Power power text) (previous : Char) :
    numeralSpan false previous text = (text, []) := by
  cases powered with
  | none => rfl
  | @some mark negative sign digits n marks signs number =>
    have marked : Decimal.isMark mark = true := by simpa [Decimal.isMark] using marks
    -- A sign is taken only because the mark is right before it.
    have behind : numeralSpan true mark (sign ++ digits) = (sign ++ digits, []) := by
      have run := fun previous => numeralSpan_digits number true previous
      cases signs with
      | none => exact run mark
      | plus => simp [numeralSpan, marked, run]
      | minus => simp [numeralSpan, marked, run]
    rw [numeralSpan, if_pos (by simp [marked]), marked, Bool.or_true, behind]

section

variable {text : List Char} {decimal : Decimal}

/-- A numeral is one span. -/
theorem numeralSpan_numeral (numeral : Numeral decimal text) (previous : Char) :
    numeralSpan false previous text = (text, []) := by
  obtain ⟨significand, powered⟩ := numeral
  obtain ⟨last, span⟩ := numeralSpan_run significand.plain false previous _
  rw [span, numeralSpan_power powered]

theorem readNumber_numeral (numeral : Numeral decimal text) (plain : isOctalForm text = false) :
    readNumber text = .ok (.number (Double.ofMagnitude false decimal.magnitude), []) := by
  have found := Decimal.read?_eq_some_iff.mpr ⟨[], text, .none, numeral, rfl⟩
  unfold readNumber
  split
  next => cases (Number.read?_hexadecimal (by decide) _).symm.trans found
  next => cases (Number.read?_hexadecimal (by decide) _).symm.trans found
  next =>
    simp only [numeralSpan_numeral numeral, ofNumeral, plain, Decimal.unsigned?_eq_some_iff.mpr numeral]
    rfl

theorem isBlank_of_isNumeralPart {c : Char} (part : isNumeralPart c) : Text.isBlank c = false := by
  simp only [isNumeralPart, Bool.or_eq_true, List.contains_iff_mem, List.mem_cons, List.not_mem_nil, or_false] at part
  rcases part with hex | rfl | rfl | rfl | rfl | rfl
  · have covered : Text.covers [(48, 57), (97, 102), (65, 70)] c := by
      simpa [Text.covers, Text.isHexDigit, Char.isDigit_iff_toNat, Char.le_def, UInt32.le_iff_toNat_le, or_assoc] using hex
    exact covers_apart (by decide) covered
  all_goals rfl

theorem filled_numeral (numeral : Numeral decimal text) : ∀ c ∈ text, Text.isBlank c = false := by
  have parts := (numeralSpan_spells false '\x00' text).2
  rw [numeralSpan_numeral numeral] at parts
  intro c member
  exact isBlank_of_isNumeralPart (parts c member)

theorem all_numeral (numeral : Numeral decimal text) (plain : isOctalForm text = false) :
    all text = .ok [.number (Double.ofMagnitude false decimal.magnitude)] := by
  have filled := filled_numeral numeral
  have number := readNumber_numeral numeral plain
  obtain ⟨c, rest, rfl, starts⟩ := numeral.starts
  have first : read c rest = .ok (.number (Double.ofMagnitude false decimal.magnitude), []) := by
    rw [read, if_pos (by simpa [startsNumber] using starts), number]
  rw [all_cons (filled c List.mem_cons_self) first, all_nil]
  rfl

end

end Token

/-! Layouts of decimals. -/

namespace Decimal

theorem digits_numeral (n : Nat) : Digits (numeral n) n where
  filled := Nat.toDigits_ne_nil
  all _ := isDigit_of_mem_toDigits
  number := Nat.ofDigitChars_ten_toDigits

/-- Digits with a point among or behind them. -/
theorem significand_split {text : List Char} {n : Nat} (number : Digits text n) {count : Nat} (positive : 0 < count) :
    Significand n (text.length - count) (text.take count ++ '.' :: text.drop count) := by
  have filled : text.take count ≠ [] := by simpa [Nat.ne_of_gt positive] using number.filled
  have before : ∀ c ∈ text.take count, c.isDigit := fun c member => number.all c (List.mem_of_mem_take member)
  have behind : ∀ c ∈ text.drop count, c.isDigit := fun c member => number.all c (List.mem_of_mem_drop member)
  have pointed := Significand.pointed ⟨filled, before, rfl⟩ behind
  rwa [List.take_append_drop, number.number, List.length_drop] at pointed

theorem power_signed (exponent : Int) : Power exponent ('e' :: signed exponent) := by
  have number := digits_numeral exponent.natAbs
  by_cases negative : exponent < 0
  · have power : Power (-(exponent.natAbs : Int)) ('e' :: '-' :: numeral exponent.natAbs) := .some (by decide) .minus number
    have same : -(exponent.natAbs : Int) = exponent := by omega
    rw [signed, if_pos negative]
    rwa [same] at power
  · have power : Power exponent.natAbs ('e' :: '+' :: numeral exponent.natAbs) := .some (by decide) .plus number
    have same : (exponent.natAbs : Int) = exponent := by omega
    rw [signed, if_neg negative]
    rwa [same] at power

theorem numeral_of_parts {decimal : Decimal} {places : Nat} {power : Int} {text powerText : List Char}
    (significand : Significand decimal.digits places text) (powered : Power power powerText)
    (placed : power - places = decimal.exponent) : Numeral decimal (text ++ powerText) := by
  have numeral := Numeral.mk significand powered
  rwa [placed] at numeral

theorem numeral_of_significand {decimal : Decimal} {places : Nat} {text : List Char}
    (significand : Significand decimal.digits places text) (placed : decimal.exponent = -places) : Numeral decimal text := by
  rw [← List.append_nil text]
  exact numeral_of_parts significand .none (by omega)

theorem isDigit_of_mem_zeros (count : Int) : ∀ c ∈ zeros count, c.isDigit := by
  intro c zero
  rw [List.eq_of_mem_replicate zero]
  rfl

theorem digits_zeros {text : List Char} {n : Nat} (number : Digits text n) (count : Int) :
    Digits (text ++ zeros count) (n * 10 ^ count.toNat) where
  filled := List.append_ne_nil_of_left_ne_nil number.filled _
  all := List.forall_mem_append.mpr ⟨number.all, isDigit_of_mem_zeros count⟩
  number := by
    rw [Nat.ofDigitChars_append, number.number, zeros, Nat.ofDigitChars_replicate_zero, Nat.mul_comm]

section

variable (decimal : Decimal)

theorem numeral_whole (whole : 0 ≤ decimal.exponent) :
    Numeral ⟨decimal.digits * 10 ^ decimal.exponent.toNat, 0⟩ decimal.positional := by
  have number := digits_zeros (digits_numeral decimal.digits) decimal.exponent
  rw [positional, if_pos whole]
  exact numeral_of_significand (.whole number) rfl

theorem numeral_positional (part : decimal.exponent < 0) : Numeral decimal decimal.positional := by
  have number := digits_numeral decimal.digits
  have length : decimal.leading = (numeral decimal.digits).length + decimal.exponent - 1 := rfl
  simp only [positional, if_neg (Int.not_le.mpr part)]
  split
  next reached => exact numeral_of_significand (significand_split number (by omega)) (by omega)
  next missed =>
    have pointed := Significand.pointed (digits_numeral 0)
      (List.forall_mem_append.mpr ⟨isDigit_of_mem_zeros (-decimal.leading - 1), number.all⟩)
    have value : Nat.ofDigitChars 10 (numeral 0 ++ (zeros (-decimal.leading - 1) ++ numeral decimal.digits)) 0 =
        decimal.digits := by
      rw [Nat.ofDigitChars_append, (digits_numeral 0).number, Nat.ofDigitChars_append, zeros,
        Nat.ofDigitChars_replicate_zero, Nat.mul_zero, number.number]
    rw [value] at pointed
    apply numeral_of_significand pointed
    rw [List.length_append, zeros, List.length_replicate]
    omega

theorem numeral_scientific : Numeral decimal decimal.scientific := by
  have number := digits_numeral decimal.digits
  have length : decimal.leading = (numeral decimal.digits).length + decimal.exponent - 1 := rfl
  have power := power_signed decimal.leading
  have filled : 0 < (numeral decimal.digits).length := List.length_pos_of_ne_nil number.filled
  unfold scientific
  simp only
  split
  next single =>
    have short : (numeral decimal.digits).length ≤ 1 := List.drop_eq_nil_iff.mp (List.isEmpty_iff.mp single)
    rw [List.append_nil, List.take_of_length_le short]
    exact numeral_of_parts (.whole number) power (by omega)
  next several => exact numeral_of_parts (significand_split number (by decide)) power (by omega)

end

/-! No layout looks octal: only the zero before a point leads one. -/

theorem isOctalForm_of_head {text : List Char} (first : text.head? ≠ some '0') : Token.isOctalForm text = false := by
  unfold Token.isOctalForm
  split
  · exact absurd rfl first
  · rfl

theorem isOctalForm_take {n count : Nat} (filled : 0 < n) (positive : 0 < count) (more : List Char) :
    Token.isOctalForm ((numeral n).take count ++ more) = false := by
  apply isOctalForm_of_head
  have taken : (numeral n).take count ≠ [] := by simpa [Nat.ne_of_gt positive] using (digits_numeral n).filled
  rw [List.head?_append, List.head?_eq_some_head taken, Option.some_or, ← List.head?_eq_some_head taken,
    List.head?_take, if_neg (Nat.ne_of_gt positive)]
  exact head?_toDigits filled

variable {decimal : Decimal}

theorem isOctalForm_positional (filled : 0 < decimal.digits) : Token.isOctalForm decimal.positional = false := by
  unfold positional
  simp only
  split
  next =>
    have length := List.length_pos_of_ne_nil (digits_numeral decimal.digits).filled
    have plain := isOctalForm_take filled length (zeros decimal.exponent)
    rwa [List.take_length] at plain
  next =>
    split
    next => exact isOctalForm_take filled (by omega) _
    next => rfl

theorem isOctalForm_scientific (filled : 0 < decimal.digits) : Token.isOctalForm decimal.scientific = false := by
  unfold scientific
  simp only [List.append_assoc]
  exact isOctalForm_take filled (by decide) _

/-- A text that is read as the number of a magnitude wherever a numeral is read. -/
structure Prints (size : Nat) (text : List Char) : Prop where
  numeral : ∃ decimal, Numeral decimal text ∧ decimal.magnitude = size
  plain : Token.isOctalForm text = false

section

variable {size : Nat} (reads : decimal.ReadsAs size)

include reads

theorem ReadsAs.scientific : Prints size decimal.scientific :=
  ⟨⟨decimal, numeral_scientific decimal, reads.magnitude⟩, isOctalForm_scientific reads.filled⟩

theorem ReadsAs.positional (small : decimal.leading < 400) : Prints size decimal.positional := by
  refine ⟨?_, isOctalForm_positional reads.filled⟩
  by_cases whole : 0 ≤ decimal.exponent
  · obtain ⟨digits, exponent⟩ := decimal
    have filled : 0 < digits * 10 ^ exponent.toNat := Nat.mul_pos reads.filled (Nat.pow_pos (by decide))
    have length : 0 < (numeral digits).length := List.length_pos_of_ne_nil (digits_numeral digits).filled
    have bound : exponent ≤ 400 := by
      unfold leading at small
      simp only at small
      omega
    have places : (-exponent).toNat = 0 := by
      simp only at whole
      omega
    refine ⟨_, numeral_whole ⟨digits, exponent⟩ whole, ?_⟩
    -- Neither writing has digits behind the point, so both round the same whole number.
    rw [← reads.magnitude, magnitude_eq_nearest reads.filled (Int.le_trans (by decide) whole) bound, places,
      magnitude_eq_nearest filled (by decide) (by decide)]
    simp
  · exact ⟨decimal, numeral_positional decimal (Int.not_le.mp whole), reads.magnitude⟩

end

end Decimal

theorem Text.trim_filled {text : List Char} (filled : ∀ c ∈ text, Text.isBlank c = false) : Text.trim text = text := by
  have flush (text : List Char) (filled : ∀ c ∈ text, Text.isBlank c = false) : text.dropWhile Text.isBlank = text := by
    cases text with
    | nil => rfl
    | cons c rest => exact List.dropWhile_cons_of_neg (by simp [filled c List.mem_cons_self])
  rw [Text.trim, Text.trimStart, flush text filled, Text.trimEnd, flush text.reverse (by simpa using filled),
    List.reverse_reverse]

/-! Numbers. -/

namespace Number

open Decimal (Prints)

theorem read_of_numeral {text : List Char} {negative : Bool} {decimal : Decimal}
    (filled : ∀ c ∈ text, Text.isBlank c = false) (found : Decimal.read? text = some (negative, decimal)) :
    read (String.ofList text) = Double.ofMagnitude negative decimal.magnitude := by
  have other {word : List Char} (none : Decimal.read? word = none) : text ≠ word := by
    intro same
    rw [same, none] at found
    cases found
  rw [read, String.toList_ofList, Text.trim_filled filled]
  split
  next => cases found
  next => cases (read?_hexadecimal (by decide) _).symm.trans found
  next => cases (read?_hexadecimal (by decide) _).symm.trans found
  next =>
    rw [if_neg (not_or.mpr ⟨other (by decide), other (by decide)⟩), if_neg (other (by decide)), found]

section

variable {x : Float} {layout : List Char} (prints : Prints (Double.magnitude x) layout)

include prints

theorem read_signed (number : x.isNaN = false) : read (signed x layout) = x := by
  obtain ⟨decimal, numeral, same⟩ := prints.numeral
  have filled := Token.filled_numeral numeral
  have value : Double.ofMagnitude (Double.isNegative x) decimal.magnitude = x := by
    rw [same]
    exact Double.ofMagnitude_magnitude number
  rw [signed]
  cases sign : Double.isNegative x with
  | false =>
    rw [sign] at value
    have found := Decimal.read?_eq_some_iff.mpr ⟨[], layout, .none, numeral, rfl⟩
    exact (read_of_numeral filled found).trans value
  | true =>
    rw [sign] at value
    have found := Decimal.read?_eq_some_iff.mpr ⟨['-'], layout, .minus, numeral, rfl⟩
    exact (read_of_numeral (List.forall_mem_cons.mpr ⟨rfl, filled⟩) found).trans value

theorem all_signed (number : x.isNaN = false) (positive : Double.isNegative x = false) :
    Token.all (signed x layout).toList = .ok [.number x] := by
  obtain ⟨decimal, numeral, same⟩ := prints.numeral
  have value := Double.ofMagnitude_magnitude number
  rw [signed, positive, String.toList_ofList]
  rw [positive, ← same] at value
  exact (Token.all_numeral numeral prints.plain).trans (by rw [value])

end

/-- A number with zero in place of negative zero. -/
def unsignedZero (x : Float) : Float :=
  if x = Double.ofMagnitude true 0 then Double.ofMagnitude false 0 else x

section

variable {x : Float}

theorem unsignedZero_of_zero (number : x.isNaN = false) (zero : Double.magnitude x = 0) :
    unsignedZero x = Double.ofMagnitude false 0 := by
  have either := Double.eq_ofMagnitude number
  rw [zero] at either
  rcases either with rfl | rfl
  · exact if_neg (by decide +kernel)
  · exact if_pos rfl

theorem unsignedZero_of_filled (filled : 0 < Double.magnitude x) : unsignedZero x = x := by
  apply if_neg
  rintro rfl
  rw [Double.magnitude_ofMagnitude true (Nat.zero_le _)] at filled
  exact Nat.lt_irrefl 0 filled

theorem text_of_finite (finite : Double.magnitude x < Double.infinity) :
    text x = if Double.magnitude x = 0 then "0"
      else
        let decimal := Decimal.shortest .up (Double.magnitude x)
        signed x (if -6 ≤ decimal.leading ∧ decimal.leading < 21 then decimal.positional else decimal.scientific) := by
  have number : ¬ x.isNaN = true := Bool.eq_false_iff.mp ((Double.isNaN_eq_false_iff x).mpr (Nat.le_of_lt finite))
  have bounded : ¬ x.isInf = true := mt (Double.isInf_iff x).mp (Nat.ne_of_lt finite)
  rw [text, if_neg number, if_neg bounded]

theorem text_of_zero (zero : Double.magnitude x = 0) : text x = "0" := by
  have finite : Double.magnitude x < Double.infinity := zero ▸ by decide
  rw [text_of_finite finite, if_pos zero]

theorem prints_zero : Prints 0 ['0'] where
  numeral := ⟨⟨0, 0⟩, Decimal.numeral_of_significand (.whole (Decimal.digits_numeral 0)) rfl, rfl⟩
  plain := rfl

theorem text_of_filled (filled : 0 < Double.magnitude x) (finite : Double.magnitude x < Double.infinity) :
    ∃ layout, Prints (Double.magnitude x) layout ∧ text x = signed x layout := by
  have reads := Decimal.readsAs_shortest .up filled finite
  rw [text_of_finite finite, if_neg (Nat.ne_of_gt filled)]
  refine ⟨_, ?_, rfl⟩
  split
  next small => exact reads.positional (by omega)
  next => exact reads.scientific

/-- Every finite number is printed as a numeral, with a sign if it is below zero. -/
theorem text_eq_signed (finite : Double.magnitude x < Double.infinity) :
    ∃ layout, Prints (Double.magnitude (unsignedZero x)) layout ∧ text x = signed (unsignedZero x) layout := by
  have number : x.isNaN = false := (Double.isNaN_eq_false_iff x).mpr (Nat.le_of_lt finite)
  rcases Nat.eq_zero_or_pos (Double.magnitude x) with zero | filled
  · have layout : signed (Double.ofMagnitude false 0) ['0'] = "0" := by
      rw [signed, Double.isNegative_ofMagnitude false (Nat.zero_le _)]
      rfl
    rw [unsignedZero_of_zero number zero, text_of_zero zero, Double.magnitude_ofMagnitude false (Nat.zero_le _)]
    exact ⟨['0'], prints_zero, layout.symm⟩
  · rw [unsignedZero_of_filled filled]
    exact text_of_filled filled finite

theorem isNaN_unsignedZero (number : x.isNaN = false) : (unsignedZero x).isNaN = false := by
  unfold unsignedZero
  split
  · exact Double.isNaN_ofMagnitude false (Nat.zero_le _)
  · exact number

theorem isNegative_unsignedZero (number : x.isNaN = false) (nonneg : 0 ≤ x) : Double.isNegative (unsignedZero x) = false := by
  rcases Nat.eq_zero_or_pos (Double.magnitude x) with zero | filled
  · rw [unsignedZero_of_zero number zero]
    exact Double.isNegative_ofMagnitude false (Nat.zero_le _)
  · rw [unsignedZero_of_filled filled]
    rcases (Double.nonneg_iff x number).mp nonneg with positive | zero
    · exact positive
    · omega

theorem read_text_of_infinite (infinite : Double.magnitude x = Double.infinity) : read (text x) = x := by
  have either := Double.eq_ofMagnitude ((Double.isNaN_eq_false_iff x).mpr (Nat.le_of_eq infinite))
  rw [infinite] at either
  rcases either with rfl | rfl
  · decide +kernel
  · decide +kernel

end

theorem constant?_of_tokens {source : String} {x : Float} (tokens : Token.all source.toList = .ok [.number x]) :
    constant? source = some (.number x) := by
  have parsed : Expr.parse source = .ok (.number x) := Expr.parse_of_operand tokens rfl (by rw [Expr.readOperand])
  rw [constant?, Environment.evaluate_of_known parsed (by simp [Expr.freeNames])]
  rfl

theorem text_unsignedZero {x : Float} (number : x.isNaN = false) : text (unsignedZero x) = text x := by
  rcases Nat.eq_zero_or_pos (Double.magnitude x) with zero | filled
  · have size := Double.magnitude_ofMagnitude false (Nat.zero_le Double.infinity)
    rw [unsignedZero_of_zero number zero, text_of_zero zero, text_of_zero size]
  · rw [unsignedZero_of_filled filled]

/-- Every double but the one that is not a number is read back from its text, up to the sign of zero.
The text of a finite one that is not below zero is a single token, so as an expression and as a key it
stands for itself. -/
theorem printed_numbers_read_back (x : Float) (number : x.isNaN = false) :
    read (text x) = unsignedZero x ∧
      (x.isFinite → 0 ≤ x → Token.all (text x).toList = .ok [.number (unsignedZero x)] ∧
        constant? (text x) = some (.number (unsignedZero x)) ∧
        ∀ rest, Expr.readKey (.number (unsignedZero x) :: rest) = .ok (text x, rest)) := by
  constructor
  · rcases Nat.lt_or_eq_of_le ((Double.isNaN_eq_false_iff x).mp number) with finite | infinite
    · obtain ⟨layout, prints, same⟩ := text_eq_signed finite
      rw [same]
      exact read_signed prints (isNaN_unsignedZero number)
    · rw [read_text_of_infinite infinite, unsignedZero_of_filled (infinite ▸ by decide)]
  · intro finite nonneg
    obtain ⟨layout, prints, same⟩ := text_eq_signed ((Double.isFinite_iff x).mp finite)
    have tokens := all_signed prints (isNaN_unsignedZero number) (isNegative_unsignedZero number nonneg)
    rw [← same] at tokens
    refine ⟨tokens, constant?_of_tokens tokens, ?_⟩
    intro rest
    rw [Expr.readKey, text_unsignedZero number]

/-- At 10^21 the layout changes. -/
theorem sextillion_reads_back :
    let x := Double.ofMagnitude false 0x444B1AE4D6E2EF50
    (x.isNaN = false ∧ x.isFinite ∧ 0 ≤ x) ∧ read (text x) = unsignedZero x ∧
      Token.all (text x).toList = .ok [.number (unsignedZero x)] := by
  intro x
  have number : x.isNaN = false := by decide +kernel
  have finite : x.isFinite := by decide +kernel
  have nonneg : 0 ≤ x := by decide +kernel
  have back := printed_numbers_read_back x number
  exact ⟨⟨number, finite, nonneg⟩, back.1, (back.2 finite nonneg).1⟩

end Number

end NimTemplate
