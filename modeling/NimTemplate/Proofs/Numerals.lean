import NimTemplate.Proofs.Digits
import NimTemplate.Proofs.Doubles

/-! The texts that stand for a number. Decimal numerals are given by their grammar, with the decimal
that each writes, and the reader takes exactly them. Around them stand the other forms of a number:
a blank text, a word in hexadecimal digits and infinity. -/

namespace NimTemplate.Decimal

/-! The grammar of numerals. -/

/-- One digit or more, and the number they write. -/
structure Digits (text : List Char) (n : Nat) : Prop where
  filled : text ≠ []
  all : ∀ c ∈ text, c.isDigit
  number : Nat.ofDigitChars 10 text 0 = n

/-- A sign, which may be left out. -/
inductive Sign : (negative : Bool) → (text : List Char) → Prop where
  | none : Sign false []
  | plus : Sign false ['+']
  | minus : Sign true ['-']

/-- The digits of a numeral, and how many of them stand behind the point. -/
inductive Significand : (digits places : Nat) → (text : List Char) → Prop where
  | whole {text : List Char} {n : Nat} : Digits text n → Significand n 0 text
  | pointed {whole part : List Char} {n : Nat} : Digits whole n → (∀ c ∈ part, c.isDigit) →
      Significand (Nat.ofDigitChars 10 (whole ++ part) 0) part.length (whole ++ '.' :: part)
  | fraction {part : List Char} {n : Nat} : Digits part n → Significand n part.length ('.' :: part)

/-- The power of ten with its mark, or nothing. -/
inductive Power : (power : Int) → (text : List Char) → Prop where
  | none : Power 0 []
  | some {mark : Char} {negative : Bool} {sign digits : List Char} {n : Nat} : mark ∈ ['e', 'E'] → Sign negative sign →
      Digits digits n → Power (if negative then -n else n) (mark :: (sign ++ digits))

/-- A numeral without sign, and the decimal it writes. -/
inductive Numeral : Decimal → (text : List Char) → Prop where
  | mk {digits places : Nat} {power : Int} {text powerText : List Char} : Significand digits places text →
      Power power powerText → Numeral ⟨digits, power - places⟩ (text ++ powerText)

/-! The parts of a numeral are read as they are written. -/

theorem natural?_iff {text : List Char} {n : Nat} : natural? text = some n ↔ Digits text n := by
  constructor
  · intro found
    obtain ⟨filled, all, number⟩ := natural?_eq_some found
    exact ⟨filled, all, number⟩
  · intro digits
    rw [natural?_of_digits digits.filled digits.all, digits.number]

/-- The sign at the start of a text, and the text without it. -/
def unsign : List Char → Bool × List Char
  | '+' :: rest => (false, rest)
  | '-' :: rest => (true, rest)
  | text => (false, text)

theorem sign_unsign (text : List Char) : ∃ sign, Sign (unsign text).1 sign ∧ text = sign ++ (unsign text).2 := by
  unfold unsign
  split
  · exact ⟨_, .plus, rfl⟩
  · exact ⟨_, .minus, rfl⟩
  · exact ⟨_, .none, rfl⟩

theorem unsign_sign {negative : Bool} {sign text : List Char} (signs : Sign negative sign)
    (unsigned : ∀ c ∈ text.head?, c ≠ '+' ∧ c ≠ '-') : unsign (sign ++ text) = (negative, text) := by
  cases signs with
  | plus => rfl
  | minus => rfl
  | none =>
    rw [List.nil_append]
    unfold unsign
    split
    · exact absurd rfl (unsigned '+' rfl).1
    · exact absurd rfl (unsigned '-' rfl).2
    · rfl

theorem integer?_eq (text : List Char) :
    integer? text = (natural? (unsign text).2).map fun n => if (unsign text).1 then -Int.ofNat n else Int.ofNat n := by
  fun_cases unsign text with
  | case1 => rfl
  | case2 => rfl
  | case3 => exact integer?.eq_3 text ‹_› ‹_›

theorem read?_eq (text : List Char) : read? text = (unsigned? (unsign text).2).map ((unsign text).1, ·) := by
  fun_cases unsign text with
  | case1 => rfl
  | case2 => rfl
  | case3 => exact read?.eq_3 text ‹_› ‹_›

theorem Digits.starts {text : List Char} {n : Nat} (digits : Digits text n) (more : List Char) :
    ∃ c rest, text ++ more = c :: rest ∧ c.isDigit := by
  obtain ⟨c, rest, rfl⟩ := List.exists_cons_of_ne_nil digits.filled
  exact ⟨c, rest ++ more, rfl, digits.all c List.mem_cons_self⟩

theorem integer?_eq_some_iff {text : List Char} {power : Int} : integer? text = some power ↔
    ∃ negative sign digits n, Sign negative sign ∧ Digits digits n ∧ text = sign ++ digits ∧
      power = if negative then -(n : Int) else n := by
  rw [integer?_eq]
  constructor
  · intro found
    obtain ⟨n, number, rfl⟩ := Option.map_eq_some_iff.mp found
    obtain ⟨sign, signs, same⟩ := sign_unsign text
    exact ⟨_, sign, _, n, signs, natural?_iff.mp number, same, rfl⟩
  · rintro ⟨negative, sign, digits, n, signs, number, rfl, rfl⟩
    rw [unsign_sign signs, natural?_iff.mpr number]
    · rfl
    · intro c first
      have digit : c.isDigit := number.all c (List.mem_of_mem_head? first)
      constructor <;> rintro rfl <;> cases digit

theorem power?_eq_some_iff {text : List Char} {power : Int} : power? text = some power ↔ Power power text := by
  constructor
  · intro found
    unfold power? at found
    split at found
    next =>
      cases found
      exact .none
    next mark rest =>
      split at found
      next marked =>
        obtain ⟨negative, sign, digits, n, signs, number, rfl, rfl⟩ := integer?_eq_some_iff.mp found
        refine .some ?_ signs number
        simpa [isMark] using marked
      next => cases found
  · intro powered
    cases powered with
    | none => rfl
    | @some mark negative sign digits n marks signs number =>
      have marked : isMark mark = true := by simpa [isMark] using marks
      rw [power?, if_pos marked]
      exact integer?_eq_some_iff.mpr ⟨_, _, _, _, signs, number, rfl, rfl⟩

/-- Nothing that could go on with the digits of a numeral starts a power of ten. -/
theorem Power.head {power : Int} {text : List Char} (powered : Power power text) :
    ∀ c ∈ text.head?, c.isDigit = false ∧ c ≠ '.' := by
  cases powered with
  | none => simp
  | some marks =>
    simp only [List.mem_cons, List.not_mem_nil, or_false] at marks
    rcases marks with rfl | rfl <;> simp

theorem fraction_point {part rest : List Char} (all : ∀ c ∈ part, c.isDigit) (ends : ∀ c ∈ rest.head?, c.isDigit = false) :
    fraction ('.' :: (part ++ rest)) = (part, rest) := by
  rw [fraction, Text.takeWhile_run all ends, Text.dropWhile_run all ends]

theorem fraction_other {rest : List Char} (other : rest.head? ≠ some '.') : fraction rest = ([], rest) := by
  unfold fraction
  split
  · exact absurd rfl other
  · rfl

theorem unsigned?_run {whole rest : List Char} (all : ∀ c ∈ whole, c.isDigit) (ends : ∀ c ∈ rest.head?, c.isDigit = false) :
    unsigned? (whole ++ rest) = if whole.isEmpty && (fraction rest).1.isEmpty then none
      else (power? (fraction rest).2).map fun power =>
        ⟨Nat.ofDigitChars 10 (whole ++ (fraction rest).1) 0, power - (fraction rest).1.length⟩ := by
  simp only [unsigned?, Text.takeWhile_run all ends, Text.dropWhile_run all ends]

theorem unsigned?_of_numeral {text : List Char} {decimal : Decimal} (numeral : Numeral decimal text) :
    unsigned? text = some decimal := by
  obtain @⟨digits, places, power, text, powerText, significand, powered⟩ := numeral
  have ends : ∀ c ∈ powerText.head?, c.isDigit = false := fun c first => (powered.head c first).1
  have read := power?_eq_some_iff.mpr powered
  cases significand with
  | whole number =>
    have other : powerText.head? ≠ some '.' := fun point => (powered.head '.' point).2 rfl
    rw [unsigned?_run number.all ends, fraction_other other, read]
    simp [number.filled, number.number]
  | @pointed whole part n number all =>
    rw [List.append_assoc, List.cons_append, unsigned?_run number.all (by simp), fraction_point all ends, read]
    simp [number.filled]
  | @fraction part n number =>
    change unsigned? ([] ++ '.' :: (part ++ powerText)) = _
    rw [unsigned?_run (by simp) (by simp), fraction_point number.all ends, read]
    simp [number.filled, number.number]

theorem numeral_of_unsigned? {text : List Char} {decimal : Decimal} (found : unsigned? text = some decimal) :
    Numeral decimal text := by
  obtain ⟨whole, rest, rfl, all, ends⟩ := Text.exists_run Char.isDigit text
  rw [unsigned?_run all ends] at found
  split at found
  next => cases found
  next filled =>
    obtain ⟨power, read, rfl⟩ := Option.map_eq_some_iff.mp found
    have powered := power?_eq_some_iff.mp read
    by_cases point : rest.head? = some '.'
    · obtain ⟨behind, rfl⟩ := List.head?_eq_some_iff.mp point
      obtain ⟨part, powerText, rfl, within, after⟩ := Text.exists_run Char.isDigit behind
      rw [fraction_point within after] at filled powered ⊢
      by_cases bare : whole = []
      · subst bare
        have some_digit : part ≠ [] := by simpa using filled
        have numeral := Numeral.mk (.fraction ⟨some_digit, within, rfl⟩) powered
        rwa [List.cons_append] at numeral
      · have numeral := Numeral.mk (.pointed ⟨bare, all, rfl⟩ within) powered
        rwa [List.append_assoc, List.cons_append] at numeral
    · rw [fraction_other point] at filled powered ⊢
      have some_digit : whole ≠ [] := by simpa using filled
      simpa using Numeral.mk (.whole ⟨some_digit, all, rfl⟩) powered

theorem unsigned?_eq_some_iff {text : List Char} {decimal : Decimal} :
    unsigned? text = some decimal ↔ Numeral decimal text :=
  ⟨numeral_of_unsigned?, unsigned?_of_numeral⟩

theorem Numeral.starts {decimal : Decimal} {text : List Char} (numeral : Numeral decimal text) :
    ∃ c rest, text = c :: rest ∧ (c.isDigit ∨ c = '.' ∧ rest.head?.any Char.isDigit) := by
  obtain @⟨digits, places, power, text, powerText, significand, powered⟩ := numeral
  cases significand with
  | whole number =>
    obtain ⟨c, rest, same, digit⟩ := number.starts _
    exact ⟨c, rest, same, .inl digit⟩
  | pointed number =>
    obtain ⟨c, rest, same, digit⟩ := number.starts _
    rw [List.append_assoc]
    exact ⟨c, rest, same, .inl digit⟩
  | @fraction part n number =>
    obtain ⟨c, rest, same, digit⟩ := number.starts powerText
    refine ⟨'.', part ++ powerText, rfl, .inr ⟨rfl, ?_⟩⟩
    rw [same]
    exact digit

theorem read?_eq_some_iff {text : List Char} {negative : Bool} {decimal : Decimal} :
    read? text = some (negative, decimal) ↔
      ∃ sign digits, Sign negative sign ∧ Numeral decimal digits ∧ text = sign ++ digits := by
  rw [read?_eq]
  constructor
  · intro found
    obtain ⟨_, read, same⟩ := Option.map_eq_some_iff.mp found
    obtain ⟨rfl, rfl⟩ := Prod.mk.inj same
    obtain ⟨sign, signs, whole⟩ := sign_unsign text
    exact ⟨sign, _, signs, unsigned?_eq_some_iff.mp read, whole⟩
  · rintro ⟨sign, digits, signs, numeral, rfl⟩
    rw [unsign_sign signs, unsigned?_eq_some_iff.mpr numeral]
    · rfl
    · intro c first
      obtain ⟨d, rest, rfl, starts⟩ := numeral.starts
      cases first
      constructor <;> rintro rfl <;> simp at starts

end NimTemplate.Decimal

namespace NimTemplate.Number

open Decimal (Sign Numeral)

/-! The forms of a number. -/

/-- A word in hexadecimal digits. -/
structure HexWord (digits : List Char) : Prop where
  filled : digits ≠ []
  all : ∀ c ∈ digits, Text.isHexDigit c
  fits : Text.hexNumber digits < wordSize

/-- The texts that stand for a number. -/
inductive Form : List Char → Prop where
  | nothing : Form []
  | hexadecimal {mark : Char} {digits : List Char} : mark ∈ ['x', 'X'] → HexWord digits → Form ('0' :: mark :: digits)
  | infinity {negative : Bool} {sign : List Char} : Sign negative sign → Form (sign ++ "Infinity".toList)
  | decimal {negative : Bool} {sign digits : List Char} {decimal : Decimal} : Sign negative sign →
      Numeral decimal digits → Form (sign ++ digits)

/-- The text behind the sign that the digits of a word may follow. -/
def unplus : List Char → List Char
  | '+' :: digits => digits
  | digits => digits

theorem hexWord_unplus (text : List Char) :
    HexWord (unplus text) ↔ HexWord text ∨ ∃ digits, HexWord digits ∧ text = '+' :: digits := by
  unfold unplus
  split
  next digits =>
    have other : ¬ HexWord ('+' :: digits) := by
      intro word
      cases word.all '+' List.mem_cons_self
    simp [other]
  next plain =>
    have other : ¬ ∃ digits, HexWord digits ∧ text = '+' :: digits := by
      rintro ⟨digits, _, same⟩
      exact plain digits same
    simp [other]

theorem isNaN_hexadecimal (text : List Char) : (hexadecimal text).isNaN = false ↔ HexWord (unplus text) := by
  have unfolded : hexadecimal text = if (unplus text).isEmpty || !(unplus text).all Text.isHexDigit then Double.nan
      else if Text.hexNumber (unplus text) < wordSize then Double.ofNat (Text.hexNumber (unplus text))
      else Double.nan := rfl
  rw [unfolded]
  split
  next other =>
    refine iff_of_false Double.not_isNaN_nan ?_
    intro word
    have valid : ¬ ((unplus text).isEmpty || !(unplus text).all Text.isHexDigit) = true := by
      simpa [word.filled] using word.all
    exact valid other
  next valid =>
    have parts : unplus text ≠ [] ∧ ∀ c ∈ unplus text, Text.isHexDigit c := by simpa using valid
    split
    next fits => exact iff_of_true (Double.isNaN_ofMagnitude false (Double.nearest_le _ _)) ⟨parts.1, parts.2, fits⟩
    next large => exact iff_of_false Double.not_isNaN_nan fun word => large word.fits

theorem read?_hexadecimal {mark : Char} (marks : mark ∈ ['x', 'X']) (digits : List Char) :
    Decimal.read? ('0' :: mark :: digits) = none := by
  simp only [List.mem_cons, List.not_mem_nil, or_false] at marks
  rcases marks with rfl | rfl <;>
    simp [Decimal.read?, Decimal.unsigned?, Decimal.fraction, Decimal.power?, Decimal.isMark]

theorem form_hexadecimal {mark : Char} (marks : mark ∈ ['x', 'X']) (digits : List Char) :
    Form ('0' :: mark :: digits) ↔ HexWord digits := by
  constructor
  · intro form
    generalize whole : '0' :: mark :: digits = text at form
    cases form with
    | nothing => cases whole
    | hexadecimal _ word =>
      cases whole
      exact word
    | infinity signs => cases signs <;> cases whole
    | decimal signs numeral =>
      have found := Decimal.read?_eq_some_iff.mpr ⟨_, _, signs, numeral, whole⟩
      rw [read?_hexadecimal marks] at found
      cases found
  · exact .hexadecimal marks

theorem form_other {text : List Char} (filled : text ≠ [])
    (other : ∀ mark ∈ ['x', 'X'], ∀ digits, text ≠ '0' :: mark :: digits) :
    Form text ↔ (text = "Infinity".toList ∨ text = "+Infinity".toList) ∨ text = "-Infinity".toList ∨
      ∃ negative decimal, Decimal.read? text = some (negative, decimal) := by
  constructor
  · intro form
    cases form with
    | nothing => exact absurd rfl filled
    | hexadecimal marks => exact absurd rfl (other _ marks _)
    | infinity signs =>
      cases signs with
      | none => exact .inl (.inl rfl)
      | plus => exact .inl (.inr rfl)
      | minus => exact .inr (.inl rfl)
    | decimal signs numeral => exact .inr (.inr ⟨_, _, Decimal.read?_eq_some_iff.mpr ⟨_, _, signs, numeral, rfl⟩⟩)
  · rintro ((rfl | rfl) | rfl | ⟨negative, decimal, found⟩)
    · exact .infinity .none
    · exact .infinity .plus
    · exact .infinity .minus
    · obtain ⟨sign, digits, signs, numeral, rfl⟩ := Decimal.read?_eq_some_iff.mp found
      exact .decimal signs numeral

theorem isNaN_marked {mark : Char} (marks : mark ∈ ['x', 'X']) (digits : List Char) :
    (hexadecimal digits).isNaN = false ↔ Form ('0' :: mark :: digits) ∨
      ∃ other ∈ ['x', 'X'], ∃ word, HexWord word ∧ '0' :: mark :: digits = '0' :: other :: '+' :: word := by
  rw [isNaN_hexadecimal, hexWord_unplus, form_hexadecimal marks]
  apply or_congr_right
  constructor
  · rintro ⟨word, valid, rfl⟩
    exact ⟨mark, marks, word, valid, rfl⟩
  · rintro ⟨other, _, word, valid, same⟩
    cases same
    exact ⟨word, valid, rfl⟩

/-- Besides the forms, a plus sign is read behind the mark of a hexadecimal numeral. -/
theorem forms_are_read (text : String) :
    (read text).isNaN = false ↔ Form (Text.trim text.toList) ∨
      ∃ mark ∈ ['x', 'X'], ∃ digits, HexWord digits ∧ Text.trim text.toList = '0' :: mark :: '+' :: digits := by
  rw [read]
  generalize Text.trim text.toList = trimmed
  split
  next => exact iff_of_true (Double.isNaN_ofMagnitude false (Nat.zero_le _)) (.inl .nothing)
  next digits => exact isNaN_marked (by decide) digits
  next digits => exact isNaN_marked (by decide) digits
  next filled small large =>
    have other : ∀ mark ∈ ['x', 'X'], ∀ digits, trimmed ≠ '0' :: mark :: digits := by
      intro mark marks digits same
      simp only [List.mem_cons, List.not_mem_nil, or_false] at marks
      rcases marks with rfl | rfl
      · exact small _ same
      · exact large _ same
    have unmarked : ¬ ∃ mark ∈ ['x', 'X'], ∃ digits, HexWord digits ∧ trimmed = '0' :: mark :: '+' :: digits := by
      rintro ⟨mark, marks, digits, _, same⟩
      exact other mark marks _ same
    rw [or_iff_left unmarked, form_other filled other]
    split
    next infinite => exact iff_of_true (Double.isNaN_ofMagnitude false (Nat.le_refl _)) (.inl infinite)
    next bounded =>
      split
      next infinite =>
        refine iff_of_true ?_ (.inr (.inl infinite))
        rw [infinity, Double.neg_infinity]
        exact Double.isNaN_ofMagnitude true (Nat.le_refl _)
      next finite =>
        split
        next negative decimal found =>
          exact iff_of_true (Double.isNaN_ofMagnitude negative decimal.magnitude_le) (.inr (.inr ⟨negative, decimal, found⟩))
        next none =>
          have unread : ¬ ∃ negative decimal, Decimal.read? trimmed = some (negative, decimal) := by simp [none]
          exact iff_of_false Double.not_isNaN_nan (not_or.mpr ⟨bounded, not_or.mpr ⟨finite, unread⟩⟩)

theorem plus_before_hexadecimal_is_read : read "0x+10" = Double.ofNat 16 ∧ ¬ Form (Text.trim "0x+10".toList) := by
  have trimmed : Text.trim "0x+10".toList = '0' :: 'x' :: ['+', '1', '0'] := by decide +kernel
  rw [trimmed, form_hexadecimal (by decide)]
  refine ⟨by decide +kernel, ?_⟩
  intro word
  cases word.all '+' List.mem_cons_self

end NimTemplate.Number
