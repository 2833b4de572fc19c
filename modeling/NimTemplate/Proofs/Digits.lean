import NimTemplate.Decimal.Reader
import NimTemplate.Proofs.Basic

/-! Digits, and the numbers they write. -/

namespace NimTemplate.Text

/-! Hexadecimal digits as they are written. -/

theorem isHexDigit_digitChar : ∀ d < 16, isHexDigit (Nat.digitChar d) := by decide

theorem hexDigit_digitChar : ∀ d < 16, hexDigit (Nat.digitChar d) = d := by decide

theorem forall_mem_toDigits {p : Char → Prop} (digit : ∀ d < 16, p (Nat.digitChar d)) (n : Nat) :
    ∀ c ∈ Nat.toDigits 16 n, p c := by
  induction n using Nat.strongRecOn with
  | ind n ih =>
    rw [Nat.toDigits_eq_if (by decide)]
    split
    next small => simpa using digit n small
    next large =>
      have fewer : n / 16 < n := by omega
      intro c member
      rcases List.mem_append.mp member with leading | last
      · exact ih (n / 16) fewer c leading
      · rw [List.mem_singleton.mp last]
        exact digit _ (Nat.mod_lt n (by decide))

theorem hexNumber_toDigits (n : Nat) : hexNumber (Nat.toDigits 16 n) = n := by
  induction n using Nat.strongRecOn with
  | ind n ih =>
    rw [Nat.toDigits_eq_if (by decide)]
    split
    next small => simpa [hexNumber] using hexDigit_digitChar n small
    next large =>
      have leading := ih (n / 16) (by omega)
      rw [hexNumber] at leading ⊢
      rw [List.foldl_append, leading, List.foldl_cons, List.foldl_nil, hexDigit_digitChar _ (Nat.mod_lt n (by decide))]
      omega

/-! Four digits that write a number of one byte. -/

section

variable {n : Nat} (byte : n < 0x100)

include byte

theorem isHexDigit_of_byte : ∀ c ∈ ['0', '0', Nat.digitChar (n / 16), Nat.digitChar (n % 16)], isHexDigit c := by
  have high := isHexDigit_digitChar (n / 16) (by omega)
  have low := isHexDigit_digitChar (n % 16) (by omega)
  intro c member
  simp only [List.mem_cons, List.not_mem_nil, or_false] at member
  rcases member with rfl | rfl | rfl | rfl
  · rfl
  · rfl
  · exact high
  · exact low

theorem hexNumber_of_byte : hexNumber ['0', '0', Nat.digitChar (n / 16), Nat.digitChar (n % 16)] = n := by
  have zero : hexDigit '0' = 0 := rfl
  simp only [hexNumber, List.foldl_cons, List.foldl_nil, zero, hexDigit_digitChar (n / 16) (by omega),
    hexDigit_digitChar (n % 16) (by omega)]
  omega

end

end NimTemplate.Text

namespace NimTemplate.Decimal

/-! Decimal digits as they are written. -/

theorem isDigit_of_mem_toDigits {n : Nat} {c : Char} (member : c ∈ Nat.toDigits 10 n) : c.isDigit :=
  Nat.isDigit_of_mem_toDigits (by decide) (by decide) member

theorem head?_toDigits {n : Nat} (positive : 0 < n) : (Nat.toDigits 10 n).head? ≠ some '0' := by
  induction n using Nat.strongRecOn with
  | ind n ih =>
    rw [Nat.toDigits_eq_if (by decide)]
    split
    next => simpa using Nat.ne_of_gt positive
    next large =>
      rw [List.head?_append, List.head?_eq_some_head Nat.toDigits_ne_nil, Option.some_or,
        ← List.head?_eq_some_head Nat.toDigits_ne_nil]
      exact ih (n / 10) (by omega) (by omega)

theorem natural?_of_digits {digits : List Char} (filled : digits ≠ []) (all : ∀ c ∈ digits, c.isDigit) :
    natural? digits = some (Nat.ofDigitChars 10 digits 0) := by
  apply if_neg
  simpa [filled] using all

theorem natural?_eq_some {digits : List Char} {n : Nat} (found : natural? digits = some n) :
    digits ≠ [] ∧ (∀ c ∈ digits, c.isDigit) ∧ Nat.ofDigitChars 10 digits 0 = n := by
  unfold natural? at found
  split at found
  next => cases found
  next valid =>
    have parts : digits ≠ [] ∧ ∀ c ∈ digits, c.isDigit := by simpa using valid
    exact ⟨parts.1, parts.2, Option.some.inj found⟩

/-- The digits of a number behind further zeros. -/
def padded (zeros n : Nat) : List Char := List.replicate zeros '0' ++ Nat.toDigits 10 n

theorem natural?_padded (zeros n : Nat) : natural? (padded zeros n) = some n := by
  have digits : ∀ c ∈ padded zeros n, c.isDigit := by
    intro c member
    rcases List.mem_append.mp member with zero | digit
    · rw [List.eq_of_mem_replicate zero]
      rfl
    · exact isDigit_of_mem_toDigits digit
  have filled : padded zeros n ≠ [] := List.append_ne_nil_of_right_ne_nil _ Nat.toDigits_ne_nil
  rw [natural?_of_digits filled digits, padded, Nat.ofDigitChars_append, Nat.ofDigitChars_replicate_zero,
    Nat.mul_zero, Nat.ofDigitChars_ten_toDigits]

theorem digit_lt_ten {c : Char} (digit : c.isDigit) : c.toNat - '0'.toNat < 10 := by
  have upper : c.toNat ≤ 57 := (Char.isDigit_iff_toNat.mp digit).2
  change c.toNat - 48 < 10
  omega

theorem toDigits_digit {c : Char} (digit : c.isDigit) : Nat.toDigits 10 (c.toNat - '0'.toNat) = [c] := by
  rw [Nat.toDigits_of_lt_base (digit_lt_ten digit)]
  apply congrArg (fun d => [d])
  apply Char.toNat_inj.mp
  rw [Nat.toNat_digitChar_of_lt_ten (digit_lt_ten digit)]
  exact Nat.add_sub_of_le (Char.isDigit_iff_toNat.mp digit).1

/-- All digits are those of their number, up to zeros before them. -/
theorem exists_padded {digits : List Char} (filled : digits ≠ []) (all : ∀ c ∈ digits, c.isDigit) :
    ∃ zeros, digits = padded zeros (Nat.ofDigitChars 10 digits 0) := by
  -- From left to right: a digit behind a number that is not zero goes on with it, and one behind
  -- zeros makes them all leading ones.
  induction digits using List.reverseRecOn with
  | nil => exact absurd rfl filled
  | append_singleton front last ih =>
    have digit : last.isDigit := all last (by simp)
    have single := toDigits_digit digit
    rw [Nat.ofDigitChars_append, Nat.ofDigitChars_cons, Nat.ofDigitChars_nil]
    by_cases first : front = []
    · subst first
      exact ⟨0, by simpa [padded] using single.symm⟩
    · obtain ⟨zeros, same⟩ := ih first fun c member => all c (List.mem_append_left _ member)
      by_cases positive : 0 < Nat.ofDigitChars 10 front 0
      · refine ⟨zeros, ?_⟩
        rw [padded, ← Nat.toDigits_append_toDigits (by decide) positive (digit_lt_ten digit), single, ← List.append_assoc]
        exact congrArg (· ++ [last]) same
      · have none : Nat.ofDigitChars 10 front 0 = 0 := Nat.eq_zero_of_not_pos positive
        rw [none] at same ⊢
        refine ⟨zeros + 1, ?_⟩
        rw [same, padded, padded, Nat.mul_zero, Nat.zero_add, single, Nat.toDigits_zero, List.replicate_succ',
          List.append_assoc]

theorem natural?_eq_some_iff {digits : List Char} {n : Nat} :
    natural? digits = some n ↔ ∃ zeros, digits = padded zeros n := by
  constructor
  · intro found
    obtain ⟨filled, all, rfl⟩ := natural?_eq_some found
    exact exists_padded filled all
  · rintro ⟨zeros, rfl⟩
    exact natural?_padded zeros n

theorem padded_inj {zeros others n m : Nat} (same : padded zeros n = padded others m) : zeros = others ∧ n = m := by
  have number : n = m := by
    have found := congrArg natural? same
    rw [natural?_padded, natural?_padded] at found
    exact Option.some.inj found
  subst number
  refine ⟨?_, rfl⟩
  have length := congrArg List.length same
  simp only [padded, List.length_append, List.length_replicate] at length
  omega

end NimTemplate.Decimal
