import Mathlib.Data.List.Find
import NimTemplate.Proofs.Literals

/-! Tokens printed with blanks between them. A blank is part of no name and no punctuator, so it
ends them, and a literal ends at its own quote. Hence the tokens of the printed text are the
printed ones. -/

namespace NimTemplate.Token

/-- The names that can be written: digits stand only behind the first character. -/
def isWord : List Char → Bool
  | [] => false
  | c :: rest => isNameStart c && rest.all isNamePart

/-- Tokens with a lexeme of their own. Numbers are left out, as a negative one is two tokens. -/
def isPrintable : Token → Bool
  | number _ => false
  | name s => isWord s.toList
  | text _ | punct _ => true

def printed : Token → List Char
  | number x => (Number.text x).toList
  | name s => s.toList
  | text s => (Text.Quoted.literal s).toList
  | punct p => p.text.toList

def spaced (entries : List (Token × List Char)) : List Char :=
  entries.flatMap fun entry => entry.1.printed ++ entry.2

def AtBlank (text : List Char) : Prop := ∀ c ∈ text.head?, Text.isBlank c

section

variable {rest : List Char} (ends : AtBlank rest)

include ends

theorem AtBlank.outside {p : Char → Bool} (filled : ∀ c, p c → Text.isBlank c = false) :
    ∀ c ∈ rest.head?, p c = false := by
  intro c first
  apply Bool.eq_false_iff.mpr
  intro inside
  exact absurd (ends c first) (by simp [filled c inside])

theorem AtBlank.separate : Separate rest := ends.outside fun _ => isBlank_of_isNamePart

theorem AtBlank.startsNumber_eq {c : Char} (other : c.isDigit = false) : startsNumber c rest = false := by
  have digits : ∀ d ∈ rest.head?, d.isDigit = false :=
    ends.outside fun d digit => isBlank_of_isNamePart (by simp [isNamePart, Text.isNumeric, digit])
  rw [startsNumber, other, Bool.false_or]
  cases head : rest.head? with
  | none => simp
  | some d => simp [digits d head]

end

/-! Punctuators. -/

theorem find?_isPrefixOf (p : Punct) :
    (Punct.all.find? fun q => q.text.toList.isPrefixOf p.text.toList) = some p := by
  cases p <;> rfl

theorem readPunct_printed (p : Punct) {rest : List Char} (ends : AtBlank rest) :
    readPunct (p.text.toList ++ rest) = some (p, rest) := by
  have filled : ∀ q : Punct, q.text.toList.all fun c => !Text.isBlank c := by
    intro q
    cases q <;> rfl
  have same : ∀ q ∈ Punct.all,
      q.text.toList.isPrefixOf (p.text.toList ++ rest) = q.text.toList.isPrefixOf p.text.toList := by
    intro q _
    apply Text.isPrefixOf_append
    intro c member first
    have inside := List.all_eq_true.mp (filled q) c member
    exact absurd (ends c first) (by simpa using inside)
  rw [readPunct, List.find?_congr same, find?_isPrefixOf, Option.map_some, List.drop_left]

/-- The first character of a punctuator starts neither a name nor a literal. A point can start a
number, but then nothing else of the punctuator stands between. -/
theorem exists_opening (p : Punct) : ∃ c tail, p.text.toList = c :: tail ∧ c.toNat < 128 ∧
    Text.isBlank c = false ∧ c.isDigit = false ∧ c.isAlpha = false ∧ c ∉ ['_', '$', '"', '\''] ∧
    (c = '.' → tail = []) := by
  cases p <;> exact ⟨_, _, rfl, by decide⟩

theorem all_punct (p : Punct) {rest : List Char} (ends : AtBlank rest) :
    all (p.text.toList ++ rest) = (all rest).map (.punct p :: ·) := by
  obtain ⟨c, tail, whole, ascii, filled, digit, letter, other, alone⟩ := exists_opening p
  simp only [List.mem_cons, List.not_mem_nil, or_false, not_or] at other
  obtain ⟨underscore, dollar, double, single⟩ := other
  have found := readPunct_printed p ends
  rw [whole, List.cons_append] at found ⊢
  have number : startsNumber c (tail ++ rest) = false := by
    by_cases point : c = '.'
    · rw [alone point]
      exact ends.startsNumber_eq digit
    · simp [startsNumber, digit, point]
  have start : isNameStart c = false := by
    simp [isNameStart, isLetter_ascii ascii, letter, underscore, dollar]
  have first : read c (tail ++ rest) = .ok (.punct p, rest) := by
    rw [read, if_neg (by simp [number]), if_neg (by simp [double, single]), if_neg (by simp [start]), found]
  exact all_cons filled first

/-! Whole texts. -/

theorem all_printed {token : Token} (printable : token.isPrintable) {rest : List Char} (ends : AtBlank rest) :
    all (token.printed ++ rest) = (all rest).map (token :: ·) := by
  cases token with
  | number x => cases printable
  | text s => exact lexes_literal s rest ends.separate
  | punct p => exact all_punct p ends
  | name s =>
    obtain ⟨word, rfl⟩ : ∃ word, s = String.ofList word := ⟨s.toList, String.ofList_toList.symm⟩
    cases word with
    | nil => cases printable
    | cons c word =>
      have parts : isNameStart c ∧ ∀ d ∈ word, isNamePart d := by
        simpa [isPrintable, isWord] using printable
      have whole : (name (String.ofList (c :: word))).printed = c :: word := String.toList_ofList
      rw [whole]
      exact lexes_name parts.1 parts.2 rest ends.separate

theorem all_gap {gap : List Char} (blank : gap.all Text.isBlank) (rest : List Char) : all (gap ++ rest) = all rest :=
  all_congr (List.dropWhile_append_of_pos (List.all_eq_true.mp blank))

theorem atBlank_gap {entry : Token × List Char} {entries : List (Token × List Char)}
    (blank : entry.2.all Text.isBlank) (apart : ∀ e ∈ (entry :: entries).dropLast, e.2 ≠ []) :
    AtBlank (entry.2 ++ spaced entries) := by
  cases gap : entry.2 with
  | cons c gap =>
    intro d first
    cases first
    exact List.all_eq_true.mp blank c (by simp [gap])
  | nil =>
    cases entries with
    | nil => simp [AtBlank, spaced]
    | cons next entries => exact absurd gap (apart entry (by simp))

theorem all_spaced {entries : List (Token × List Char)} (printable : ∀ entry ∈ entries, entry.1.isPrintable)
    (blank : ∀ entry ∈ entries, entry.2.all Text.isBlank) (apart : ∀ entry ∈ entries.dropLast, entry.2 ≠ []) :
    all (spaced entries) = .ok (entries.map Prod.fst) := by
  induction entries with
  | nil => exact all_nil
  | cons entry entries ih =>
    obtain ⟨first, others⟩ := List.forall_mem_cons.mp printable
    obtain ⟨gap, gaps⟩ := List.forall_mem_cons.mp blank
    have later : all (spaced entries) = .ok (entries.map Prod.fst) := by
      apply ih others gaps
      intro e member
      cases entries with
      | nil => cases member
      | cons next entries => exact apart e (List.mem_cons_of_mem entry member)
    have whole : spaced (entry :: entries) = entry.1.printed ++ (entry.2 ++ spaced entries) := by
      simp [spaced]
    rw [whole, all_printed first (atBlank_gap gap apart), all_gap gap, later]
    rfl

/-- Printed tokens with blanks between them are read back. A gap may be empty behind the last one
only, and there can be blanks before the first. -/
theorem spaced_tokens_are_read {before : List Char} {entries : List (Token × List Char)}
    (leading : before.all Text.isBlank) (printable : ∀ entry ∈ entries, entry.1.isPrintable)
    (blank : ∀ entry ∈ entries, entry.2.all Text.isBlank) (apart : ∀ entry ∈ entries.dropLast, entry.2 ≠ []) :
    all (before ++ spaced entries) = .ok (entries.map Prod.fst) := by
  rw [all_gap leading]
  exact all_spaced printable blank apart

/-- Punctuators that begin one another, a name with a letter beyond ASCII, and a literal with
blanks and quotes in it. -/
theorem similar_marks_are_read_apart :
    let before := ['\t']
    let entries := [(punct .dot, [' ']), (name "é1$", ['\u3000', '\n']), (punct .not, [' ']), (punct .eq, [' ']),
      (punct .strictEq, ['\u0085']), (text "a \"\n'", [])]
    (before.all Text.isBlank ∧ (∀ entry ∈ entries, entry.1.isPrintable) ∧
      (∀ entry ∈ entries, entry.2.all Text.isBlank) ∧ ∀ entry ∈ entries.dropLast, entry.2 ≠ []) ∧
    all "\t. é1$\u3000\n! == ===\u0085\"a \\\"\\n'\"".toList =
      .ok [punct .dot, name "é1$", punct .not, punct .eq, punct .strictEq, text "a \"\n'"] := by
  intro before entries
  have leading : before.all Text.isBlank := rfl
  have printable : ∀ entry ∈ entries, entry.1.isPrintable := by decide +kernel
  have blank : ∀ entry ∈ entries, entry.2.all Text.isBlank := by decide +kernel
  have apart : ∀ entry ∈ entries.dropLast, entry.2 ≠ [] := by decide +kernel
  exact ⟨⟨leading, printable, blank, apart⟩, spaced_tokens_are_read leading printable blank apart⟩

end NimTemplate.Token
