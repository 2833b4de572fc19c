import Mathlib.Data.List.Infix
import NimTemplate.Nim.Quotes
import NimTemplate.Proofs.Literals

/-! Literals in double quotes instead of single ones. The end of a literal is looked for without
regard to pairs of backslashes, so not every literal is found as a whole, and a double quote
that is not escaped may end the new literal early. What is said here is for which contents
none of this happens. -/

namespace NimTemplate

namespace Nim

/-! Requoting, one step at a time. -/

section

variable {c : Char} {content left rest : List Char}

theorem requote_nil : requote [] = [] := by
  rw [requote]

theorem requote_plain (plain : ¬ (c = '"' ∨ c = '\'')) (rest : List Char) : requote (c :: rest) = c :: requote rest := by
  rw [requote, if_neg (fun marks => plain marks.symm)]

theorem requote_literal (marks : c = '"' ∨ c = '\'') (found : literal? c rest = some (content, left)) :
    requote (c :: rest) =
      '"' :: (if c = '\'' then escapeQuotes '\x00' content else content) ++ '"' :: requote left := by
  rw [requote, if_pos marks.symm]
  split
  next same =>
    rw [found] at same
    cases same
    rfl
  next missing =>
    rw [found] at missing
    cases missing

theorem requote_kept (marks : c = '"' ∨ c = '\'') (missing : literal? c rest = none) :
    requote (c :: rest) = c :: requote rest := by
  rw [requote, if_pos marks.symm]
  split
  next found =>
    rw [missing] at found
    cases found
  next => rfl

theorem requote_append {text : List Char} (plain : ∀ c ∈ text, ¬ (c = '"' ∨ c = '\'')) (rest : List Char) :
    requote (text ++ rest) = text ++ requote rest := by
  induction text with
  | nil => rfl
  | cons c text ih =>
    obtain ⟨first, others⟩ := List.forall_mem_cons.mp plain
    rw [List.cons_append, requote_plain first, ih others]
    rfl

theorem literal?_append {quote : Char} (absent : quote ∉ content) (rest : List Char) :
    literal? quote (content ++ quote :: rest) =
      if rest.head? = some quote then some (content ++ [quote], rest.tail)
      else if content.getLast? = some '\\' then none else some (content, rest) := by
  have inside : ∀ c ∈ content, decide (c ≠ quote) = true := by
    intro c member
    rw [decide_eq_true_eq]
    rintro rfl
    exact absent member
  have ends : ∀ c ∈ (quote :: rest).head?, decide (c ≠ quote) = false := by simp
  rw [literal?, Text.takeWhile_run inside ends, Text.dropWhile_run inside ends]

end

/-! Contents. -/

/-- An escaped backslash stands right before a double quote that is not escaped. -/
def clashes : List Char → Bool
  | '\\' :: c :: rest => (c == '\\' && rest.head? == some '"') || clashes rest
  | _ :: rest => clashes rest
  | [] => false

/-- The content has a single quote only at its end, does not end with a backslash, and has no
double quote right behind an escaped backslash. -/
structure Convertible (content : List Char) : Prop where
  whole : '\'' ∉ content.dropLast
  ends : content.getLast? ≠ some '\\'
  clear : clashes content = false

end Nim

namespace Token

/-- A quote inside of a literal stands behind a backslash. -/
theorem Literal.getLast?_eq {quote : Char} (backslash : quote ≠ '\\') {text before behind : List Char}
    (literal : Literal quote text) (found : text = before ++ quote :: behind) (filled : behind ≠ []) :
    before.getLast? = some '\\' := by
  induction literal generalizing before with
  | close =>
    cases before with
    | nil =>
      cases found
      exact absurd rfl filled
    | cons c before => simp at found
  | plain other _ _ ih =>
    cases before with
    | nil =>
      cases found
      exact absurd rfl other
    | cons c before =>
      cases found
      have last := ih rfl
      cases before with
      | nil => cases last
      | cons d before => rwa [List.getLast?_cons_cons]
  | escape _ ih =>
    rcases before with _ | ⟨c, _ | ⟨d, before⟩⟩
    · cases found
      exact absurd rfl backslash
    · cases found
      rfl
    · cases found
      have last := ih rfl
      cases before with
      | nil => cases last
      | cons e before => rwa [List.getLast?_cons_cons, List.getLast?_cons_cons]

theorem Literal.eq_nil {quote : Char} (backslash : quote ≠ '\\') {text : List Char}
    (literal : Literal quote (quote :: text)) : text = [] := by
  cases literal with
  | close => rfl
  | plain other => exact absurd rfl other
  | escape => exact absurd rfl backslash

theorem Literal.of_cons {quote c : Char} (other : c ≠ quote) (unescaped : c ≠ '\\') {text : List Char}
    (literal : Literal quote (c :: text)) : Literal quote text := by
  cases literal with
  | close => exact absurd rfl other
  | plain _ _ later => exact later
  | escape => exact absurd rfl unescaped

/-- The digits of an escape are no quotes and no backslashes. -/
theorem ne_of_codePoint {digits : List Char} {c : Char} (valid : codePoint digits = .ok c) :
    ∀ d ∈ digits, d ≠ '"' ∧ d ≠ '\\' := by
  intro d member
  have hex := isHexDigit_of_codePoint valid d member
  constructor
  all_goals
    rintro rfl
    exact absurd hex (by decide)

end Token

namespace Nim

/-- What is found of a literal that stands alone. -/
theorem literal?_eq {content : List Char} (literal : Token.Literal '\'' (content ++ ['\''])) :
    literal? '\'' (content ++ ['\'']) =
      if '\'' ∉ content.dropLast ∧ content.getLast? ≠ some '\\' then some (content, []) else none := by
  by_cases inside : '\'' ∈ content
  · obtain ⟨before, behind, rfl, first⟩ := List.eq_append_cons_of_mem inside
    have last : before.getLast? = some '\\' :=
      literal.getLast?_eq (by decide) (by rw [List.append_assoc]; rfl) (by simp)
    rw [List.append_assoc, List.cons_append, literal?_append first]
    cases behind with
    | nil => simp [first]
    | cons c behind =>
      have other : c ≠ '\'' := by
        rintro rfl
        have doubled : before ++ '\'' :: '\'' :: behind ++ ['\''] = before ++ ['\''] ++ '\'' :: (behind ++ ['\'']) := by
          simp
        have unescaped := literal.getLast?_eq (by decide) doubled (by simp)
        simp at unescaped
      rw [if_neg (by simpa using other), if_pos last, if_neg]
      simp
  · have outside : '\'' ∉ content.dropLast := fun member => inside (List.mem_of_mem_dropLast member)
    rw [literal?_append inside, if_neg (by simp)]
    simp [outside]

section

variable {previous : Char} {content value : List Char}

theorem clashes_cons {c : Char} (plain : c ≠ '\\') (rest : List Char) : clashes (c :: rest) = clashes rest := by
  rw [clashes]
  intro d more same
  exact absurd same plain

theorem escapeQuotes_other {c : Char} (other : c ≠ '"') (rest : List Char) :
    escapeQuotes previous (c :: rest) = c :: escapeQuotes c rest := by
  rw [escapeQuotes, if_neg (fun both => other both.1)]

theorem escapeQuotes_escape (c : Char) (rest : List Char) :
    escapeQuotes previous ('\\' :: c :: rest) = '\\' :: c :: escapeQuotes c rest := by
  rw [escapeQuotes_other (by decide), escapeQuotes, if_neg (fun both => both.2 rfl)]

/-- Escaping the double quotes makes the content one for double quotes, and its value stays. -/
theorem written_escapeQuotes (written : Token.Written '\'' content value) (clear : clashes content = false)
    (apart : previous ≠ '\\' ∨ content.head? ≠ some '"') : Token.Written '"' (escapeQuotes previous content) value := by
  induction written generalizing previous with
  | nil => exact .nil
  | @plain c content value single line plain _ ih =>
    rw [clashes_cons plain] at clear
    by_cases double : c = '"'
    · subst double
      have unescaped : previous ≠ '\\' := apart.resolve_right (absurd rfl)
      rw [escapeQuotes, if_pos ⟨rfl, unescaped⟩]
      have mark : Token.escaped '"' = '"' := rfl
      rw [← mark]
      exact .letter (by decide) (ih clear (.inl (by decide)))
    · rw [escapeQuotes_other double]
      exact .plain double line plain (ih clear (.inl plain))
  | newline _ ih =>
    rw [escapeQuotes_escape]
    exact .newline (ih clear (.inl (by decide)))
  | byte point _ ih =>
    have digits := Token.ne_of_codePoint point
    simp only [List.forall_mem_cons] at digits
    obtain ⟨⟨a, a'⟩, ⟨b, b'⟩, -⟩ := digits
    rw [escapeQuotes_escape, escapeQuotes_other a, escapeQuotes_other b]
    refine .byte point (ih ?_ (.inl b'))
    simpa [clashes, clashes_cons a', clashes_cons b'] using clear
  | unit point _ ih =>
    have digits := Token.ne_of_codePoint point
    simp only [List.forall_mem_cons] at digits
    obtain ⟨⟨a, a'⟩, ⟨b, b'⟩, ⟨c, c'⟩, ⟨d, d'⟩, -⟩ := digits
    rw [escapeQuotes_escape, escapeQuotes_other a, escapeQuotes_other b, escapeQuotes_other c, escapeQuotes_other d]
    refine .unit point (ih ?_ (.inl d'))
    simpa [clashes, clashes_cons a', clashes_cons b', clashes_cons c', clashes_cons d'] using clear
  | letter single _ ih =>
    simp only [clashes, Bool.or_eq_false_iff, Bool.and_eq_false_iff, beq_eq_false_iff_ne] at clear
    rw [escapeQuotes_escape]
    exact .letter single (ih clear.2 clear.1)

/-- A double quote behind an escaped backslash would end the literal. -/
theorem clashes_eq_false (literal : Token.Literal '"' (escapeQuotes previous content ++ ['"'])) :
    clashes content = false := by
  have unended {rest : List Char} : ¬ Token.Literal '"' ('"' :: (rest ++ ['"'])) := by
    intro literal
    have ended := literal.eq_nil (by decide)
    simp at ended
  fun_induction clashes content generalizing previous with
  | case1 c rest ih =>
    rw [escapeQuotes_escape] at literal
    cases literal with
    | plain _ unescaped => exact absurd rfl unescaped
    | escape later =>
      rw [ih later, Bool.or_false]
      apply Bool.eq_false_iff.mpr
      intro clash
      rw [Bool.and_eq_true, beq_iff_eq, beq_iff_eq] at clash
      obtain ⟨rfl, double⟩ := clash
      obtain ⟨more, rfl⟩ := List.head?_eq_some_iff.mp double
      rw [escapeQuotes, if_neg (fun both => both.2 rfl)] at later
      exact unended later
  | case2 c rest single ih =>
    by_cases double : c = '"'
    · subst double
      by_cases escaped : previous = '\\'
      · rw [escapeQuotes, if_neg (fun both => both.2 escaped)] at literal
        exact absurd literal unended
      · rw [escapeQuotes, if_pos ⟨rfl, escaped⟩] at literal
        cases literal with
        | plain _ unescaped => exact absurd rfl unescaped
        | escape later => exact ih later
    · by_cases backslash : c = '\\'
      · cases rest with
        | nil => rfl
        | cons d rest => exact (single d rest backslash rfl).elim
      · rw [escapeQuotes_other double] at literal
        exact ih (literal.of_cons double backslash)
  | case3 => rfl

end

end Nim

namespace Token

section

variable {quote : Char} (marks : quote = '"' ∨ quote = '\'')

include marks

theorem read_quote (rest : List Char) :
    read quote rest = (stringBody quote rest).map fun (body, left) => (.text (String.ofList body), left) := by
  have number : startsNumber quote rest = false := by
    rcases marks with rfl | rfl
    all_goals rfl
  rw [read, if_neg (by simp [number]), if_pos marks]

theorem isBlank_quote : Text.isBlank quote = false := by
  rcases marks with rfl | rfl
  all_goals rfl

theorem quote_ne_backslash : quote ≠ '\\' := by
  rcases marks with rfl | rfl
  all_goals decide

theorem Written.read_eq {content value : List Char} (written : Written quote content value) (rest : List Char) :
    read quote (content ++ quote :: rest) = .ok (.text (String.ofList value), rest) := by
  rw [read_quote marks, written.stringBody_eq (quote_ne_backslash marks)]
  rfl

theorem Written.all_eq {content value : List Char} (written : Written quote content value) (rest : List Char) :
    all (quote :: (content ++ quote :: rest)) = (all rest).map (.text (String.ofList value) :: ·) :=
  all_cons (isBlank_quote marks) (written.read_eq marks rest)

theorem trimStart_quote (rest : List Char) : Text.trimStart (quote :: rest) = quote :: rest :=
  List.dropWhile_cons_of_neg (by simp [isBlank_quote marks])

/-- A text that starts with a quote starts with a literal. -/
theorem all_quote_eq_ok {text : List Char} {tokens : List Token} (lexed : all (quote :: text) = .ok tokens) :
    ∃ content value left more, text = content ++ quote :: left ∧ Written quote content value ∧ all left = .ok more ∧
      tokens = .text (String.ofList value) :: more := by
  have starts := trimStart_quote marks text
  obtain ⟨ended, _⟩ | ⟨c, rest, token, left, more, same, first, later, rfl⟩ := all_eq_ok lexed
  · rw [starts] at ended
    cases ended
  · rw [starts] at same
    cases same
    rw [read_quote marks] at first
    obtain ⟨⟨value, _⟩, found, same⟩ := map_eq_ok.mp first
    cases same
    obtain ⟨content, rfl, written⟩ := written_of_stringBody found
    exact ⟨content, value, left, more, rfl, written, later, rfl⟩

/-- A literal that is the only token of a text which ends with its quote takes up all of it. -/
theorem written_of_all {content : List Char} {value : String}
    (lexed : all (quote :: (content ++ [quote])) = .ok [.text value]) : Written quote content value.toList := by
  obtain ⟨inner, body, left, more, whole, written, later, same⟩ := all_quote_eq_ok marks lexed
  cases same
  rcases all_spells later with ⟨blank, -⟩ | ⟨_, _, _, _, _, _, _, _, _, _, filled⟩
  · obtain rfl | ⟨front, last, rfl⟩ := List.eq_nil_or_concat left
    · obtain rfl : content = inner := List.append_inj_left' whole rfl
      rwa [String.toList_ofList]
    · -- Behind the literal there are only blanks, and the text ends with a quote.
      have apart : content ++ [quote] = inner ++ quote :: front ++ [last] := by simpa using whole
      have ends : quote = last := List.singleton_inj.mp (List.append_inj_right' apart rfl)
      have filled := isBlank_quote marks
      rw [ends, blank last (by simp)] at filled
      cases filled
  · cases filled

end

end Token

namespace Nim

/-- A literal in single quotes becomes one in double quotes with the same value if and only if its
content is convertible. -/
theorem single_quoted_literal_keeps_value_iff {content value : String}
    (literal : Token.all ("'" ++ content ++ "'").toList = .ok [.text value]) :
    (Token.all (normalizeQuotes ("'" ++ content ++ "'")).toList = .ok [.text value] ∧
      ∃ body, normalizeQuotes ("'" ++ content ++ "'") = "\"" ++ body ++ "\"") ↔ Convertible content.toList := by
  have source : ("'" ++ content ++ "'").toList = '\'' :: (content.toList ++ ['\'']) := by simp
  rw [source] at literal
  have written := Token.written_of_all (.inr rfl) literal
  have found := literal?_eq (written.literal (.inr rfl))
  rw [normalizeQuotes, source, String.toList_ofList]
  by_cases whole : '\'' ∉ content.toList.dropLast ∧ content.toList.getLast? ≠ some '\\'
  · rw [if_pos whole] at found
    rw [requote_literal (.inr rfl) found, if_pos rfl, requote_nil, List.cons_append]
    constructor
    · intro ⟨lexed, _⟩
      have converted := Token.written_of_all (.inl rfl) lexed
      exact ⟨whole.1, whole.2, clashes_eq_false (converted.literal (.inl rfl))⟩
    · intro convertible
      have converted := written_escapeQuotes written convertible.clear (.inl (by decide : '\x00' ≠ '\\'))
      refine ⟨?_, String.ofList (escapeQuotes '\x00' content.toList), ?_⟩
      · rw [converted.all_eq (.inl rfl), Token.all_nil, String.ofList_toList]
        rfl
      · apply String.toList_injective
        simp
  · rw [if_neg whole] at found
    rw [requote_kept (.inr rfl) found]
    constructor
    · intro ⟨_, body, same⟩
      have first := congrArg String.toList same
      simp at first
    · intro convertible
      exact absurd ⟨convertible.whole, convertible.ends⟩ whole

/-- A content with quotes of both kinds and an escaped backslash. -/
theorem quoted_quotes_keep_value :
    Token.all "'\"a\\\\b\\\"\\''".toList = .ok [.text "\"a\\b\"'"] ∧
      Token.all (normalizeQuotes "'\"a\\\\b\\\"\\''").toList = .ok [.text "\"a\\b\"'"] := by
  have literal : Token.all ("'" ++ "\"a\\\\b\\\"\\'" ++ "'").toList = .ok [.text "\"a\\b\"'"] := by
    conv => lhs; cbv
  exact ⟨literal, ((single_quoted_literal_keeps_value_iff literal).mpr ⟨by decide, by decide, by decide⟩).1⟩

/-- A literal with an escaped quote in the middle is not found. What is found is the rest of it,
and then there is no literal any more. -/
theorem escaped_quote_breaks_literal :
    Token.all "'it\\'s'".toList = .ok [.text "it's"] ∧ normalizeQuotes "'it\\'s'" = "'it\\\"s\"" ∧
      Token.all (normalizeQuotes "'it\\'s'").toList = .error (.malformed .openString) := by
  refine ⟨?_, ?_, ?_⟩
  all_goals
    conv => lhs; cbv

end Nim

end NimTemplate
