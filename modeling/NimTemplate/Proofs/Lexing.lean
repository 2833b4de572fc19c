import NimTemplate.Expr.Token.Lexer
import NimTemplate.Proofs.Basic

/-! Tokens as they stand in a text. Each token takes up a lexeme of its kind, and between the
lexemes there are only blanks. -/

namespace NimTemplate.Token

/-! Names within ASCII. The tables of letters and numbers start above it. -/

private theorem covers_eq_false {ranges : List Text.Range} (above : ranges.all fun range => 128 ≤ range.1) {c : Char}
    (ascii : c.toNat < 128) : Text.covers ranges c = false := by
  apply List.any_eq_false.mpr
  intro range member
  have start := List.all_eq_true.mp above range member
  simp only [decide_eq_true_eq] at start
  simp only [Bool.and_eq_true, decide_eq_true_eq, not_and]
  omega

theorem isLetter_ascii {c : Char} (ascii : c.toNat < 128) : Text.isLetter c = c.isAlpha := by
  rw [Text.isLetter, covers_eq_false (by decide +kernel) ascii, Bool.or_false]

theorem isNumeric_ascii {c : Char} (ascii : c.toNat < 128) : Text.isNumeric c = c.isDigit := by
  rw [Text.isNumeric, covers_eq_false (by decide +kernel) ascii, Bool.or_false]

/-! Lexemes. -/

/-- The characters of numerals, those of hexadecimal ones included. -/
def isNumeralPart (c : Char) : Bool := Text.isHexDigit c || ['.', '+', '-', 'x', 'X'].contains c

/-- A string literal behind its opening quote: a backslash takes the next character with it, and
the first quote that is not taken so ends the literal. -/
inductive Literal (quote : Char) : List Char → Prop where
  | close : Literal quote [quote]
  | plain {c rest} : c ≠ quote → c ≠ '\\' → Literal quote rest → Literal quote (c :: rest)
  | escape {c rest} : Literal quote rest → Literal quote ('\\' :: c :: rest)

/-- The characters that a token can stand as in a text. -/
inductive Spells : Token → List Char → Prop where
  | number {x lexeme} : (∀ c ∈ lexeme, isNumeralPart c) → Spells (.number x) lexeme
  | text {s quote body} : quote = '"' ∨ quote = '\'' → Literal quote body → Spells (.text s) (quote :: body)
  | name {lexeme} : (∀ c ∈ lexeme, isNamePart c) → Spells (.name (String.ofList lexeme)) lexeme
  | punct (p : Punct) : Spells (.punct p) p.text.toList

theorem readHex_spells {text left : List Char} {token : Token} (done : readHex text = .ok (token, left)) :
    ∃ lexeme, text = lexeme ++ left ∧ (∀ c ∈ lexeme, isNumeralPart c) ∧ ∃ x, token = .number x := by
  unfold readHex at done
  dsimp only at done
  split at done
  next => cases done
  split at done
  next =>
    cases done
    refine ⟨text.takeWhile Text.isHexDigit, List.takeWhile_append_dropWhile.symm, ?_, _, rfl⟩
    intro c member
    have hex := List.all_eq_true.mp List.all_takeWhile c member
    simp [isNumeralPart, hex]
  next => cases done

theorem numeralSpan_spells (marked : Bool) (previous : Char) (text : List Char) :
    text = (numeralSpan marked previous text).1 ++ (numeralSpan marked previous text).2 ∧
      ∀ c ∈ (numeralSpan marked previous text).1, isNumeralPart c := by
  induction text generalizing marked previous with
  | nil => simp [numeralSpan]
  | cons c rest ih =>
    rw [numeralSpan]
    split
    next accepted =>
      obtain ⟨same, parts⟩ := ih (marked || Decimal.isMark c) c
      refine ⟨by rw [List.cons_append, ← same], ?_⟩
      apply List.forall_mem_cons.mpr ⟨?_, parts⟩
      simp only [Bool.or_eq_true, Bool.and_eq_true, beq_iff_eq, Decimal.isMark] at accepted
      rcases accepted with ((digit | rfl) | ⟨_, rfl | rfl⟩) | ⟨rfl | rfl, _⟩
      · simp [isNumeralPart, Text.isHexDigit, digit]
      all_goals decide
    next => simp

theorem ofNumeral_eq_ok {text : List Char} {token : Token} (done : ofNumeral text = .ok token) :
    ∃ x, token = .number x := by
  unfold ofNumeral readOctal at done
  grind

theorem readNumber_spells {text left : List Char} {token : Token} (done : readNumber text = .ok (token, left)) :
    ∃ lexeme, text = lexeme ++ left ∧ Spells token lexeme := by
  unfold readNumber at done
  split at done
  next rest =>
    obtain ⟨digits, rfl, parts, x, rfl⟩ := readHex_spells done
    exact ⟨'0' :: 'x' :: digits, rfl, .number (by simpa using ⟨by decide, by decide, parts⟩)⟩
  next rest =>
    obtain ⟨digits, rfl, parts, x, rfl⟩ := readHex_spells done
    exact ⟨'0' :: 'X' :: digits, rfl, .number (by simpa using ⟨by decide, by decide, parts⟩)⟩
  next =>
    obtain ⟨found, numeral, same⟩ := map_eq_ok.mp done
    cases same
    obtain ⟨x, rfl⟩ := ofNumeral_eq_ok numeral
    obtain ⟨whole, parts⟩ := numeralSpan_spells false '\x00' text
    exact ⟨_, whole, .number parts⟩

theorem isHexDigit_of_codePoint {digits : List Char} {c : Char} (valid : codePoint digits = .ok c) :
    ∀ d ∈ digits, Text.isHexDigit d := by
  unfold codePoint at valid
  split at valid
  next => cases valid
  next hex => simpa using hex

/-- Digits of an escape are plain characters of the literal. -/
theorem Literal.digits {quote : Char} (marks : quote = '"' ∨ quote = '\'') {digits rest : List Char}
    (literal : Literal quote rest) (hex : ∀ d ∈ digits, Text.isHexDigit d) : Literal quote (digits ++ rest) := by
  induction digits with
  | nil => exact literal
  | cons d digits ih =>
    obtain ⟨first, others⟩ := List.forall_mem_cons.mp hex
    refine .plain ?_ ?_ (ih others)
    · rintro rfl
      rcases marks with rfl | rfl
      all_goals exact absurd first (by decide)
    · rintro rfl
      exact absurd first (by decide)

/-- The content of a string literal as it is written between the quotes, with the characters it
stands for. -/
inductive Written (quote : Char) : (content value : List Char) → Prop where
  | nil : Written quote [] []
  | plain {c content value} : c ≠ quote → c ≠ '\n' → c ≠ '\\' → Written quote content value →
      Written quote (c :: content) (c :: value)
  | newline {content value} : Written quote content value → Written quote ('\\' :: '\n' :: content) value
  | byte {a b c content value} : codePoint [a, b] = .ok c → Written quote content value →
      Written quote ('\\' :: 'x' :: a :: b :: content) (c :: value)
  | unit {a b c d e content value} : codePoint [a, b, c, d] = .ok e → Written quote content value →
      Written quote ('\\' :: 'u' :: a :: b :: c :: d :: content) (e :: value)
  | letter {c content value} : c ∉ ['\n', 'x', 'u'] → Written quote content value →
      Written quote ('\\' :: c :: content) (escaped c :: value)

theorem written_of_stringBody {quote : Char} {text value left : List Char}
    (done : stringBody quote text = .ok (value, left)) :
    ∃ content, text = content ++ quote :: left ∧ Written quote content value := by
  fun_induction stringBody quote text generalizing value left with
  | case1 | case3 | case5 | case7 | case9 | case11 => cases done
  | case2 =>
    cases done
    exact ⟨[], rfl, .nil⟩
  | case4 c rest other line plain ih =>
    obtain ⟨⟨inner, _⟩, found, same⟩ := map_eq_ok.mp done
    cases same
    obtain ⟨content, rfl, written⟩ := ih found
    exact ⟨c :: content, rfl, .plain other line plain written⟩
  | case6 c _ _ backslash rest ih =>
    obtain ⟨content, rfl, written⟩ := ih done
    obtain rfl := Decidable.not_not.mp backslash
    exact ⟨'\\' :: '\n' :: content, rfl, .newline written⟩
  | case8 c _ _ backslash a b rest d valid ih =>
    obtain ⟨⟨inner, _⟩, found, same⟩ := map_eq_ok.mp done
    cases same
    obtain ⟨content, rfl, written⟩ := ih found
    obtain rfl := Decidable.not_not.mp backslash
    exact ⟨'\\' :: 'x' :: a :: b :: content, rfl, .byte valid written⟩
  | case10 c₀ _ _ backslash a b c d rest e valid ih =>
    obtain ⟨⟨inner, _⟩, found, same⟩ := map_eq_ok.mp done
    cases same
    obtain ⟨content, rfl, written⟩ := ih found
    obtain rfl := Decidable.not_not.mp backslash
    exact ⟨'\\' :: 'u' :: a :: b :: c :: d :: content, rfl, .unit valid written⟩
  | case12 _ _ _ backslash c rest line _ _ other ih =>
    obtain ⟨⟨inner, _⟩, found, same⟩ := map_eq_ok.mp done
    cases same
    obtain ⟨content, rfl, written⟩ := ih found
    obtain rfl := Decidable.not_not.mp backslash
    exact ⟨'\\' :: c :: content, rfl, .letter (by simpa using ⟨line, not_or.mp other⟩) written⟩

/-- Of an escape the backslash takes the first character with it; its digits are plain. -/
theorem Written.literal {quote : Char} (marks : quote = '"' ∨ quote = '\'') {content value : List Char}
    (written : Written quote content value) : Literal quote (content ++ [quote]) := by
  induction written with
  | nil => exact .close
  | plain other _ plain _ ih => exact .plain other plain ih
  | newline _ ih | letter _ _ ih => exact .escape ih
  | byte valid _ ih | unit valid _ ih => exact .escape (ih.digits marks (isHexDigit_of_codePoint valid))

theorem stringBody_spells {quote : Char} (marks : quote = '"' ∨ quote = '\'') {text body left : List Char}
    (done : stringBody quote text = .ok (body, left)) : ∃ literal, text = literal ++ left ∧ Literal quote literal := by
  obtain ⟨content, rfl, written⟩ := written_of_stringBody done
  exact ⟨content ++ [quote], by simp, written.literal marks⟩

theorem readPunct_spells {text left : List Char} {p : Punct} (found : readPunct text = some (p, left)) :
    text = p.text.toList ++ left := by
  obtain ⟨q, member, same⟩ := Option.map_eq_some_iff.mp found
  obtain ⟨rfl, rfl⟩ := Prod.mk.inj same
  have fits : q.text.toList.isPrefixOf text = true := by simpa using List.find?_some member
  exact (List.prefix_iff_eq_append.mp (List.isPrefixOf_iff_prefix.mp fits)).symm

theorem isNamePart_of_isNameStart {c : Char} (starts : isNameStart c) : isNamePart c := by
  simp only [isNameStart, isNamePart, Bool.or_eq_true] at starts ⊢
  grind

/-- What a token is read from spells it. -/
theorem read_spells {c : Char} {rest left : List Char} {token : Token} (done : read c rest = .ok (token, left)) :
    ∃ lexeme, c :: rest = lexeme ++ left ∧ Spells token lexeme := by
  unfold read at done
  split at done
  next => exact readNumber_spells done
  split at done
  next marks =>
    obtain ⟨⟨body, text⟩, found, same⟩ := map_eq_ok.mp done
    cases same
    obtain ⟨literal, rfl, closed⟩ := stringBody_spells marks found
    exact ⟨c :: literal, rfl, .text marks closed⟩
  split at done
  next starts =>
    cases done
    refine ⟨c :: rest.takeWhile isNamePart, by simp, .name ?_⟩
    have others : ∀ d ∈ rest.takeWhile isNamePart, isNamePart d := List.all_eq_true.mp List.all_takeWhile
    exact List.forall_mem_cons.mpr ⟨isNamePart_of_isNameStart starts, others⟩
  split at done
  next p text found =>
    cases done
    exact ⟨p.text.toList, readPunct_spells found, .punct p⟩
  next => cases done

/-- One token after the other, with blanks before each and behind the last. -/
theorem all_eq_ok {text : List Char} {tokens : List Token} (done : all text = .ok tokens) :
    (Text.trimStart text = [] ∧ tokens = []) ∨ ∃ c rest token left more, Text.trimStart text = c :: rest ∧
      read c rest = .ok (token, left) ∧ all left = .ok more ∧ tokens = token :: more := by
  rw [all] at done
  split at done
  next ended =>
    cases done
    exact .inl ⟨ended, rfl⟩
  next c rest starts =>
    split at done
    next => cases done
    next token left first =>
      obtain ⟨more, later, same⟩ := map_eq_ok.mp done
      exact .inr ⟨c, rest, token, left, more, starts, first, later, same.symm⟩

/-- The text of the tokens: blanks, then what spells the first token, then the text of the others. -/
theorem all_spells {text : List Char} {tokens : List Token} (done : all text = .ok tokens) :
    (∀ c ∈ text, Text.isBlank c) ∧ tokens = [] ∨ ∃ blanks lexeme token left more,
      text = blanks ++ (lexeme ++ left) ∧ (∀ c ∈ blanks, Text.isBlank c) ∧ Spells token lexeme ∧
      left.length < text.length ∧ all left = .ok more ∧ tokens = token :: more := by
  have blank : ∀ c ∈ text.takeWhile Text.isBlank, Text.isBlank c := List.all_eq_true.mp List.all_takeWhile
  have whole : text.takeWhile Text.isBlank ++ Text.trimStart text = text := List.takeWhile_append_dropWhile
  rcases all_eq_ok done with ⟨ended, rfl⟩ | ⟨c, rest, token, left, more, starts, first, later, rfl⟩
  · rw [ended, List.append_nil] at whole
    rw [whole] at blank
    exact .inl ⟨blank, rfl⟩
  · obtain ⟨lexeme, same, spells⟩ := read_spells first
    have shorter := read_length first
    have length := congrArg List.length whole
    simp only [starts, List.length_append, List.length_cons] at length
    rw [starts, same] at whole
    exact .inr ⟨_, lexeme, token, left, more, whole.symm, blank, spells, by omega, later, rfl⟩

theorem read_divide (rest : List Char) : read '/' rest = .ok (.punct .divide, rest) := by
  simp [read, startsNumber, isNameStart, isLetter_ascii, readPunct, Punct.all, Punct.text]

theorem read_times (rest : List Char) : read '*' rest = .ok (.punct .times, rest) := by
  simp [read, startsNumber, isNameStart, isLetter_ascii, readPunct, Punct.all, Punct.text]

theorem all_blank {text : List Char} (blank : Text.trimStart text = []) : all text = .ok [] := by
  rw [all]
  split
  next => rfl
  next c rest starts =>
    rw [blank] at starts
    cases starts

theorem all_starts {text rest : List Char} {c : Char} (starts : Text.trimStart text = c :: rest) :
    all text = (read c rest).bind fun found => (all found.2).map (found.1 :: ·) := by
  rw [all]
  split
  next blank =>
    rw [starts] at blank
    cases blank
  next d others same =>
    rw [starts] at same
    cases same
    split
    next failed =>
      rw [failed]
      rfl
    next found =>
      rw [found]
      rfl

theorem all_congr {text other : List Char} (same : Text.trimStart text = Text.trimStart other) : all text = all other := by
  cases starts : Text.trimStart other with
  | nil => rw [all_blank starts, all_blank (same.trans starts)]
  | cons c rest => rw [all_starts starts, all_starts (same.trans starts)]

theorem all_nil : all [] = .ok [] := all_blank rfl

theorem all_cons {c : Char} {rest left : List Char} {token : Token} (filled : Text.isBlank c = false)
    (first : read c rest = .ok (token, left)) : all (c :: rest) = (all left).map (token :: ·) := by
  have starts : Text.trimStart (c :: rest) = c :: rest := List.dropWhile_cons_of_neg (by simp [filled])
  rw [all_starts starts, first]
  rfl

theorem head?_of_read {c : Char} {rest left : List Char} {token : Token} {tokens : List Token}
    (filled : Text.isBlank c = false) (first : read c rest = .ok (token, left)) (done : all (c :: rest) = .ok tokens) :
    tokens.head? = some token := by
  rw [all_cons filled first] at done
  obtain ⟨more, _, rfl⟩ := map_eq_ok.mp done
  rfl

end NimTemplate.Token
