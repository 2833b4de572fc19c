import Mathlib.Data.List.Find
import NimTemplate.Proofs.Digits
import NimTemplate.Proofs.Lexing

/-! Texts that are cut at a quote. No token but a literal holds a quote, so the tokens before it do
not depend on what starts there, and the tokens of the whole text are those of the two parts. -/

namespace NimTemplate.Token

section

variable {text rest left : List Char} {c : Char} {token : Token}

theorem mem_of_starts (starts : Text.trimStart text = c :: rest) : c ∈ text := by
  have member : c ∈ Text.trimStart text := by simp [starts]
  exact (List.dropWhile_sublist _).subset member

/-- What is left behind a token is a part of the text. -/
theorem subset_of_read (starts : Text.trimStart text = c :: rest) (first : read c rest = .ok (token, left)) :
    left ⊆ text := by
  obtain ⟨lexeme, same, _⟩ := read_spells first
  intro d member
  have inside : d ∈ Text.trimStart text := by simp [starts, same, member]
  exact (List.dropWhile_sublist _).subset inside

end

/-- No literal starts in the text. -/
def QuoteFree (text : List Char) : Prop := ∀ c ∈ text, ¬ (c = '"' ∨ c = '\'')

/-- The text is empty or starts with a quote. -/
def AtQuote (text : List Char) : Prop := ∀ c ∈ text.head?, c = '"' ∨ c = '\''

theorem cut_at_quote (text : List Char) :
    ∃ before behind, text = before ++ behind ∧ QuoteFree before ∧ AtQuote behind := by
  induction text with
  | nil => exact ⟨[], [], rfl, by simp [QuoteFree], by simp [AtQuote]⟩
  | cons c text ih =>
    by_cases marks : c = '"' ∨ c = '\''
    · exact ⟨[], c :: text, rfl, by simp [QuoteFree], by simpa [AtQuote] using marks⟩
    · obtain ⟨before, behind, rfl, free, quoted⟩ := ih
      exact ⟨c :: before, behind, rfl, List.forall_mem_cons.mpr ⟨marks, free⟩, quoted⟩

theorem AtQuote.stops {p : Char → Bool} (clear : ['"', '\''].any p = false) {behind : List Char}
    (quoted : AtQuote behind) : ∀ c ∈ behind.head?, p c = false := by
  intro c member
  rcases quoted c member with rfl | rfl
  all_goals simp_all

section

variable {behind : List Char} (quoted : AtQuote behind)

include quoted

theorem takeWhile_before {p : Char → Bool} (clear : ['"', '\''].any p = false) (text : List Char) :
    (text ++ behind).takeWhile p = text.takeWhile p := by
  induction text with
  | nil =>
    cases behind with
    | nil => rfl
    | cons c behind => exact List.takeWhile_cons_of_neg (by simp [quoted.stops clear c rfl])
  | cons c text ih => simp only [List.cons_append, List.takeWhile_cons, ih]

theorem dropWhile_before {p : Char → Bool} (clear : ['"', '\''].any p = false) (text : List Char) :
    (text ++ behind).dropWhile p = text.dropWhile p ++ behind := by
  induction text with
  | nil =>
    cases behind with
    | nil => rfl
    | cons c behind => exact List.dropWhile_cons_of_neg (by simp [quoted.stops clear c rfl])
  | cons c text ih =>
    simp only [List.cons_append, List.dropWhile_cons, ih]
    split
    all_goals rfl

theorem isPrefixOf_before {mark : List Char} (plain : QuoteFree mark) (text : List Char) :
    mark.isPrefixOf (text ++ behind) = mark.isPrefixOf text :=
  Text.isPrefixOf_append (fun c member first => plain c member (quoted c first)) text

theorem readHex_before (text : List Char) :
    readHex (text ++ behind) = (readHex text).map fun found => (found.1, found.2 ++ behind) := by
  simp only [readHex, takeWhile_before quoted (by decide : ['"', '\''].any Text.isHexDigit = false),
    dropWhile_before quoted (by decide : ['"', '\''].any Text.isHexDigit = false)]
  split
  · rfl
  · split
    all_goals rfl

theorem numeralSpan_before (marked : Bool) (previous : Char) (text : List Char) :
    numeralSpan marked previous (text ++ behind) =
      ((numeralSpan marked previous text).1, (numeralSpan marked previous text).2 ++ behind) := by
  induction text generalizing marked previous with
  | nil =>
    cases behind with
    | nil => rfl
    | cons c behind =>
      have outside : (c.isDigit || c == '.' || (!marked && Decimal.isMark c) ||
          ((c == '+' || c == '-') && Decimal.isMark previous)) = false := by
        rcases quoted c rfl with rfl | rfl
        all_goals cases marked <;> rfl
      simp [numeralSpan, outside]
  | cons c text ih =>
    simp only [List.cons_append, numeralSpan, ih]
    split
    all_goals rfl

omit quoted in
theorem readNumber_decimal {c : Char} {rest : List Char} (decimal : c = '0' → ∀ d ∈ rest.head?, d ≠ 'x' ∧ d ≠ 'X') :
    readNumber (c :: rest) =
      (ofNumeral (numeralSpan false '\x00' (c :: rest)).1).map (·, (numeralSpan false '\x00' (c :: rest)).2) := by
  unfold readNumber
  split
  next same =>
    cases same
    exact absurd rfl (decimal rfl 'x' rfl).1
  next same =>
    cases same
    exact absurd rfl (decimal rfl 'X' rfl).2
  next => rfl

theorem readNumber_before (c : Char) (text : List Char) :
    readNumber (c :: (text ++ behind)) = (readNumber (c :: text)).map fun found => (found.1, found.2 ++ behind) := by
  by_cases decimal : c = '0' → ∀ d ∈ text.head?, d ≠ 'x' ∧ d ≠ 'X'
  · have still : c = '0' → ∀ d ∈ (text ++ behind).head?, d ≠ 'x' ∧ d ≠ 'X' := by
      intro zero d member
      cases text with
      | cons e text => exact decimal zero d member
      | nil =>
        rcases quoted d member with rfl | rfl
        all_goals decide
    rw [readNumber_decimal decimal, readNumber_decimal still, ← List.cons_append, numeralSpan_before quoted]
    cases ofNumeral (numeralSpan false '\x00' (c :: text)).1
    all_goals rfl
  · push Not at decimal
    obtain ⟨rfl, d, member, hex⟩ := decimal
    obtain ⟨rest, rfl⟩ := List.head?_eq_some_iff.mp member
    by_cases small : d = 'x'
    · subst small
      exact readHex_before quoted rest
    · obtain rfl := hex small
      exact readHex_before quoted rest

theorem readPunct_before (text : List Char) :
    readPunct (text ++ behind) = (readPunct text).map fun found => (found.1, found.2 ++ behind) := by
  have same : ∀ p ∈ Punct.all, p.text.toList.isPrefixOf (text ++ behind) = p.text.toList.isPrefixOf text := by
    intro p _
    apply isPrefixOf_before quoted
    cases p <;> simp [QuoteFree, Punct.text]
  rw [readPunct, readPunct, List.find?_congr same, Option.map_map]
  apply Option.map_congr
  intro p found
  have fits : p.text.toList.isPrefixOf text = true := by simpa using List.find?_some found
  have inside := (List.isPrefixOf_iff_prefix.mp fits).length_le
  simp only [Function.comp_apply, List.drop_append_of_le_length inside]

theorem read_before {c : Char} (plain : ¬ (c = '"' ∨ c = '\'')) (text : List Char) :
    read c (text ++ behind) = (read c text).map fun found => (found.1, found.2 ++ behind) := by
  have starts : startsNumber c (text ++ behind) = startsNumber c text := by
    cases text with
    | cons d text => rfl
    | nil =>
      cases behind with
      | nil => rfl
      | cons d behind =>
        rcases quoted d rfl with rfl | rfl
        all_goals rfl
  have names : ['"', '\''].any isNamePart = false := by simp [isNamePart, isLetter_ascii, isNumeric_ascii]
  simp only [read, starts, if_neg plain, takeWhile_before quoted names, dropWhile_before quoted names,
    ← List.cons_append, readPunct_before quoted]
  split
  · exact readNumber_before quoted c text
  · split
    · rfl
    · cases readPunct (c :: text)
      all_goals rfl

theorem trimStart_before (text : List Char) : Text.trimStart (text ++ behind) = Text.trimStart text ++ behind :=
  dropWhile_before quoted (by decide) text

theorem trimStart_blank {text : List Char} (blank : Text.trimStart text = []) :
    Text.trimStart (text ++ behind) = Text.trimStart behind := by
  rw [trimStart_before quoted, blank]
  exact (trimStart_before quoted []).symm

theorem trimStart_starts {text rest : List Char} {c : Char} (starts : Text.trimStart text = c :: rest) :
    Text.trimStart (text ++ behind) = c :: (rest ++ behind) := by
  rw [trimStart_before quoted, starts, List.cons_append]

/-- The tokens of a text that is cut at a quote. -/
theorem all_before {text : List Char} (plain : QuoteFree text) :
    all (text ++ behind) = (all text).bind fun tokens => (all behind).map (tokens ++ ·) := by
  fun_induction all text with
  | case1 text blank =>
    rw [all_congr (trimStart_blank quoted blank)]
    cases all behind
    all_goals rfl
  | case2 text c rest starts error failed =>
    rw [all_starts (trimStart_starts quoted starts), read_before quoted (plain c (mem_of_starts starts)), failed]
    rfl
  | case3 text c rest starts token left first ih =>
    have later := ih fun d member => plain d (subset_of_read starts first member)
    rw [all_starts (trimStart_starts quoted starts), read_before quoted (plain c (mem_of_starts starts)), first]
    change (all (left ++ behind)).map (token :: ·) = _
    rw [later]
    cases all left
    all_goals cases all behind
    all_goals rfl

theorem all_before_eq_ok {text : List Char} (plain : QuoteFree text) {tokens : List Token} :
    all (text ++ behind) = .ok tokens ↔
      ∃ before after, all text = .ok before ∧ all behind = .ok after ∧ tokens = before ++ after := by
  rw [all_before quoted plain]
  constructor
  · intro lexed
    obtain ⟨before, first, lexed⟩ := bind_eq_ok lexed
    obtain ⟨after, later, same⟩ := map_eq_ok.mp lexed
    exact ⟨before, after, first, later, same.symm⟩
  · rintro ⟨before, after, first, later, rfl⟩
    rw [first, later]
    rfl

end

/-! Where tokens start. -/

/-- Reading the tokens of a text comes to a token that starts with the character. -/
inductive Comes : List Char → Char → Token → Prop where
  | here {text c rest token left} : Text.trimStart text = c :: rest → read c rest = .ok (token, left) →
      Comes text c token
  | later {text c rest token left d next} : Text.trimStart text = c :: rest → read c rest = .ok (token, left) →
      Comes left d next → Comes text d next

/-- Reading comes to the tokens of the text and to no others. -/
theorem mem_iff_comes {text : List Char} {tokens : List Token} (lexed : all text = .ok tokens) {token : Token} :
    token ∈ tokens ↔ ∃ c, Comes text c token := by
  constructor
  · intro member
    fun_induction all text generalizing tokens with
    | case1 =>
      cases lexed
      cases member
    | case2 => cases lexed
    | case3 text c rest starts first left found ih =>
      obtain ⟨more, later, rfl⟩ := map_eq_ok.mp lexed
      rcases List.mem_cons.mp member with rfl | member
      · exact ⟨c, .here starts found⟩
      · obtain ⟨d, comes⟩ := ih later member
        exact ⟨d, .later starts found comes⟩
  · rintro ⟨c, comes⟩
    induction comes generalizing tokens with
    | here starts found =>
      rw [all_starts starts, found] at lexed
      obtain ⟨more, _, rfl⟩ := map_eq_ok.mp lexed
      exact List.mem_cons_self
    | later starts found _ ih =>
      rw [all_starts starts, found] at lexed
      obtain ⟨more, later, rfl⟩ := map_eq_ok.mp lexed
      exact List.mem_cons_of_mem _ (ih later)

theorem Comes.mem {text : List Char} {c : Char} {token : Token} (comes : Comes text c token) : c ∈ text := by
  induction comes with
  | here starts => exact mem_of_starts starts
  | later starts first _ ih => exact subset_of_read starts first ih

/-- A literal starts with a quote. -/
theorem Comes.quote {text : List Char} {c : Char} {s : String} (comes : Comes text c (.text s)) :
    c = '"' ∨ c = '\'' := by
  generalize same : Token.text s = token at comes
  induction comes with
  | here _ first =>
    subst same
    obtain ⟨lexeme, whole, spells⟩ := read_spells first
    cases spells with
    | text marks =>
      cases whole
      exact marks
  | later _ _ _ ih => exact ih same

/-- A token of a text that is cut at a quote starts before it, or is one of those behind. -/
theorem Comes.before {text behind : List Char} {c : Char} {token : Token} (quoted : AtQuote behind)
    (plain : QuoteFree text) (comes : Comes (text ++ behind) c token) : c ∈ text ∨ Comes behind c token := by
  generalize whole : text ++ behind = source at comes
  induction comes generalizing text with
  | here starts first =>
    subst whole
    cases before : Text.trimStart text with
    | nil =>
      rw [trimStart_blank quoted before] at starts
      exact .inr (.here starts first)
    | cons d rest =>
      rw [trimStart_starts quoted before] at starts
      cases starts
      exact .inl (mem_of_starts before)
  | later starts first comes ih =>
    subst whole
    cases before : Text.trimStart text with
    | nil =>
      rw [trimStart_blank quoted before] at starts
      exact .inr (.later starts first comes)
    | cons d rest =>
      have start := plain d (mem_of_starts before)
      rw [trimStart_starts quoted before] at starts
      cases starts
      rw [read_before quoted start] at first
      obtain ⟨⟨_, left⟩, taken, same⟩ := map_eq_ok.mp first
      cases same
      have inside := subset_of_read before taken
      rcases ih (fun e member => plain e (inside member)) rfl with early | late
      · exact .inl (inside early)
      · exact .inr late

end NimTemplate.Token
