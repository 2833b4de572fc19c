import NimTemplate.Proofs.Lexing
import NimTemplate.Proofs.Parsing
import NimTemplate.Proofs.Splitting

/-! Expressions inside of text. The search for the closing brace knows neither tokens nor the
grammar: it matches brackets and skips string literals and comments. An expression that can be
parsed has matching brackets and nothing that looks like a comment, so the search passes over
it and finds the brace behind it. -/

namespace NimTemplate

namespace Expr

/-- What matters of the tokens so far: the open brackets with the innermost first, and whether
the last token was a slash. -/
structure Nest where
  stack : List Char
  slash : Bool

/-- The brackets that are open behind a punctuator. -/
def bracket : Punct → List Char → Option (List Char)
  | .openParen, stack => some ('(' :: stack)
  | .openBracket, stack => some ('[' :: stack)
  | .openBrace, stack => some ('\x7b' :: stack)
  | .closeParen, stack => if stack.head? = some '(' then some stack.tail else none
  | .closeBracket, stack => if stack.head? = some '[' then some stack.tail else none
  | .closeBrace, stack => if stack.head? = some '\x7b' then some stack.tail else none
  | _, stack => some stack

/-- A slash and a slash or star right behind it could be taken for a comment. -/
def Nest.step (nest : Nest) : Token → Option Nest
  | .punct p =>
    if nest.slash ∧ (p = .divide ∨ p = .times) then none
    else (bracket p nest.stack).map fun stack => ⟨stack, p = .divide⟩
  | _ => some ⟨nest.stack, false⟩

def Nest.run (nest : Nest) (tokens : List Token) : Option Nest := tokens.foldlM Nest.step nest

section

variable {nest next : Nest} {stack : List Char}

theorem Nest.run_cons_eq_some {token : Token} {tokens : List Token} {last : Nest}
    (done : nest.run (token :: tokens) = some last) : ∃ next, nest.step token = some next ∧ next.run tokens = some last :=
  Option.bind_eq_some_iff.mp done

theorem Nest.run_cons {token : Token} (taken : nest.step token = some next) (tokens : List Token) :
    nest.run (token :: tokens) = next.run tokens := by
  rw [Nest.run, List.foldlM_cons, taken]
  rfl

theorem Nest.run_append {tokens : List Token} (taken : nest.run tokens = some next) (more : List Token) :
    nest.run (tokens ++ more) = next.run more := by
  unfold Nest.run at taken ⊢
  rw [List.foldlM_append, taken]
  rfl

/-- Behind the tokens the same brackets are open as before them, and the last token is no slash. -/
def Nested (tokens : List Token) : Prop :=
  ∀ stack, Nest.run ⟨stack, false⟩ tokens = some ⟨stack, false⟩

theorem Nested.append {tokens more : List Token} (first : Nested tokens) (second : Nested more) :
    Nested (tokens ++ more) := by
  intro stack
  rw [Nest.run_append (first stack)]
  exact second stack

theorem Nested.cons {token : Token} {tokens : List Token} (rest : Nested tokens)
    (neutral : ∀ stack, Nest.step ⟨stack, false⟩ token = some ⟨stack, false⟩) : Nested (token :: tokens) := by
  intro stack
  rw [Nest.run_cons (neutral stack)]
  exact rest stack

theorem Nested.enclosed {opener closer : Token} {c : Char} {tokens : List Token} (inner : Nested tokens)
    (push : ∀ stack, Nest.step ⟨stack, false⟩ opener = some ⟨c :: stack, false⟩)
    (pop : ∀ stack, Nest.step ⟨c :: stack, false⟩ closer = some ⟨stack, false⟩) :
    Nested (opener :: tokens ++ [closer]) := by
  intro stack
  rw [List.cons_append, Nest.run_cons (push stack), Nest.run_append (inner _), Nest.run_cons (pop stack)]
  rfl

theorem Nest.head?_ne {tokens : List Token} {last : Nest} (slash : nest.slash) (done : nest.run tokens = some last)
    {p : Punct} (follows : p = .divide ∨ p = .times) : tokens.head? ≠ some (.punct p) := by
  intro same
  obtain ⟨more, rfl⟩ := List.head?_eq_some_iff.mp same
  obtain ⟨next, taken, _⟩ := Nest.run_cons_eq_some done
  simp [Nest.step, slash, follows] at taken

theorem step_operator {level : Nat} {p : Punct} {connective : Connective} (listed : (p, connective) ∈ operatorsAt level) :
    Nest.step ⟨stack, false⟩ (.punct p) = some ⟨stack, p = .divide⟩ := by
  have plain : ∀ entry ∈ operators.flatten, bracket entry.1 stack = some stack := by simp [operators, bracket]
  simp [Nest.step, plain _ (mem_flatten_operators listed)]

theorem step_sign {sign : Token} {op : UnaryOp} (listed : (sign, op) ∈ unaryOperators) :
    Nest.step ⟨stack, false⟩ sign = some ⟨stack, false⟩ := by
  simp only [unaryOperators, List.mem_cons, Prod.mk.injEq, List.not_mem_nil, or_false] at listed
  rcases listed with ⟨rfl, _⟩ | ⟨rfl, _⟩ | ⟨rfl, _⟩ | ⟨rfl, _⟩
  all_goals rfl

theorem step_key {token : Token} {key : String} (isKey : IsKey token key) :
    Nest.step ⟨stack, false⟩ token = some ⟨stack, false⟩ := by
  cases isKey <;> rfl

/-- An expression does not start with a slash or a star. -/
theorem Derives.run_slash {phrase : Phrase} {tokens : List Token} (derived : Derives phrase tokens)
    (isExpr : phrase.isExpr) (slash : Bool) : Nest.run ⟨stack, slash⟩ tokens = Nest.run ⟨stack, false⟩ tokens := by
  obtain ⟨token, more, rfl, starts⟩ := derived.starts isExpr
  have apart : Nest.step ⟨stack, slash⟩ token = Nest.step ⟨stack, false⟩ token := by
    cases token with
    | number | text | name => rfl
    | punct p =>
      have other : ¬ (p = .divide ∨ p = .times) := by
        rintro (rfl | rfl)
        all_goals cases phrase <;> cases starts
      simp [Nest.step, other]
  rw [Nest.run, List.foldlM_cons, apart]
  rfl

end

theorem Derives.nested {phrase : Phrase} {tokens : List Token} (derived : Derives phrase tokens) : Nested tokens := by
  induction derived with
  | plain _ ih | tighter _ _ ih | tightest _ ih | unsigned _ ih | bare _ ih | lastItem _ ih => exact ih
  | number | text | name | noItems | noFields => exact fun stack => rfl
  | choice _ _ _ tested one other =>
    exact (tested.append (one.cons fun _ => rfl)).append (other.cons fun _ => rfl)
  | joined listed _ right before behind =>
    -- The operator can be a slash, but its right operand does not make a comment of it.
    intro stack
    rw [Nest.run_append (before stack), Nest.run_cons (step_operator listed), right.run_slash rfl]
    exact behind stack
  | signed listed _ ih => exact ih.cons fun _ => step_sign listed
  | property s _ ih => exact ih.append fun _ => rfl
  | index _ _ subject inner | call _ _ subject inner =>
    rw [List.append_assoc]
    exact subject.append (inner.enclosed (fun _ => rfl) fun _ => rfl)
  | group _ ih | array _ ih | object _ ih => exact ih.enclosed (fun _ => rfl) fun _ => rfl
  | nextItem _ _ item items => exact item.append (items.cons fun _ => rfl)
  | lastField isKey _ value => exact (value.cons fun _ => rfl).cons fun _ => step_key isKey
  | nextField isKey _ _ value fields =>
    exact ((value.cons fun _ => rfl).cons fun _ => step_key isKey).append (fields.cons fun _ => rfl)

end Expr

namespace Interpolation

/-- The search gets over the text from one place to another, with the given text behind it. -/
inductive Passes (behind : List Char) : Place → List Char → Place → Prop where
  | nil (place : Place) : Passes behind place [] place
  | cons {place next last c text} : advance (text ++ behind).head? c place = .ok (some next) →
    Passes behind next text last → Passes behind place (c :: text) last

theorem Passes.append {behind text more : List Char} {place next last : Place}
    (first : Passes (more ++ behind) place text next) (second : Passes behind next more last) :
    Passes behind place (text ++ more) last := by
  induction first with
  | nil => exact second
  | cons step _ ih =>
    rw [← List.append_assoc] at step
    exact .cons step (ih second)

/-- The brace behind a text that was passed over closes it. -/
theorem Passes.untilBrace_eq {text rest : List Char} {place : Place}
    (passes : Passes ('\x7d' :: rest) place text (.code, [])) :
    untilBrace place.1 place.2 (text ++ '\x7d' :: rest) = .ok (text, rest) := by
  generalize ends : ((.code, []) : Place) = last at passes
  induction passes with
  | nil =>
    rw [← ends, List.nil_append, untilBrace_cons, advance_brace]
    rfl
  | cons step _ ih =>
    rw [List.cons_append, untilBrace_cons, step]
    exact prepend_eq_ok_iff.mpr ⟨_, ih ends, rfl⟩

/-- The characters outside of literals that the search looks at. -/
def special : List Char := ['\'', '"', '\x60', '/', '(', '[', '\x7b', ')', ']', '\x7d']

section

variable {behind stack : List Char}

theorem advance_plain {c : Char} (plain : c ∉ special) (next : Option Char) :
    advance next c (.code, stack) = .ok (some (.code, stack)) := by
  have closer : opening? c = none := by
    unfold opening?
    split <;> simp_all [special]
  simp only [special, List.mem_cons, List.not_mem_nil, or_false, not_or] at plain
  simp [advance, isQuote, isOpening, plain, closer]

theorem advance_slash {next : Option Char} (line : next ≠ some '/') (star : next ≠ some '*') :
    advance next '/' (.code, stack) = .ok (some (.code, stack)) := by
  simp [advance, isQuote, isOpening, opening?, line, star]

theorem passes_plain {text : List Char} (plain : ∀ c ∈ text, c ∉ special) :
    Passes behind (.code, stack) text (.code, stack) := by
  induction text with
  | nil => exact .nil _
  | cons c text ih =>
    obtain ⟨first, others⟩ := List.forall_mem_cons.mp plain
    exact .cons (advance_plain first _) (ih others)

/-- Characters of a kind that no special one belongs to. -/
theorem passes_kind {p : Char → Bool} (clear : special.any p = false) {text : List Char} (kind : ∀ c ∈ text, p c) :
    Passes behind (.code, stack) text (.code, stack) := by
  apply passes_plain
  intro c member isSpecial
  exact List.any_eq_false.mp clear c isSpecial (kind c member)

theorem passes_literal {quote : Char} (other : quote ≠ '\\') {text : List Char}
    (literal : Token.Literal quote text) : Passes behind (.quoted quote, stack) text (.code, stack) := by
  induction literal with
  | close => exact .cons (by simp [advance, other]) (.nil _)
  | plain apart unescaped _ ih => exact .cons (by simp [advance, apart, unescaped]) ih
  | escape _ ih =>
    have step (next : Option Char) : advance next '\\' (.quoted quote, stack) = .ok (some (.escaped quote, stack)) := rfl
    exact .cons (step _) (.cons rfl ih)

theorem passes_punct {p : Punct} {next : List Char} (matched : Expr.bracket p stack = some next)
    (apart : p = .divide → behind.head? ≠ some '/' ∧ behind.head? ≠ some '*') :
    Passes behind (.code, stack) p.text.toList (.code, next) := by
  cases p with
  | divide =>
    cases matched
    obtain ⟨line, star⟩ := apart rfl
    exact .cons (advance_slash line star) (.nil _)
  | openParen | openBracket | openBrace =>
    cases matched
    exact .cons rfl (.nil _)
  | closeParen | closeBracket | closeBrace =>
    obtain ⟨innermost, same⟩ := Option.ite_none_right_eq_some.mp matched
    cases same
    obtain ⟨tail, rfl⟩ := List.head?_eq_some_iff.mp innermost
    exact .cons rfl (.nil _)
  | _ =>
    cases matched
    exact passes_plain (by simp [Punct.text, special])

theorem passes_token {token : Token} {lexeme : List Char} (spells : Token.Spells token lexeme) {nest next : Expr.Nest}
    (taken : nest.step token = some next)
    (apart : next.slash → behind.head? ≠ some '/' ∧ behind.head? ≠ some '*') :
    Passes behind (.code, nest.stack) lexeme (.code, next.stack) := by
  cases spells with
  | number parts =>
    cases taken
    exact passes_kind rfl parts
  | name parts =>
    cases taken
    exact passes_kind (by simp [special, Token.isNamePart, Token.isLetter_ascii, Token.isNumeric_ascii]) parts
  | text marks literal =>
    cases taken
    rcases marks with rfl | rfl
    all_goals exact .cons rfl (passes_literal (by decide) literal)
  | punct p =>
    obtain ⟨_, matched⟩ := Option.ite_none_left_eq_some.mp taken
    obtain ⟨stack, pushed, rfl⟩ := Option.map_eq_some_iff.mp matched
    exact passes_punct pushed fun slash => apart (by simpa using slash)

/-- Where the next token is no slash and no star, neither is the next character. -/
theorem head_apart {text rest : List Char} {tokens : List Token} (done : Token.all text = .ok tokens)
    {nest last : Expr.Nest} (slash : nest.slash) (run : nest.run tokens = some last) :
    (text ++ '\x7d' :: rest).head? ≠ some '/' ∧ (text ++ '\x7d' :: rest).head? ≠ some '*' := by
  cases text with
  | nil => simp
  | cons c text =>
    -- No blank stands between, so the character would be the whole next token.
    constructor
    all_goals
      intro same
      obtain rfl := Option.some.inj same
    · exact Expr.Nest.head?_ne slash run (.inl rfl) (Token.head?_of_read rfl (Token.read_divide _) done)
    · exact Expr.Nest.head?_ne slash run (.inr rfl) (Token.head?_of_read rfl (Token.read_times _) done)

/-- Text is passed over if its tokens are. -/
theorem passes_of_run {text : List Char} {tokens : List Token} (done : Token.all text = .ok tokens)
    {nest last : Expr.Nest} (run : nest.run tokens = some last) (rest : List Char) :
    Passes ('\x7d' :: rest) (.code, nest.stack) text (.code, last.stack) := by
  have clear : special.any Text.isBlank = false := rfl
  rcases Token.all_spells done with
    ⟨blank, rfl⟩ | ⟨blanks, lexeme, token, left, more, whole, blank, spells, shorter, later, rfl⟩
  · cases run
    exact passes_kind clear blank
  · obtain ⟨next, taken, run⟩ := Expr.Nest.run_cons_eq_some run
    rw [whole]
    refine (passes_kind clear blank).append (.append (passes_token spells taken ?_) (passes_of_run later run rest))
    intro slash
    exact head_apart later slash run
termination_by text.length

theorem untilBrace_of_parse {source : String} {expr : Expr} (parsed : Expr.parse source = .ok expr) (rest : List Char) :
    untilBrace .code [] (source.toList ++ '\x7d' :: rest) = .ok (source.toList, rest) := by
  obtain ⟨tokens, lexed, done⟩ := bind_eq_ok parsed
  exact (passes_of_run lexed ((Expr.derives_of_ofTokens done).nested []) rest).untilBrace_eq

theorem segments_of_parse {source : String} {expr : Expr} (parsed : Expr.parse source = .ok expr) {text : String}
    {mark : Char} (isMark : isMark mark) (whole : text.toList = mark :: '\x7b' :: (source.toList ++ ['\x7d'])) :
    segments text = .ok [.expr source (mark == '#')] := by
  have first : FirstMark text.toList [] false mark (source.toList ++ ['\x7d']) :=
    ⟨whole, isMark, not_hasMark_nil, by simp⟩
  have closed : split [] [] = .ok [] := split_plain not_hasMark_nil
  rw [segments, split_open first, untilBrace_of_parse parsed []]
  change split [] [] >>= _ = _
  rw [closed, String.ofList_toList]
  rfl

end

/-- Whatever can be parsed as an expression is found again when it is put into text: the search
for the closing brace ends right behind it, whatever follows, and splitting gives it back
whole. -/
theorem parsed_expression_is_recovered {source : String} {expr : Expr} (parsed : Expr.parse source = .ok expr) :
    (∀ text : String, braceIndex (source ++ "\x7d" ++ text) = .ok source.utf8ByteSize) ∧
      segments ("#\x7b" ++ source ++ "\x7d") = .ok [.expr source true] ∧
      segments ("!\x7b" ++ source ++ "\x7d") = .ok [.expr source false] := by
  refine ⟨?_, ?_, ?_⟩
  · intro text
    have found : untilBrace .code [] (source ++ "\x7d" ++ text).toList = .ok (source.toList, text.toList) := by
      simpa using untilBrace_of_parse parsed text.toList
    rw [braceIndex_of_untilBrace found, String.ofList_toList]
  · exact segments_of_parse parsed (rfl : isMark '#') (by simp)
  · exact segments_of_parse parsed (rfl : isMark '!') (by simp)

/-- A literal with a brace, a bracket and a quote in it. -/
theorem quoted_brace_is_recovered :
    Expr.parse "'\x7d)\\''" = .ok (.text "\x7d)'") ∧
      segments "#\x7b'\x7d)\\''\x7d" = .ok [.expr "'\x7d)\\''" true] := by
  have parsed : Expr.parse "'\x7d)\\''" = .ok (.text "\x7d)'") := by
    conv => lhs; cbv
  exact ⟨parsed, (parsed_expression_is_recovered parsed).2.1⟩

end Interpolation

end NimTemplate
