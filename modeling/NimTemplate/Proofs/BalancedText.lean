import NimTemplate.Proofs.Embedding

/-! Text with matching brackets. The search for the closing brace keeps a stack and looks one
character ahead; the grammar here has no stack. The search finds a brace if and only if the text
before that brace is balanced. -/

namespace NimTemplate.Interpolation

def quotes : List Char := ['\'', '"', '\x60']

def brackets : List (Char × Char) := [('(', ')'), ('[', ']'), ('\x7b', '\x7d')]

/-- The character starts no literal or comment and is no bracket, given the one behind it. -/
structure IsPlain (next : Option Char) (c : Char) : Prop where
  unquoted : c ∉ quotes
  bare : ∀ pair ∈ brackets, c ≠ pair.1 ∧ c ≠ pair.2
  apart : c = '/' → next ≠ some '/' ∧ next ≠ some '*'

/-- The text goes up to the first place where the mark stands, and the mark belongs to it. -/
def UpTo (mark text : List Char) : Prop := mark <:+ text ∧ ¬ mark <:+: text.dropLast

/-- Text whose brackets match, with the given text behind it. Those in string literals and comments
do not count. -/
inductive Balanced : (behind text : List Char) → Prop where
  | nil {behind} : Balanced behind []
  | plain {behind c text} : IsPlain (text ++ behind).head? c → Balanced behind text → Balanced behind (c :: text)
  | literal {behind quote body text} : quote ∈ quotes → Token.Literal quote body → Balanced behind text →
      Balanced behind (quote :: body ++ text)
  | lineComment {behind body text} : UpTo ['\n'] body → Balanced behind text →
      Balanced behind ('/' :: '/' :: body ++ text)
  | comment {behind body text} : UpTo ['*', '/'] body → Balanced behind text →
      Balanced behind ('/' :: '*' :: body ++ text)
  | group {behind opener closer inner text} : (opener, closer) ∈ brackets →
      Balanced (closer :: text ++ behind) inner → Balanced behind text →
      Balanced behind (opener :: inner ++ closer :: text)

/-! One step outside of literals and comments. -/

/-- The place behind a character of the code, given the character that follows it. -/
inductive CodeStep (next : Option Char) : Char → List Char → Place → Prop where
  | quote {c stack} : c ∈ quotes → CodeStep next c stack (.quoted c, stack)
  | lineComment {stack} : next = some '/' → CodeStep next '/' stack (.lineComment, stack)
  | comment {stack} : next = some '*' → CodeStep next '/' stack (.commentStar, stack)
  | opener {c closer stack} : (c, closer) ∈ brackets → CodeStep next c stack (.code, c :: stack)
  | closer {opener c stack} : (opener, c) ∈ brackets → CodeStep next c (opener :: stack) (.code, stack)
  | plain {c stack} : IsPlain next c → CodeStep next c stack (.code, stack)

theorem isQuote_iff {c : Char} : isQuote c ↔ c ∈ quotes := by
  simp [isQuote, quotes, or_assoc]

theorem isOpening_iff {c : Char} : isOpening c ↔ ∃ closer, (c, closer) ∈ brackets := by
  simp [isOpening, brackets, or_assoc, exists_or]

theorem opening?_eq_some_iff {opener closer : Char} : opening? closer = some opener ↔ (opener, closer) ∈ brackets := by
  unfold opening?
  split <;> simp_all [brackets, eq_comm]

section

variable {next : Option Char} {c : Char} {stack : List Char} {place : Place}

theorem codeStep_of_advance (step : advance next c (.code, stack) = .ok (some place)) : CodeStep next c stack place := by
  rw [advance] at step
  split at step
  next quote =>
    cases step
    exact .quote (isQuote_iff.mp quote)
  next unquoted =>
  split at step
  next line =>
    cases step
    rw [line.1]
    exact .lineComment line.2
  next line =>
  split at step
  next star =>
    cases step
    rw [star.1]
    exact .comment star.2
  next star =>
  split at step
  next opens =>
    cases step
    obtain ⟨closer, pair⟩ := isOpening_iff.mp opens
    exact .opener pair
  next opens =>
  split at step
  next closes =>
    cases step
    refine .plain ⟨fun quote => unquoted (isQuote_iff.mpr quote), fun pair member => ⟨?_, ?_⟩, by grind⟩
    · rintro rfl
      exact opens (isOpening_iff.mpr ⟨pair.2, member⟩)
    · rintro rfl
      rw [opening?_eq_some_iff.mpr (member : (pair.1, pair.2) ∈ brackets)] at closes
      cases closes
  next bracket closes =>
    cases stack with
    | nil =>
      dsimp only at step
      split at step <;> cases step
    | cons innermost outer =>
      dsimp only at step
      split at step
      next same =>
        cases step
        rw [same]
        exact .closer (opening?_eq_some_iff.mp closes)
      next => cases step

theorem CodeStep.advance_eq (step : CodeStep next c stack place) : advance next c (.code, stack) = .ok (some place) := by
  cases step with
  | quote isQuote => rw [advance, if_pos (isQuote_iff.mpr isQuote)]
  | lineComment slash =>
    rw [slash]
    rfl
  | comment star =>
    rw [star]
    rfl
  | opener pair | closer pair =>
    simp only [brackets, List.mem_cons, Prod.mk.injEq, List.not_mem_nil, or_false] at pair
    rcases pair with ⟨rfl, rfl⟩ | ⟨rfl, rfl⟩ | ⟨rfl, rfl⟩
    all_goals rfl
  | plain plain =>
    obtain ⟨unquoted, bare, apart⟩ := plain
    by_cases slash : c = '/'
    · rw [slash]
      exact advance_slash (apart slash).1 (apart slash).2
    · exact advance_plain (by simp_all [special, quotes, brackets]) next

end

/-! The ends of comments. -/

section

variable {mark text : List Char} {c : Char}

theorem not_upTo_nil (filled : mark ≠ []) : ¬ UpTo mark [] := by
  intro ⟨last, _⟩
  exact filled (List.suffix_nil.mp last)

theorem upTo_cons_iff (filled : mark ≠ []) :
    UpTo mark (c :: text) ↔ mark = c :: text ∨ ¬ mark <+: c :: text ∧ UpTo mark text := by
  constructor
  · intro ⟨last, first⟩
    rcases List.suffix_cons_iff.mp last with whole | later
    · exact .inl whole
    · have shorter := later.length_le
      obtain ⟨d, rest, rfl⟩ := List.exists_cons_of_length_pos (Nat.lt_of_lt_of_le (List.length_pos_iff.mpr filled) shorter)
      rw [List.dropLast_cons_cons, List.infix_cons_iff, not_or] at first
      refine .inr ⟨fun starts => first.1 ?_, later, first.2⟩
      exact List.prefix_of_prefix_length_le starts (List.dropLast_prefix (c :: d :: rest)) (by simpa using shorter)
  · rintro (rfl | ⟨starts, last, first⟩)
    · refine ⟨List.suffix_rfl, fun inside => ?_⟩
      have shorter := inside.length_le
      rw [List.length_dropLast, List.length_cons] at shorter
      omega
    · refine ⟨last.trans (List.suffix_cons c text), fun inside => ?_⟩
      cases text with
      | nil => exact filled (List.suffix_nil.mp last)
      | cons d rest =>
        rw [List.dropLast_cons_cons, List.infix_cons_iff] at inside
        rcases inside with begins | later
        · exact starts (begins.trans (List.dropLast_prefix (c :: d :: rest)))
        · exact first later

/-- A comment ends at a slash behind a star. Any other character is passed over, and only whether
it is a star matters. -/
theorem upTo_star_iff {star : Bool} :
    UpTo ['*', '/'] (if star then '*' :: c :: text else c :: text) ↔
      if star ∧ c = '/' then text = [] else UpTo ['*', '/'] (if c = '*' then '*' :: text else text) := by
  have single : UpTo ['*', '/'] (c :: text) ↔ UpTo ['*', '/'] (if c = '*' then '*' :: text else text) := by
    split
    next same => rw [same]
    next other => simp [upTo_cons_iff, List.cons_prefix_cons, Ne.symm other]
  cases star with
  | false => simpa using single
  | true =>
    rw [if_pos rfl, upTo_cons_iff (by simp)]
    by_cases slash : c = '/'
    · simp [slash, eq_comm]
    · simp [slash, Ne.symm slash, single]

end

/-! Balanced text is passed over, whatever brackets are open before it. -/

section

variable {behind stack : List Char}

theorem passes_lineComment {body : List Char} (ends : UpTo ['\n'] body) :
    Passes behind (.lineComment, stack) body (.code, stack) := by
  induction body with
  | nil => exact absurd ends (not_upTo_nil (by simp))
  | cons c body ih =>
    rcases (upTo_cons_iff (by simp)).mp ends with same | ⟨other, later⟩
    · cases same
      exact .cons rfl (.nil _)
    · have inside : c ≠ '\n' := by
        rintro rfl
        exact other ⟨body, rfl⟩
      exact .cons (by rw [advance, if_neg inside]) (ih later)

/-- A star right before the text may be the one that ends the comment. -/
theorem passes_comment {star : Bool} {body : List Char} (ends : UpTo ['*', '/'] (if star then '*' :: body else body)) :
    Passes behind (.comment star, stack) body (.code, stack) := by
  induction body generalizing star with
  | nil => cases star <;> simp [UpTo, List.suffix_cons_iff] at ends
  | cons c body ih =>
    have later := upTo_star_iff.mp ends
    by_cases last : star ∧ c = '/'
    · obtain rfl : body = [] := by simpa [last] using later
      exact .cons (by rw [advance, if_pos last]) (.nil _)
    · rw [if_neg last] at later
      exact .cons (by rw [advance, if_neg last]) (ih (by simpa using later))

theorem Balanced.passes {text : List Char} (balanced : Balanced behind text) (stack : List Char) :
    Passes behind (.code, stack) text (.code, stack) := by
  induction balanced generalizing stack with
  | nil => exact .nil _
  | plain plain _ later => exact .cons (CodeStep.plain plain).advance_eq (later stack)
  | literal isQuote literal _ later =>
    refine .cons (CodeStep.quote isQuote).advance_eq (.append (passes_literal ?_ literal) (later stack))
    rintro rfl
    exact absurd isQuote (by decide)
  | lineComment ends _ later =>
    exact .cons rfl (.cons rfl (.append (passes_lineComment ends) (later stack)))
  | comment ends _ later =>
    exact .cons rfl (.cons rfl (.append (passes_comment ends) (later stack)))
  | group pair _ _ enclosed later =>
    exact .cons (CodeStep.opener pair).advance_eq
      (.append (enclosed _) (.cons (CodeStep.closer pair).advance_eq (later stack)))

end

/-! What is passed over is balanced. -/

/-- Text that closes the open brackets one after the other, with balanced text before each of
them and behind the last. -/
def Closes (behind : List Char) : (stack text : List Char) → Prop
  | [], text => Balanced behind text
  | opener :: stack, text => ∃ inner closer rest, text = inner ++ closer :: rest ∧ (opener, closer) ∈ brackets ∧
      Balanced (closer :: rest ++ behind) inner ∧ Closes behind stack rest

/-- Text that ends a literal or comment which is open before it. -/
def Finishes : Context → List Char → Prop
  | .code, text => text = []
  | .quoted quote, text => Token.Literal quote text
  | .escaped quote, text => ∃ c body, text = c :: body ∧ Token.Literal quote body
  | .lineComment, text => UpTo ['\n'] text
  | .commentStar, text => ∃ c body, text = c :: body ∧ UpTo ['*', '/'] body
  | .comment star, text => UpTo ['*', '/'] (if star then '*' :: text else text)

def Completes (behind : List Char) (place : Place) (text : List Char) : Prop :=
  ∃ first rest, text = first ++ rest ∧ Finishes place.1 first ∧ Closes behind place.2 rest

section

variable {behind text : List Char}

theorem Closes.prepend {stack rest : List Char} (first : List Char)
    (balanced : ∀ inner after, inner ++ after = rest ++ behind → Balanced after inner → Balanced after (first ++ inner))
    (closes : Closes behind stack rest) : Closes behind stack (first ++ rest) := by
  cases stack with
  | nil => exact balanced rest behind rfl closes
  | cons opener stack =>
    obtain ⟨inner, closer, after, rfl, pair, enclosed, later⟩ := closes
    refine ⟨first ++ inner, closer, after, by simp, pair, balanced inner _ (by simp) enclosed, later⟩

theorem Finishes.cons {context later : Context} {next : Option Char} {c : Char} {stack outer : List Char}
    (inside : context ≠ .code) (step : advance next c (context, stack) = .ok (some (later, outer)))
    (finishes : Finishes later text) : Finishes context (c :: text) ∧ outer = stack := by
  cases context with
  | code => exact absurd rfl inside
  | quoted quote =>
    cases step
    refine ⟨?_, rfl⟩
    split at finishes
    next escape =>
      obtain ⟨d, body, rfl, literal⟩ := finishes
      rw [escape]
      exact .escape literal
    next unescaped =>
      split at finishes
      next same =>
        cases finishes
        rw [same]
        exact .close
      next other => exact .plain other unescaped finishes
  | escaped quote =>
    cases step
    exact ⟨⟨c, text, rfl, finishes⟩, rfl⟩
  | lineComment =>
    cases step
    refine ⟨(upTo_cons_iff (by simp)).mpr ?_, rfl⟩
    split at finishes
    next same =>
      cases finishes
      rw [same]
      exact .inl rfl
    next other =>
      refine .inr ⟨?_, finishes⟩
      simpa [List.cons_prefix_cons] using Ne.symm other
  | commentStar =>
    cases step
    exact ⟨⟨c, text, rfl, finishes⟩, rfl⟩
  | comment star =>
    cases step
    refine ⟨upTo_star_iff.mpr ?_, rfl⟩
    split at finishes
    next last =>
      rw [if_pos last]
      exact finishes
    next unfinished =>
      rw [if_neg unfinished]
      simpa [Finishes] using finishes

theorem Completes.cons {place later : Place} {c : Char}
    (step : advance (text ++ behind).head? c place = .ok (some later)) (completes : Completes behind later text) :
    Completes behind place (c :: text) := by
  obtain ⟨context, stack⟩ := place
  obtain ⟨first, rest, rfl, finishes, closes⟩ := completes
  by_cases code : context = .code
  · subst code
    refine ⟨[], c :: (first ++ rest), rfl, rfl, ?_⟩
    cases codeStep_of_advance step with
    | quote isQuote =>
      exact closes.prepend (c :: first) fun inner after _ balanced => .literal isQuote finishes balanced
    | lineComment slash =>
      cases first with
      | nil => exact absurd finishes (not_upTo_nil (by simp))
      | cons d body =>
        obtain rfl := Option.some.inj slash
        obtain same | ⟨_, ends⟩ := (upTo_cons_iff (by simp)).mp finishes
        · cases same
        · exact closes.prepend ('/' :: '/' :: body) fun inner after _ balanced => .lineComment ends balanced
    | comment star =>
      obtain ⟨d, body, rfl, ends⟩ := finishes
      obtain rfl := Option.some.inj star
      exact closes.prepend ('/' :: '*' :: body) fun inner after _ balanced => .comment ends balanced
    | opener =>
      obtain rfl := finishes
      obtain ⟨inside, closer, rest, rfl, pair, enclosed, closes⟩ := closes
      have whole := closes.prepend (c :: inside ++ [closer]) fun inner after same balanced => by
        rw [List.append_assoc, List.singleton_append]
        exact .group pair (by rwa [List.cons_append, same]) balanced
      simpa using whole
    | closer pair =>
      obtain rfl := finishes
      exact ⟨[], c, rest, rfl, pair, .nil, closes⟩
    | plain plain =>
      obtain rfl := finishes
      exact closes.prepend [c] fun inner after same balanced => .plain (same ▸ plain) balanced
  · obtain ⟨whole, rfl⟩ := finishes.cons code step
    exact ⟨c :: first, rest, rfl, whole, closes⟩

theorem Passes.completes {place : Place} (passes : Passes behind place text (.code, [])) :
    Completes behind place text := by
  generalize ends : ((.code, []) : Place) = last at passes
  induction passes with
  | nil =>
    rw [← ends]
    exact ⟨[], [], rfl, rfl, .nil⟩
  | cons step _ ih => exact (ih ends).cons step

theorem Passes.balanced (passes : Passes behind (.code, []) text (.code, [])) : Balanced behind text := by
  obtain ⟨first, rest, rfl, finishes, closes⟩ := passes.completes
  obtain rfl := finishes
  exact closes

end

/-! The search as a whole. -/

theorem passes_of_untilBrace {context : Context} {stack text source rest : List Char}
    (found : untilBrace context stack text = .ok (source, rest)) :
    Passes ('\x7d' :: rest) (context, stack) source (.code, []) := by
  induction text generalizing context stack source with
  | nil => simp [untilBrace] at found
  | cons c text ih =>
    have whole := (untilBrace_eq_ok found).1
    rw [untilBrace_cons] at found
    obtain ⟨behind, step, found⟩ := bind_eq_ok found
    cases behind with
    | none =>
      cases found
      rw [(advance_eq_none step).1]
      exact .nil _
    | some behind =>
      obtain ⟨body, inner, rfl⟩ := prepend_eq_ok_iff.mp found
      cases whole
      exact .cons step (ih inner)

/-- The expression before a brace that is found is balanced, and behind balanced text the brace is
found. -/
theorem untilBrace_eq_ok_iff {text source rest : List Char} :
    untilBrace .code [] text = .ok (source, rest) ↔ text = source ++ '\x7d' :: rest ∧ Balanced ('\x7d' :: rest) source := by
  constructor
  · intro found
    exact ⟨(untilBrace_eq_ok found).1, (passes_of_untilBrace found).balanced⟩
  · rintro ⟨rfl, balanced⟩
    exact (balanced.passes []).untilBrace_eq

/-- The text before the index, counted in bytes, is balanced, and a closing brace stands there. -/
def EndsAt (text : String) (index : Nat) : Prop :=
  ∃ source rest : String, text = source ++ "\x7d" ++ rest ∧ source.utf8ByteSize = index ∧
    Balanced ('\x7d' :: rest.toList) source.toList

theorem braceIndex_eq_ok_iff {text : String} {index : Nat} : braceIndex text = .ok index ↔ EndsAt text index := by
  constructor
  · intro found
    obtain ⟨⟨source, rest⟩, search, size⟩ := Token.map_eq_ok.mp found
    obtain ⟨whole, balanced⟩ := untilBrace_eq_ok_iff.mp search
    refine ⟨String.ofList source, String.ofList rest, ?_, size, by simpa using balanced⟩
    apply String.toList_injective
    simpa using whole
  · rintro ⟨source, rest, rfl, rfl, balanced⟩
    have search : untilBrace .code [] (source ++ "\x7d" ++ rest).toList = .ok (source.toList, rest.toList) :=
      untilBrace_eq_ok_iff.mpr ⟨by simp, balanced⟩
    rw [braceIndex_of_untilBrace search, String.ofList_toList]

/-- The brace that is found stands right behind balanced text, and a brace there is found. There is
at most one such place in a text, and what stands behind it does not matter. -/
theorem brace_ends_balanced_text (text : String) (index : Nat) :
    (braceIndex text = .ok index ↔ EndsAt text index) ∧
      (∀ other, EndsAt text index → EndsAt text other → other = index) ∧
      ∀ source rest other : String, text = source ++ "\x7d" ++ rest → source.utf8ByteSize = index →
        braceIndex text = .ok index → braceIndex (source ++ "\x7d" ++ other) = .ok index := by
  refine ⟨braceIndex_eq_ok_iff, ?_, ?_⟩
  · intro other here there
    rw [← braceIndex_eq_ok_iff] at here there
    exact Except.ok.inj (there.symm.trans here)
  · rintro source rest other rfl rfl found
    have whole : source ++ "\x7d" ++ rest = String.ofList (source.toList ++ '\x7d' :: rest.toList) := by
      apply String.toList_injective
      simp
    have search : untilBrace .code [] (source.toList ++ '\x7d' :: rest.toList) = .ok (source.toList, rest.toList) := by
      apply untilBrace_of_braceIndex
      rw [← whole, String.ofList_toList]
      exact found
    have elsewhere : untilBrace .code [] (source ++ "\x7d" ++ other).toList = .ok (source.toList, other.toList) := by
      simpa using (untilBrace_eq_ok search).2 other.toList
    rw [braceIndex_of_untilBrace elsewhere, String.ofList_toList]

end NimTemplate.Interpolation
