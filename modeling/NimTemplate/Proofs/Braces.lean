import NimTemplate.Proofs.Basic
import NimTemplate.Template.Interpolation

/-! The search for the brace that closes an expression, one character at a time. A step is
decided by the character and the one behind it, and where the search ends, nothing behind the
brace has been looked at. -/

namespace NimTemplate.Interpolation

/-- What surrounds the next character, and the open brackets with the innermost first. -/
abbrev Place := Context × List Char

/-- The place behind a character, given the character that follows it. There is none behind the
brace that closes the expression. -/
def advance (next : Option Char) (c : Char) : Place → Except BraceError (Option Place)
  | (.quoted quote, stack) =>
    .ok (some (if c = '\\' then .escaped quote else if c = quote then .code else .quoted quote, stack))
  | (.escaped quote, stack) => .ok (some (.quoted quote, stack))
  | (.lineComment, stack) => .ok (some (if c = '\n' then .code else .lineComment, stack))
  | (.commentStar, stack) => .ok (some (.comment false, stack))
  | (.comment star, stack) => .ok (some (if star ∧ c = '/' then .code else .comment (c = '*'), stack))
  | (.code, stack) =>
    if isQuote c then .ok (some (.quoted c, stack))
    else if c = '/' ∧ next = some '/' then .ok (some (.lineComment, stack))
    else if c = '/' ∧ next = some '*' then .ok (some (.commentStar, stack))
    else if isOpening c then .ok (some (.code, c :: stack))
    else match opening? c with
      | none => .ok (some (.code, stack))
      | some bracket =>
        match stack with
        | [] => if c = '\x7d' then .ok none else .error (.mismatched c)
        | innermost :: stack =>
          if innermost = bracket then .ok (some (.code, stack)) else .error (.mismatched c)

/-- The search goes on behind a character. -/
def proceed (c : Char) (rest : List Char) : Option Place → Except BraceError (List Char × List Char)
  | none => .ok ([], rest)
  | some (context, stack) => prepend c (untilBrace context stack rest)

theorem untilBrace_cons (context : Context) (stack : List Char) (c : Char) (rest : List Char) :
    untilBrace context stack (c :: rest) = advance rest.head? c (context, stack) >>= proceed c rest := by
  cases context with
  | quoted | escaped | lineComment | commentStar | comment =>
    rw [untilBrace]
    rfl
  | code =>
    rw [untilBrace, advance]
    by_cases quote : isQuote c
    · rw [if_pos quote, if_pos quote]
      rfl
    rw [if_neg quote, if_neg quote]
    by_cases line : c = '/' ∧ rest.head? = some '/'
    · rw [if_pos line, if_pos line]
      rfl
    rw [if_neg line, if_neg line]
    by_cases comment : c = '/' ∧ rest.head? = some '*'
    · rw [if_pos comment, if_pos comment]
      rfl
    rw [if_neg comment, if_neg comment]
    by_cases bracket : isOpening c
    · rw [if_pos bracket, if_pos bracket]
      rfl
    rw [if_neg bracket, if_neg bracket]
    cases opening? c with
    | none => rfl
    | some bracket =>
      cases stack with
      | nil =>
        dsimp only
        split <;> rfl
      | cons innermost stack =>
        dsimp only
        split <;> rfl

theorem advance_eq_none {next : Option Char} {c : Char} {place : Place} (closed : advance next c place = .ok none) :
    place = (.code, []) ∧ c = '\x7d' := by
  obtain ⟨context, stack⟩ := place
  cases context with
  | quoted | escaped | lineComment | commentStar | comment => cases closed
  | code =>
    rw [advance] at closed
    split at closed
    next => cases closed
    split at closed
    next => cases closed
    split at closed
    next => cases closed
    split at closed
    next => cases closed
    split at closed
    next => cases closed
    next bracket _ =>
      cases stack with
      | nil =>
        dsimp only at closed
        split at closed
        next brace => exact ⟨rfl, brace⟩
        next => cases closed
      | cons innermost stack =>
        dsimp only at closed
        split at closed <;> cases closed

theorem advance_brace (next : Option Char) : advance next '\x7d' (.code, []) = .ok none := rfl

theorem prepend_eq_ok_iff {c : Char} {found : Except BraceError (List Char × List Char)} {source rest : List Char} :
    prepend c found = .ok (source, rest) ↔ ∃ body, found = .ok (body, rest) ∧ source = c :: body := by
  rcases found with error | ⟨body, left⟩
  · simp [prepend, Except.map]
  · constructor
    · intro same
      cases same
      exact ⟨body, rfl, rfl⟩
    · rintro ⟨other, same, rfl⟩
      cases same
      rfl

/-- The text is the expression, the brace and what is behind, and behind the brace there could
be anything else. -/
theorem untilBrace_eq_ok {context : Context} {stack text source rest : List Char}
    (found : untilBrace context stack text = .ok (source, rest)) :
    text = source ++ '\x7d' :: rest ∧
      ∀ other, untilBrace context stack (source ++ '\x7d' :: other) = .ok (source, other) := by
  induction text generalizing context stack source with
  | nil => simp [untilBrace] at found
  | cons c text ih =>
    rw [untilBrace_cons] at found
    obtain ⟨behind, step, found⟩ := bind_eq_ok found
    cases behind with
    | none =>
      cases found
      obtain ⟨start, rfl⟩ := advance_eq_none step
      cases start
      refine ⟨rfl, fun other => ?_⟩
      rw [List.nil_append, untilBrace_cons, advance_brace]
      rfl
    | some behind =>
      obtain ⟨body, inner, rfl⟩ := prepend_eq_ok_iff.mp found
      obtain ⟨same, elsewhere⟩ := ih inner
      refine ⟨by rw [same, List.cons_append], fun other => ?_⟩
      -- The character behind the first one is in the expression, or the brace.
      have next : (body ++ '\x7d' :: other).head? = text.head? := by
        rw [same]
        cases body <;> rfl
      rw [List.cons_append, untilBrace_cons, next, step]
      exact prepend_eq_ok_iff.mpr ⟨body, elsewhere other, rfl⟩

theorem braceIndex_of_untilBrace {text : String} {source rest : List Char}
    (found : untilBrace .code [] text.toList = .ok (source, rest)) :
    braceIndex text = .ok (String.ofList source).utf8ByteSize := by
  rw [braceIndex, found]
  rfl

/-- Two beginnings of one text that have the same size in bytes are the same. -/
theorem eq_of_size_eq {one other left right : List Char} (same : one ++ left = other ++ right)
    (size : (String.ofList one).utf8ByteSize = (String.ofList other).utf8ByteSize) : one = other ∧ left = right := by
  induction one generalizing other with
  | nil =>
    obtain rfl : other = [] := by simpa using size.symm
    exact ⟨rfl, same⟩
  | cons c one ih =>
    cases other with
    | nil =>
      have positive := c.utf8Size_pos
      simp only [String.ofList_cons, String.utf8ByteSize_append, String.utf8ByteSize_singleton, String.ofList_nil,
        String.utf8ByteSize_empty] at size
      omega
    | cons d other =>
      simp only [List.cons_append, List.cons.injEq] at same
      obtain ⟨rfl, same⟩ := same
      obtain ⟨rfl, rfl⟩ := ih same (by simpa [String.ofList_cons] using size)
      exact ⟨rfl, rfl⟩

theorem untilBrace_of_braceIndex {source left : List Char}
    (closed : braceIndex (String.ofList (source ++ '\x7d' :: left)) = .ok (String.ofList source).utf8ByteSize) :
    untilBrace .code [] (source ++ '\x7d' :: left) = .ok (source, left) := by
  rw [braceIndex, String.toList_ofList] at closed
  cases found : untilBrace .code [] (source ++ '\x7d' :: left) with
  | error error =>
    rw [found] at closed
    cases closed
  | ok pair =>
    obtain ⟨body, rest⟩ := pair
    rw [found] at closed
    obtain ⟨rfl, behind⟩ := eq_of_size_eq (untilBrace_eq_ok found).1.symm (Except.ok.inj closed)
    cases behind
    rfl

theorem untilBrace_eq_error_iff {text : List Char} {error : BraceError} :
    untilBrace .code [] text = .error error ↔ braceIndex (String.ofList text) = .error error := by
  rw [braceIndex, String.toList_ofList]
  cases untilBrace .code [] text with
  | error cause => simp [Except.map]
  | ok pair => simp [Except.map]

end NimTemplate.Interpolation
