/-! Text with expressions in it. `#` or `!` before an opening brace starts an expression, which
ends at the brace that closes it; brackets are matched in between, and those in string
literals and comments do not count. A backslash before the mark keeps it as text. -/

namespace NimTemplate

inductive BraceError where
  | mismatched (bracket : Char)
  | unclosed
deriving DecidableEq, Repr

def BraceError.message : BraceError → String
  | mismatched bracket => "Mismatched bracket: " ++ bracket.toString
  | unclosed => "The end of the string was reached with no closing bracket found."

inductive Segment where
  | text (s : String)
  | expr (source : String) (escape : Bool)
deriving DecidableEq, Repr

namespace Interpolation

/-- What surrounds a character of an expression. -/
inductive Context where
  | code
  | quoted (quote : Char)
  | escaped (quote : Char)
  | lineComment
  | commentStar
  | comment (star : Bool)
deriving DecidableEq, Repr

def isQuote (c : Char) : Bool := c == '\'' || c == '"' || c == '\x60'

def isOpening (c : Char) : Bool := c == '(' || c == '[' || c == '\x7b'

/-- The bracket that a closing one belongs to. -/
def opening? : Char → Option Char
  | ')' => some '('
  | ']' => some '['
  | '\x7d' => some '\x7b'
  | _ => none

/-- Puts a character before the expression found in the text behind it. -/
def prepend (c : Char) (found : Except BraceError (List Char × List Char)) :
    Except BraceError (List Char × List Char) :=
  found.map fun (source, rest) => (c :: source, rest)

/-- The expression before the closing brace, and the text behind the brace. The brackets that
are open are kept with the innermost first. -/
def untilBrace : Context → List Char → List Char → Except BraceError (List Char × List Char)
  | _, _, [] => .error .unclosed
  | .quoted quote, stack, c :: rest =>
    prepend c (untilBrace (if c = '\\' then .escaped quote else if c = quote then .code else .quoted quote)
      stack rest)
  | .escaped quote, stack, c :: rest => prepend c (untilBrace (.quoted quote) stack rest)
  | .lineComment, stack, c :: rest =>
    prepend c (untilBrace (if c = '\n' then .code else .lineComment) stack rest)
  | .commentStar, stack, c :: rest => prepend c (untilBrace (.comment false) stack rest)
  | .comment star, stack, c :: rest =>
    prepend c (untilBrace (if star ∧ c = '/' then .code else .comment (c = '*')) stack rest)
  | .code, stack, c :: rest =>
    if isQuote c then prepend c (untilBrace (.quoted c) stack rest)
    else if c = '/' ∧ rest.head? = some '/' then prepend c (untilBrace .lineComment stack rest)
    else if c = '/' ∧ rest.head? = some '*' then prepend c (untilBrace .commentStar stack rest)
    else if isOpening c then prepend c (untilBrace .code (c :: stack) rest)
    else match opening? c with
      | none => prepend c (untilBrace .code stack rest)
      | some bracket =>
        match stack with
        | [] => if c = '\x7d' then .ok ([], rest) else .error (.mismatched c)
        | innermost :: stack =>
          if innermost = bracket then prepend c (untilBrace .code stack rest)
          else .error (.mismatched c)

theorem prepend_eq_ok {c : Char} {found : Except BraceError (List Char × List Char)} {source rest : List Char}
    (same : prepend c found = .ok (source, rest)) : ∃ body, found = .ok (body, rest) := by
  rcases found with _ | ⟨body, left⟩
  · simp [prepend, Except.map] at same
  · simp only [prepend, Except.map, Except.ok.injEq, Prod.mk.injEq] at same
    exact ⟨body, by rw [same.2]⟩

theorem untilBrace_length {context : Context} {stack text source rest : List Char}
    (found : untilBrace context stack text = .ok (source, rest)) : rest.length < text.length := by
  fun_induction untilBrace context stack text generalizing source rest <;> grind [prepend_eq_ok]

/-- Where the closing brace stands, in bytes from the start. -/
def braceIndex (text : String) : Except BraceError Nat :=
  (untilBrace .code [] text.toList).map fun (source, _) => (String.ofList source).utf8ByteSize

/-- A run of characters as text, nothing where there are none. The run is in reverse. -/
def flush (run : List Char) : List Segment :=
  if run.isEmpty then [] else [.text (String.ofList run.reverse)]

def isMark (c : Char) : Bool := c == '#' || c == '!'

/-- The segments of a text, after a run of plain characters before it. -/
def split (run : List Char) (text : List Char) : Except BraceError (List Segment) :=
  match text with
  | [] => .ok (flush run)
  | c :: rest =>
    match c, rest with
    | '\\', mark :: '\x7b' :: rest =>
      if isMark mark then do
        let segments ← split [] rest
        pure (flush run ++ .text (String.ofList [mark, '\x7b']) :: segments)
      else split ('\\' :: run) (mark :: '\x7b' :: rest)
    | mark, '\x7b' :: rest =>
      if isMark mark then
        match _found : untilBrace .code [] rest with
        | .error error => .error error
        | .ok (source, left) => do
          let segments ← split [] left
          pure (flush run ++ .expr (String.ofList source) (mark == '#') :: segments)
      else split (mark :: run) ('\x7b' :: rest)
    | c, rest => split (c :: run) rest
termination_by text.length
decreasing_by
  all_goals try (simp only [List.length_cons]; omega)
  have shorter := untilBrace_length _found
  simp only [List.length_cons]
  omega

def segments (text : String) : Except BraceError (List Segment) := split [] text.toList

end Interpolation

end NimTemplate
