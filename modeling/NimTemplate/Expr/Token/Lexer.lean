import NimTemplate.Expr.Error
import NimTemplate.Text.Letter
import NimTemplate.Value.Number

/-! Cutting an expression into tokens. Every reader below returns the token and the text
after it, which is never longer than what it was given. -/

namespace NimTemplate.Token

def isNameStart (c : Char) : Bool := Text.isLetter c || c == '_' || c == '$'

def isNamePart (c : Char) : Bool := Text.isLetter c || Text.isNumeric c || c == '_' || c == '$'

/-- A hexadecimal literal, given the text behind its mark. -/
def readHex (text : List Char) : Except EvalError (Token × List Char) :=
  let digits := text.takeWhile Text.isHexDigit
  if digits.isEmpty then .error (.malformed .emptyHex)
  else if Text.hexNumber digits < wordSize then
    .ok (.number (Double.ofNat (Text.hexNumber digits)), text.dropWhile Text.isHexDigit)
  else .error (.malformed .hexRange)

/-- The longest run of characters that can stand in a numeral: digits, points, one mark of a
power of ten and a sign right behind a mark. -/
def numeralSpan (marked : Bool) (previous : Char) : List Char → List Char × List Char
  | [] => ([], [])
  | c :: rest =>
    if c.isDigit || c == '.' || (!marked && Decimal.isMark c) ||
        ((c == '+' || c == '-') && Decimal.isMark previous) then
      let span := numeralSpan (marked || Decimal.isMark c) c rest
      (c :: span.1, span.2)
    else ([], c :: rest)

/-- A zero before another digit makes a literal octal, and then all of it has to be. -/
def isOctalForm : List Char → Bool
  | '0' :: c :: _ => c.isDigit
  | _ => false

def isOctalDigit (c : Char) : Bool := '0' ≤ c && c ≤ '7'

def readOctal (text : List Char) : Except EvalError Token :=
  if !text.all isOctalDigit then .error (.unsupported (.leadingZero (String.ofList text)))
  else if Nat.ofDigitChars 8 text 0 < wordSize then
    .ok (.number (Double.ofNat (Nat.ofDigitChars 8 text 0)))
  else .error (.malformed .octalRange)

/-- The number a span of numeral characters stands for. -/
def ofNumeral (text : List Char) : Except EvalError Token :=
  if isOctalForm text then readOctal text
  else match Decimal.unsigned? text with
    | some decimal => .ok (.number (Double.ofMagnitude false decimal.magnitude))
    | none => .error (.malformed (.number (String.ofList text)))

def readNumber (text : List Char) : Except EvalError (Token × List Char) :=
  match text with
  | '0' :: 'x' :: rest => readHex rest
  | '0' :: 'X' :: rest => readHex rest
  | _ =>
    let span := numeralSpan false '\x00' text
    (ofNumeral span.1).map (·, span.2)

/-- The character a letter stands for behind a backslash. -/
def escaped : Char → Char
  | 'n' => '\n'
  | 't' => '\t'
  | 'r' => '\r'
  | 'b' => '\x08'
  | 'f' => '\x0c'
  | 'v' => '\x0b'
  | '0' => '\x00'
  | c => c

/-- The character whose code point the digits give. -/
def codePoint (digits : List Char) : Except EvalError Char :=
  if !digits.all Text.isHexDigit then .error (.malformed .escape)
  else if (Text.hexNumber digits).isValidChar then .ok (Char.ofNat (Text.hexNumber digits))
  else .error (.malformed .codePoint)

/-- The content of a string literal, given the text behind its opening quote. -/
def stringBody (quote : Char) : List Char → Except EvalError (List Char × List Char)
  | [] => .error (.malformed .openString)
  | c :: rest =>
    if c = quote then .ok ([], rest)
    else if c = '\n' then .error (.malformed .newlineInString)
    else if c ≠ '\\' then (stringBody quote rest).map fun (body, left) => (c :: body, left)
    else match rest with
      | [] => .error (.malformed .openEscape)
      | '\n' :: rest => stringBody quote rest
      | 'x' :: a :: b :: rest =>
        match codePoint [a, b] with
        | .error error => .error error
        | .ok c => (stringBody quote rest).map fun (body, left) => (c :: body, left)
      | 'u' :: a :: b :: c :: d :: rest =>
        match codePoint [a, b, c, d] with
        | .error error => .error error
        | .ok c => (stringBody quote rest).map fun (body, left) => (c :: body, left)
      | c :: rest =>
        if c = 'x' ∨ c = 'u' then .error (.malformed .escape)
        else (stringBody quote rest).map fun (body, left) => (escaped c :: body, left)

def readPunct (text : List Char) : Option (Punct × List Char) :=
  (Punct.all.find? fun p => p.text.toList.isPrefixOf text).map fun p =>
    (p, text.drop p.text.toList.length)

/-- A digit, or a point right before one. -/
def startsNumber (c : Char) (rest : List Char) : Bool :=
  c.isDigit || (c == '.' && rest.head?.any Char.isDigit)

/-- The token that starts with the given character. -/
def read (c : Char) (rest : List Char) : Except EvalError (Token × List Char) :=
  if startsNumber c rest then readNumber (c :: rest)
  else if c = '"' ∨ c = '\'' then
    (stringBody c rest).map fun (body, left) => (.text (String.ofList body), left)
  else if isNameStart c then
    .ok (.name (String.ofList (c :: rest.takeWhile isNamePart)), rest.dropWhile isNamePart)
  else match readPunct (c :: rest) with
    | some (p, left) => .ok (.punct p, left)
    | none => .error (.malformed (.character c))

theorem map_eq_ok {ε α β : Type} {f : α → β} {result : Except ε α} {b : β} :
    result.map f = .ok b ↔ ∃ a, result = .ok a ∧ f a = b := by
  cases result <;> simp [Except.map]

theorem numeralSpan_length (marked : Bool) (previous : Char) (text : List Char) :
    (numeralSpan marked previous text).2.length ≤ text.length := by
  induction text generalizing marked previous with
  | nil => simp [numeralSpan]
  | cons c rest ih =>
    unfold numeralSpan
    split
    · exact Nat.le_succ_of_le (ih _ _)
    · exact Nat.le_refl _

theorem stringBody_length {quote : Char} {text body left : List Char}
    (done : stringBody quote text = .ok (body, left)) : left.length < text.length := by
  fun_induction stringBody quote text generalizing body left <;> grind [map_eq_ok]

theorem readPunct_length {text left : List Char} {p : Punct} (found : readPunct text = some (p, left)) :
    left.length < text.length := by
  obtain ⟨q, member, same⟩ := Option.map_eq_some_iff.mp found
  obtain ⟨rfl, rfl⟩ := Prod.mk.inj same
  have fits : q.text.toList.isPrefixOf text = true := by simpa using List.find?_some member
  have inside := (List.isPrefixOf_iff_prefix.mp fits).length_le
  have filled : 0 < q.text.toList.length := by cases q <;> decide
  simp only [List.length_drop]
  omega

theorem readHex_length {text left : List Char} {token : Token} (done : readHex text = .ok (token, left)) :
    left.length ≤ text.length := by
  have shorter := (List.dropWhile_sublist (l := text) Text.isHexDigit).length_le
  grind [readHex]

theorem readNumber_length {c : Char} {rest left : List Char} {token : Token} (starts : startsNumber c rest)
    (done : readNumber (c :: rest) = .ok (token, left)) : left.length ≤ rest.length := by
  have accepted : c.isDigit || c == '.' := by grind [startsNumber]
  have taken : (numeralSpan false '\x00' (c :: rest)).2 = (numeralSpan (Decimal.isMark c) c rest).2 := by
    rw [numeralSpan]
    simp [accepted]
  have shorter := numeralSpan_length (Decimal.isMark c) c rest
  unfold readNumber at done
  split at done
  next found => grind [readHex_length done]
  next found => grind [readHex_length done]
  next =>
    obtain ⟨found, _, same⟩ := map_eq_ok.mp done
    obtain ⟨_, rfl⟩ := Prod.mk.inj same
    rw [taken]
    exact shorter

theorem read_length {c : Char} {rest left : List Char} {token : Token}
    (done : read c rest = .ok (token, left)) : left.length ≤ rest.length := by
  unfold read at done
  split at done
  next starts => exact readNumber_length starts done
  split at done
  next =>
    obtain ⟨⟨body, text⟩, found, same⟩ := map_eq_ok.mp done
    obtain ⟨_, rfl⟩ := Prod.mk.inj same
    exact Nat.le_of_lt (stringBody_length found)
  split at done
  next =>
    obtain ⟨_, rfl⟩ := Prod.mk.inj (Except.ok.inj done)
    exact (List.dropWhile_sublist isNamePart).length_le
  split at done
  next p text found =>
    obtain ⟨_, rfl⟩ := Prod.mk.inj (Except.ok.inj done)
    exact Nat.le_of_lt_succ (readPunct_length found)
  next => cases done

/-- The tokens of a whole text, blanks between them left out. -/
def all (text : List Char) : Except EvalError (List Token) :=
  match _nonblank : Text.trimStart text with
  | [] => .ok []
  | c :: rest =>
    match _done : read c rest with
    | .error error => .error error
    | .ok (token, left) => (all left).map (token :: ·)
termination_by text.length
decreasing_by
  have shorter := read_length _done
  have trimmed : (Text.trimStart text).length ≤ text.length := (List.dropWhile_sublist _).length_le
  simp only [_nonblank, List.length_cons] at trimmed
  omega

end NimTemplate.Token
