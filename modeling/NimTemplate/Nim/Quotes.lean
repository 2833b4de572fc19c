/-! Expressions as Nim code. String literals in either quote become literals in double quotes, the
only ones Nim has. -/

namespace NimTemplate.Nim

/-- Puts a backslash before each double quote that has none. -/
def escapeQuotes (previous : Char) : List Char → List Char
  | [] => []
  | c :: rest =>
    if c = '"' ∧ previous ≠ '\\' then '\\' :: c :: escapeQuotes c rest else c :: escapeQuotes c rest

/-- The content of a literal and the text behind it, given the text behind its opening quote.
A quote that a second one follows belongs to the content, and so does one behind a backslash,
unless no literal is found that way. -/
def literal? (quote : Char) (text : List Char) : Option (List Char × List Char) :=
  let content := text.takeWhile (· ≠ quote)
  match text.dropWhile (· ≠ quote) with
  | [] => none
  | _ :: rest =>
    if rest.head? = some quote then some (content ++ [quote], rest.tail)
    else if content.getLast? = some '\\' then none
    else some (content, rest)

theorem literal?_length {quote : Char} {text content rest : List Char}
    (found : literal? quote text = some (content, rest)) : rest.length ≤ text.length := by
  have shorter := (List.dropWhile_sublist (l := text) (· ≠ quote)).length_le
  unfold literal? at found
  grind

def requote (text : List Char) : List Char :=
  match text with
  | [] => []
  | c :: rest =>
    if c = '\'' ∨ c = '"' then
      match _found : literal? c rest with
      | some (content, left) =>
        '"' :: (if c = '\'' then escapeQuotes '\x00' content else content) ++ '"' :: requote left
      | none => c :: requote rest
    else c :: requote rest
termination_by text.length
decreasing_by
  · have shorter := literal?_length _found
    simp only [List.length_cons]
    omega
  all_goals simp

/-- Every string literal in double quotes. -/
def normalizeQuotes (source : String) : String := String.ofList (requote source.toList)

/-! Attribute values join their parts with `&`, and turn a part in parentheses into text. -/

def ampersands : List Char → List Char
  | ' ' :: '+' :: ' ' :: rest => ' ' :: '&' :: ' ' :: ampersands rest
  | c :: rest => c :: ampersands rest
  | [] => []

def stringified : List Char → List Char
  | ' ' :: '&' :: ' ' :: '(' :: rest => ' ' :: '&' :: ' ' :: '$' :: '(' :: stringified rest
  | c :: rest => c :: stringified rest
  | [] => []

def attributeValue (source : String) : String :=
  String.ofList ((stringified (ampersands source.toList)).map fun c => if c = '\'' then '"' else c)

end NimTemplate.Nim
