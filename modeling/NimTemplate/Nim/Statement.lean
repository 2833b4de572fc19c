import NimTemplate.Nim.Quotes
import NimTemplate.Text.Basic

/-! Statements of a template as Nim statements. The heads of control flow get an explicit
truth test and end in a colon. -/

namespace NimTemplate.Nim

def isSpace (c : Char) : Bool := c == ' '

/-- The text up to, and without, the first line break, and the text from there on. -/
def firstLine (text : List Char) : List Char × List Char :=
  (text.takeWhile (· ≠ '\n'), text.dropWhile (· ≠ '\n'))

/-- Cuts at the last occurrence of a character after which the rest is accepted. -/
def splitLast? {α : Type} (mark : Char) (accept : List Char → Option α) : List Char → Option (List Char × α)
  | [] => none
  | c :: rest =>
    match splitLast? mark accept rest with
    | some (before, found) => some (c :: before, found)
    | none => if c = mark then (accept rest).map ([], ·) else none

/-- Drops a semicolon at the end, with the spaces behind it. -/
def dropTerminator (text : List Char) : List Char :=
  match text.reverse.dropWhile isSpace with
  | ';' :: rest => rest.reverse
  | _ => text

/-- The text behind a word that starts the given one. -/
def behind? (word : String) (text : List Char) : Option (List Char) :=
  if word.toList.isPrefixOf text then some (text.drop word.toList.length) else none

/-- The text behind at least one space. -/
def behindSpaces? : List Char → Option (List Char)
  | ' ' :: rest => some (rest.dropWhile isSpace)
  | _ => none

/-- A condition in parentheses that ends at the last closing one of its line, with the text
behind it. -/
def condition? : List Char → Option (List Char × List Char)
  | '(' :: text => (splitLast? ')' some (firstLine text).1).map fun (condition, rest) =>
      (condition, rest ++ (firstLine text).2)
  | _ => none

/-- A Nim head that tests the truth of a condition. -/
def head (word : String) (condition rest : List Char) : List Char :=
  word.toList ++ " truthiness(".toList ++ condition ++ "):".toList ++ rest

def whileHead? (text : List Char) : Option (List Char) :=
  (behind? "while " text).map fun rest => head "while" (firstLine rest).1 (firstLine rest).2

def ifHead? (text : List Char) : Option (List Char) := do
  let (condition, rest) ← condition? (← behindSpaces? (← behind? "if" text))
  pure (head "if" condition rest)

def elifHead? (text : List Char) : Option (List Char) := do
  let inner ← behind? "if" (← behindSpaces? (← behind? "else" text))
  let (condition, rest) ← condition? (inner.dropWhile isSpace)
  pure (head "elif" condition rest)

def elseHead? (text : List Char) : Option (List Char) := do
  let rest ← behind? "else" text
  if rest.all isSpace then some "else:".toList else none

/-- No two of the heads start the same text. -/
def controlHead (text : List Char) : List Char :=
  (whileHead? text <|> ifHead? text <|> elifHead? text <|> elseHead? text).getD text

/-- Writes the first exclamation mark as a word, also where it is part of an operator. -/
def negateFirst : List Char → List Char
  | [] => []
  | c :: rest => if c = '!' then "not ".toList ++ rest else c :: negateFirst rest

def statement (source : String) : String :=
  String.ofList (negateFirst (controlHead (dropTerminator (requote (Text.trimStart source.toList)))))

end NimTemplate.Nim
