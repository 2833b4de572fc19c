import NimTemplate.Nim.Statement

/-! Conditional operators as Nim's conditional expressions. There are three forms, by which of
the branches stand in parentheses; each is tried in turn on what the one before has left, and
changes the first line it fits. In a line the condition reaches as far right as it can. -/

namespace NimTemplate.Nim

/-- As `splitLast?`, with at least one character before the cut. -/
def splitInner? {α : Type} (mark : Char) (accept : List Char → Option α) : List Char → Option (List Char × α)
  | [] => none
  | c :: rest => (splitLast? mark accept rest).map fun (before, found) => (c :: before, found)

def nonempty? (text : List Char) : Option (List Char) := if text.isEmpty then none else some text

/-- Applies a change to the first line that admits it. The change is given the line and all
that follows it, and yields both. -/
def changeLine (change : List Char → List Char → Option (List Char)) (text : List Char) : List Char :=
  match change (firstLine text).1 (firstLine text).2 with
  | some changed => changed
  | none =>
    match _rest : (firstLine text).2 with
    | [] => text
    | c :: rest => (firstLine text).1 ++ c :: changeLine change rest
termination_by text.length
decreasing_by
  have shorter : (firstLine text).2.length ≤ text.length := (List.dropWhile_sublist _).length_le
  rw [_rest] at shorter
  exact shorter

/-- The second branch behind a colon: spaces and one opening parenthesis before it are left
out, as long as something remains. -/
def lastBranch? (text : List Char) : Option (List Char) :=
  match text.dropWhile isSpace with
  | [] => if text.isEmpty then none else some [' ']
  | ['('] => some ['(']
  | '(' :: rest => some rest
  | rest => some rest

def colonBranch? (text : List Char) : Option (List Char) :=
  match text.dropWhile isSpace with
  | ':' :: rest => lastBranch? rest
  | _ => none

/-- Both branches behind the question mark, where the first is in parentheses. -/
def firstBracketed? (text : List Char) : Option (List Char × List Char) :=
  match text.dropWhile isSpace with
  | '(' :: rest => splitInner? ')' colonBranch? rest
  | _ => none

/-- The first branch, given the text up to the parenthesis of the second one: what stands before
the colon that ends it. Of the spaces before that text, one may serve as the branch. -/
def openBranch? (spaced : Bool) (text : List Char) : Option (List Char) :=
  match text.reverse.dropWhile isSpace with
  | ':' :: rest => if rest.isEmpty then (if spaced then some [' '] else none) else some rest.reverse
  | _ => none

def isParen (c : Char) : Bool := c == '(' || c == ')'

/-- Both branches behind the question mark and the text after them, where the second is in
parentheses. The first may hold line breaks. -/
def secondBracketed? (text : List Char) : Option (List Char × List Char × List Char) :=
  let body := text.dropWhile isSpace
  match body.dropWhile (!isParen ·) with
  | '(' :: rest => do
    let first ← openBranch? (text.head? = some ' ') (body.takeWhile (!isParen ·))
    let (second, left) ← splitInner? ')' some (firstLine rest).1
    pure (first, second, left ++ (firstLine rest).2)
  | _ => none

def bracketed (condition first second : List Char) : List Char :=
  "if ".toList ++ condition ++ ": (".toList ++ first ++ ") else: (".toList ++ second ++ ")".toList

def changeFirstBracketed (line rest : List Char) : Option (List Char) := do
  let (condition, first, second) ← splitInner? '?' firstBracketed? line
  pure (bracketed condition first second ++ rest)

def changeSecondBracketed (line rest : List Char) : Option (List Char) := do
  let (condition, first, second, left) ← splitInner? '?' (fun text => secondBracketed? (text ++ rest)) line
  pure (bracketed condition first second ++ left)

def changePlain (line rest : List Char) : Option (List Char) := do
  let (condition, first, second) ← splitInner? '?' (splitInner? ':' nonempty?) line
  pure ("(if ".toList ++ condition ++ ": ".toList ++ first ++ " else: ".toList ++ second ++ ")".toList ++ rest)

def conditional (source : String) : String :=
  String.ofList (changeLine changePlain (changeLine changeSecondBracketed
    (changeLine changeFirstBracketed source.toList)))

/-- The expression that computes a tag name. -/
def tagName (source : String) : String := normalizeQuotes (conditional source)

end NimTemplate.Nim
