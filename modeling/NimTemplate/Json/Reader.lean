import NimTemplate.Decimal.Double
import NimTemplate.Decimal.Reader
import NimTemplate.Json.Basic
import NimTemplate.Text.Basic

/-! Reading JSON texts strictly. Arrays and objects may nest to a limit; a number whose value
is beyond the doubles is refused, although it is kept as it is written. -/

namespace NimTemplate.Json

/-- How deep arrays and objects may nest. -/
def maxNesting : Nat := 127

def isBlank (c : Char) : Bool := c == ' ' || c == '\t' || c == '\n' || c == '\r'

def skipBlanks (text : List Char) : List Char := text.dropWhile isBlank

/-- The number in four hexadecimal digits. -/
def unit? (digits : List Char) : Option Nat :=
  if digits.all Text.isHexDigit then some (Text.hexNumber digits) else none

def simpleEscape? : Char → Option Char
  | '"' => some '"'
  | '\\' => some '\\'
  | '/' => some '/'
  | 'b' => some '\x08'
  | 'f' => some '\x0c'
  | 'n' => some '\n'
  | 'r' => some '\r'
  | 't' => some '\t'
  | _ => none

def isHigh (unit : Nat) : Bool := 0xD800 ≤ unit && unit < 0xDC00

def isLow (unit : Nat) : Bool := 0xDC00 ≤ unit && unit < 0xE000

/-- The character that two surrogates stand for. -/
def joined (high low : Nat) : Char := Char.ofNat (0x10000 + (high - 0xD800) * 0x400 + (low - 0xDC00))

/-- The content of a string and the text behind it, given the text behind its opening quote. -/
def stringBody? : List Char → Option (List Char × List Char)
  | [] => none
  | '"' :: rest => some ([], rest)
  | '\\' :: 'u' :: a :: b :: c :: d :: rest => do
    let unit ← unit? [a, b, c, d]
    if isHigh unit then
      match rest with
      | '\\' :: 'u' :: a :: b :: c :: d :: rest =>
        let low ← unit? [a, b, c, d]
        let (body, left) ← stringBody? rest
        if isLow low then some (joined unit low :: body, left) else none
      | _ => none
    else
      let (body, left) ← stringBody? rest
      if isLow unit then none else some (Char.ofNat unit :: body, left)
  | '\\' :: c :: rest => do
    let c ← simpleEscape? c
    let (body, left) ← stringBody? rest
    pure (c :: body, left)
  | c :: rest => do
    let (body, left) ← stringBody? rest
    if c = '\\' ∨ c.toNat < 0x20 then none else some (c :: body, left)

def string? : List Char → Option (String × List Char)
  | '"' :: rest => (stringBody? rest).map fun (body, left) => (String.ofList body, left)
  | _ => none

/-- Cuts off leading digits. -/
def digits (text : List Char) : List Char × List Char :=
  (text.takeWhile Char.isDigit, text.dropWhile Char.isDigit)

/-- A whole part, which starts with zero only if it is zero. -/
def wholePart? (text : List Char) : Option (List Char × List Char) :=
  let (whole, rest) := digits text
  if whole.isEmpty || (whole.head? == some '0' && whole.length != 1) then none else some (whole, rest)

/-- The digits behind a point, at least one. -/
def fractionPart? : List Char → Option (List Char × List Char)
  | '.' :: text =>
    let (fraction, rest) := digits text
    if fraction.isEmpty then none else some (fraction, rest)
  | text => some ([], text)

/-- The sign and digits of a power of ten, without its mark. -/
def powerPart? : List Char → Option (List Char × List Char)
  | [] => some ([], [])
  | c :: text =>
    if !Decimal.isMark c then some ([], c :: text)
    else
      let (sign, unsigned) := match text with
        | '+' :: rest => (['+'], rest)
        | '-' :: rest => (['-'], rest)
        | rest => ([], rest)
      let (power, rest) := digits unsigned
      if power.isEmpty then none else some (sign ++ power, rest)

/-- Adds digits to a number as long as it fits a word of 64 bits; the second component counts
the digits taken. -/
def takeDigits : (n taken : Nat) → List Char → Nat × Nat
  | n, taken, [] => (n, taken)
  | n, taken, c :: rest =>
    let next := 10 * n + (c.toNat - '0'.toNat)
    if next < wordSize then takeDigits next (taken + 1) rest else (n, taken)

/-- Whether the leading digits times a power of ten leave the range of doubles. They fit a word,
so it takes a positive power. -/
def isTooLarge (whole fraction power : List Char) : Bool :=
  let (leading, inWhole) := takeDigits 0 0 whole
  let (significand, inFraction) := takeDigits leading 0 fraction
  let exponent : Int := (whole.length - inWhole : Nat) - inFraction + (Decimal.integer? power).getD 0
  significand != 0 && (308 < exponent || (0 < exponent &&
    (Double.ofNat significand * Double.ofMagnitude false (Decimal.magnitude ⟨1, exponent⟩)).isInf))

def unsignedNumber? (text : List Char) : Option (List Char) := do
  let (whole, rest) ← wholePart? text
  let (fraction, rest) ← fractionPart? rest
  let (power, rest) ← powerPart? rest
  if isTooLarge whole fraction power then none else some rest

/-- A number as it is written, and the text behind it. -/
def number? (text : List Char) : Option (String × List Char) := do
  let rest ← unsignedNumber? (match text with
    | '-' :: unsigned => unsigned
    | unsigned => unsigned)
  pure (String.ofList (text.take (text.length - rest.length)), rest)

/-- The text behind a word. -/
def word? (word : String) (text : List Char) : Option (List Char) :=
  if word.toList.isPrefixOf text then some (text.drop word.toList.length) else none

def scalar? (text : List Char) : Option (Json × List Char) :=
  match text.head? with
  | some 'n' => (word? "null" text).map (null, ·)
  | some 't' => (word? "true" text).map (bool true, ·)
  | some 'f' => (word? "false" text).map (bool false, ·)
  | some '"' => (string? text).map fun (s, rest) => (string s, rest)
  | _ => (number? text).map fun (literal, rest) => (number literal, rest)

mutual

/-- A value at the start of a text, with as many levels as it may still open. -/
def value? (nesting : Nat) (text : List Char) : Option (Json × List Char) :=
  match skipBlanks text with
  | '[' :: rest =>
    match nesting, skipBlanks rest with
    | 0, _ => none
    | _ + 1, ']' :: rest => some (array [], rest)
    | nesting + 1, _ => (items? nesting rest).map fun (items, rest) => (array items, rest)
  | '\x7b' :: rest =>
    match nesting, skipBlanks rest with
    | 0, _ => none
    | _ + 1, '\x7d' :: rest => some (object [], rest)
    | nesting + 1, _ => (members? nesting rest).map fun (members, rest) => (object members, rest)
  | text => scalar? text
termination_by (nesting, 0, text.length)

/-- The items of an array up to its end. An item takes at least one character. -/
def items? (nesting : Nat) (text : List Char) : Option (List Json × List Char) := do
  let (item, rest) ← value? nesting text
  match skipBlanks rest with
  | ',' :: rest =>
    if rest.length < text.length then
      let (items, rest) ← items? nesting rest
      pure (item :: items, rest)
    else none
  | ']' :: rest => pure ([item], rest)
  | _ => none
termination_by (nesting, 1, text.length)

/-- The members of an object up to its end. -/
def members? (nesting : Nat) (text : List Char) : Option (List (String × Json) × List Char) := do
  let (name, rest) ← string? (skipBlanks text)
  match skipBlanks rest with
  | ':' :: rest =>
    let (item, rest) ← value? nesting rest
    match skipBlanks rest with
    | ',' :: rest =>
      if rest.length < text.length then
        let (members, rest) ← members? nesting rest
        pure ((name, item) :: members, rest)
      else none
    | '\x7d' :: rest => pure ([(name, item)], rest)
    | _ => none
  | _ => none
termination_by (nesting, 1, text.length)

end

/-- The document that a whole text is. -/
def parse? (text : String) : Option Json := do
  let (json, rest) ← value? maxNesting text.toList
  if (skipBlanks rest).isEmpty then some json else none

end NimTemplate.Json
