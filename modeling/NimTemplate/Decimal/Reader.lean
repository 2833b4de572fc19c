import NimTemplate.Decimal.Basic

/-! Reading numerals. A decimal numeral has digits with at most one point among or around
them, and may end in a power of ten; a numeral in another base is digits alone. -/

namespace NimTemplate.Decimal

def isMark (c : Char) : Bool := c == 'e' || c == 'E'

/-- A whole number of at least one digit. -/
def natural? (digits : List Char) : Option Nat :=
  if digits.isEmpty || !digits.all Char.isDigit then none else some (Nat.ofDigitChars 10 digits 0)

def integer? : List Char → Option Int
  | '+' :: digits => (natural? digits).map Int.ofNat
  | '-' :: digits => (natural? digits).map fun n => -Int.ofNat n
  | digits => (natural? digits).map Int.ofNat

/-- The power of ten that ends a numeral, zero where there is none. -/
def power? : List Char → Option Int
  | [] => some 0
  | c :: rest => if isMark c then integer? rest else none

/-- The digits after the point, if there is a point, and what follows them. -/
def fraction : List Char → List Char × List Char
  | '.' :: rest => (rest.takeWhile Char.isDigit, rest.dropWhile Char.isDigit)
  | rest => ([], rest)

def unsigned? (text : List Char) : Option Decimal :=
  let whole := text.takeWhile Char.isDigit
  let (part, rest) := fraction (text.dropWhile Char.isDigit)
  if whole.isEmpty && part.isEmpty then none
  else (power? rest).map fun power => ⟨Nat.ofDigitChars 10 (whole ++ part) 0, power - part.length⟩

/-- A numeral after an optional sign; the flag says whether it is negative. -/
def read? : List Char → Option (Bool × Decimal)
  | '+' :: rest => (unsigned? rest).map (false, ·)
  | '-' :: rest => (unsigned? rest).map (true, ·)
  | text => (unsigned? text).map (false, ·)

end NimTemplate.Decimal
