import NimTemplate.Decimal.Basic
import NimTemplate.Decimal.Reader
import NimTemplate.Decimal.Shortest
import NimTemplate.Text.Basic

/-! Numbers of the expression language as text. Both forms below write the shortest digits
that read back, and differ in where they leave the positional layout. -/

namespace NimTemplate.Number

def infinity : Float := Double.ofMagnitude false Double.infinity

/-- Puts the sign of a number before the text of its magnitude. -/
def signed (x : Float) (digits : List Char) : String :=
  String.ofList (if Double.isNegative x then '-' :: digits else digits)

/-- A number as the expression language prints it: positional from a millionth up to, and
without, 10^21, both zeros as one digit. -/
def text (x : Float) : String :=
  if x.isNaN then "NaN"
  else if x.isInf then signed x "Infinity".toList
  else if Double.magnitude x = 0 then "0"
  else
    let decimal := Decimal.shortest .up (Double.magnitude x)
    signed x (if -6 ≤ decimal.leading ∧ decimal.leading < 21 then decimal.positional else decimal.scientific)

/-- A whole number that fits a signed or an unsigned word of 64 bits. -/
def fitsWord (negative : Bool) (n : Nat) : Bool := if negative then n ≤ wordSize / 2 else n < wordSize

/-- A number as JSON. Whole numbers that fit a word are written in full, other whole numbers
and those below 10^-5 with a power of ten. Without a JSON form, `none`. -/
def json? (x : Float) : Option String :=
  if !x.isFinite then none
  else if Double.magnitude x = 0 then some "0"
  else
    let whole := Decimal.shortest .up (Double.magnitude x)
    if 0 ≤ whole.exponent ∧ whole.leading < 21 ∧
        fitsWord (Double.isNegative x) (whole.digits * Nat.pow 10 whole.exponent.toNat) then
      some (text x)
    else
      let decimal := Decimal.shortest .even (Double.magnitude x)
      some (signed x (if decimal.leading < -5 ∨ 0 ≤ decimal.exponent then decimal.scientific
        else decimal.positional))

/-- A word of 64 bits in hexadecimal digits, which may follow a plus sign. -/
def hexadecimal (text : List Char) : Float :=
  let digits := match text with
    | '+' :: digits => digits
    | digits => digits
  if digits.isEmpty || !digits.all Text.isHexDigit then Double.nan
  else if Text.hexNumber digits < wordSize then Double.ofNat (Text.hexNumber digits)
  else Double.nan

/-- The number a text stands for. Blanks around it do not count, nothing is zero, and what
is no numeral is not a number. -/
def read (text : String) : Float :=
  match Text.trim text.toList with
  | [] => Double.ofMagnitude false 0
  | '0' :: 'x' :: digits => hexadecimal digits
  | '0' :: 'X' :: digits => hexadecimal digits
  | numeral =>
    if numeral = "Infinity".toList ∨ numeral = "+Infinity".toList then infinity
    else if numeral = "-Infinity".toList then -infinity
    else match Decimal.read? numeral with
      | some (negative, decimal) => Double.ofMagnitude negative decimal.magnitude
      | none => Double.nan

end NimTemplate.Number
