/-! Decimal numerals: a count of powers of ten, laid out positionally or with one digit before the
point and a signed power of ten. -/

namespace NimTemplate

/-- The number `digits * 10 ^ exponent`. -/
structure Decimal where
  digits : Nat
  exponent : Int
deriving DecidableEq, Repr

/-- The numbers below it fit a word of 64 bits. -/
def wordSize : Nat := 0x10000000000000000

namespace Decimal

def numeral (n : Nat) : List Char := Nat.toDigits 10 n

/-- The power of ten of the leading digit. -/
def leading (decimal : Decimal) : Int := (numeral decimal.digits).length + decimal.exponent - 1

def zeros (count : Int) : List Char := List.replicate count.toNat '0'

def positional (decimal : Decimal) : List Char :=
  let digits := numeral decimal.digits
  if 0 ≤ decimal.exponent then digits ++ zeros decimal.exponent
  else if 0 ≤ decimal.leading then
    let whole := (decimal.leading + 1).toNat
    digits.take whole ++ '.' :: digits.drop whole
  else ['0', '.'] ++ zeros (-decimal.leading - 1) ++ digits

def signed (exponent : Int) : List Char :=
  (if exponent < 0 then '-' else '+') :: numeral exponent.natAbs

def scientific (decimal : Decimal) : List Char :=
  let fraction := (numeral decimal.digits).drop 1
  (numeral decimal.digits).take 1 ++ (if fraction.isEmpty then [] else '.' :: fraction) ++
    'e' :: signed decimal.leading

end Decimal

end NimTemplate
