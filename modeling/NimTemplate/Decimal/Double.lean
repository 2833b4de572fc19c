import NimTemplate.Decimal.Basic

/-! Doubles as exact numbers. The magnitude of a double is its bit pattern without the sign,
so magnitudes are ordered as the numbers they stand for, and the pattern of a finite one
decodes to `mantissa * 2 ^ scale`. Rounding to nearest is exact arithmetic on fractions,
with a half going to the even neighbour. -/

namespace NimTemplate.Double

/-- The magnitude of infinity; the patterns below it are the finite doubles. -/
def infinity : Nat := 0x7FF0000000000000

/-- The bit of the sign, which negative doubles have set. -/
def signBit : Nat := 0x8000000000000000

/-- The leading bit of a mantissa, which a pattern leaves out unless its exponent is least. -/
def leadingBit : Nat := 0x10000000000000

def magnitude (x : Float) : Nat := x.toBits.toNat % signBit

def isNegative (x : Float) : Bool := signBit ≤ x.toBits.toNat

def ofMagnitude (negative : Bool) (magnitude : Nat) : Float :=
  Float.ofBits (UInt64.ofNat (if negative then signBit + magnitude else magnitude))

def nan : Float := Float.ofBits 0x7FF8000000000000

def mantissa (magnitude : Nat) : Nat :=
  if magnitude < leadingBit then magnitude else leadingBit + magnitude % leadingBit

def scale (magnitude : Nat) : Int := max (magnitude / leadingBit : Nat) 1 - 1075

/-- The quotient rounded to a whole number, a half going to the even neighbour. -/
def divNearest (num den : Nat) : Nat :=
  let quotient := num / den
  let twice := 2 * (num % den)
  if twice < den then quotient
  else if den < twice then quotient + 1
  else quotient + quotient % 2

/-- `num / den * 2 ^ (-shift)` as a fraction of whole numbers. -/
def shifted (num den : Nat) (shift : Int) : Nat × Nat :=
  (num <<< (-shift).toNat, den <<< shift.toNat)

/-- The exponent of the largest power of two that is at most `num / den`. -/
def floorLog (num den : Nat) : Int :=
  let guess : Int := num.log2 - den.log2
  let fraction := shifted num den guess
  if fraction.2 ≤ fraction.1 then guess else guess - 1

/-- The magnitude of the double nearest to `num / den`. The mantissa takes its place under
the exponent by addition, so one that rounds up to the next power of two carries into it,
and past the largest double the sum stops at infinity. -/
def nearest (num den : Nat) : Nat :=
  if num = 0 then 0
  else
    let shift := max (floorLog num den - 52) (-1074)
    let fraction := shifted num den shift
    min ((shift + 1074).toNat * leadingBit + divNearest fraction.1 fraction.2) infinity

/-- The double nearest to a whole number. -/
def ofNat (n : Nat) : Float := ofMagnitude false (nearest n 1)

/-- The remainder of a division whose quotient is cut toward zero. It has the sign of the
dividend and is never rounded. -/
def remainder (x y : Float) : Float :=
  if x.isNaN || y.isNaN || x.isInf || magnitude y == 0 then nan
  else if y.isInf then x
  else
    let low := min (scale (magnitude x)) (scale (magnitude y))
    let dividend := mantissa (magnitude x) <<< (scale (magnitude x) - low).toNat
    let divisor := mantissa (magnitude y) <<< (scale (magnitude y) - low).toNat
    let fraction := shifted (dividend % divisor) 1 (-low)
    ofMagnitude (isNegative x) (nearest fraction.1 fraction.2)

end NimTemplate.Double

namespace NimTemplate.Decimal

/-- The magnitude of the double nearest to a decimal. The first two cases only keep the
powers small: there the decimal is beyond the largest double, or below half the smallest. -/
def magnitude (decimal : Decimal) : Nat :=
  if decimal.digits = 0 then 0
  else if 400 < decimal.exponent then Double.infinity
  else if decimal.exponent + decimal.digits.log2 + 1200 < 0 then 0
  else Double.nearest (decimal.digits * Nat.pow 10 decimal.exponent.toNat) (Nat.pow 10 (-decimal.exponent).toNat)

end NimTemplate.Decimal
