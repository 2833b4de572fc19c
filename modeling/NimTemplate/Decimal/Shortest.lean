import NimTemplate.Decimal.Double

/-! The shortest decimal of a double. Going from coarse to fine powers of ten, the first
grid on which a neighbour of the double reads back as that double gives the digits. Of two
such neighbours the nearer is taken; which one at equal distance is the caller's choice. -/

namespace NimTemplate.Decimal

/-- Which neighbour is taken when both are equally near. -/
inductive Tie where
  | up
  | even
deriving DecidableEq, Repr

/-- The neighbours of `num / den` on the grid of `10 ^ exponent` that read back as
`magnitude`, reduced to one. -/
def onGrid? (tie : Tie) (magnitude num den : Nat) (exponent : Int) : Option Decimal :=
  let whole := num * Nat.pow 10 (-exponent).toNat
  let unit := den * Nat.pow 10 exponent.toNat
  let below : Decimal := ⟨whole / unit, exponent⟩
  let above : Decimal := ⟨whole / unit + 1, exponent⟩
  let twice := 2 * (whole % unit)
  match below.digits != 0 && below.magnitude == magnitude, above.magnitude == magnitude with
  | true, true =>
    if twice < unit then some below
    else if unit < twice then some above
    else match tie with
      | .up => some above
      | .even => if below.digits % 2 = 0 then some below else some above
  | true, false => some below
  | false, true => some above
  | false, false => none

/-- Tries `steps` grids, from `10 ^ exponent` downwards. -/
def search (tie : Tie) (magnitude num den : Nat) : (steps : Nat) → (exponent : Int) → Option Decimal
  | 0, _ => none
  | steps + 1, exponent =>
    match onGrid? tie magnitude num den exponent with
    | some decimal => some decimal
    | none => search tie magnitude num den steps (exponent - 1)

/-- All digits of `mantissa * 2 ^ scale`. -/
def exact (mantissa : Nat) (scale : Int) : Decimal :=
  if 0 ≤ scale then ⟨mantissa <<< scale.toNat, 0⟩ else ⟨mantissa * Nat.pow 5 (-scale).toNat, scale⟩

/-- The shortest decimal that reads back as a finite magnitude other than zero. The search
starts above the leading digit, and seventeen digits always suffice. -/
def shortest (tie : Tie) (magnitude : Nat) : Decimal :=
  let mantissa := Double.mantissa magnitude
  let scale := Double.scale magnitude
  let fraction := Double.shifted mantissa 1 (-scale)
  let start := (mantissa.log2 + scale) * 30103 / 100000 + 2
  (search tie magnitude fraction.1 fraction.2 20 start).getD (exact mantissa scale)

end NimTemplate.Decimal
