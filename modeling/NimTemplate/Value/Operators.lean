import NimTemplate.Expr.Error
import NimTemplate.Value.Basic

/-! The operators of the expression language, with its conversions between kinds. -/

namespace NimTemplate.Value

/-- Text on either side makes a sum text; otherwise numbers are added. -/
def add (left right : Value) : Value :=
  match left.primitive, right.primitive with
  | text a, b => text (a ++ b.toText)
  | a, text b => text (a.toText ++ b)
  | a, b => number (a.toNumber + b.toNumber)

/-- Equality within one kind. Every list and every object differs from all others. -/
def strictEquals : Value → Value → Bool
  | undefined, undefined => true
  | null, null => true
  | bool a, bool b => a == b
  | number a, number b => a == b
  | text a, text b => a == b
  | builtin a, builtin b => a == b
  | _, _ => false

def isContainer : Value → Bool
  | array _ | object _ => true
  | _ => false

def isScalar : Value → Bool
  | bool _ | number _ | text _ => true
  | _ => false

/-- Equality of values that are no lists or objects: absent values equal each other only, a
truth value and a number are compared as numbers with anything but their own kind. -/
def plainEquals (left right : Value) : Bool :=
  if left.isNullish || right.isNullish then left.isNullish && right.isNullish
  else match left, right with
    | number _, text _ | text _, number _ | bool _, _ | _, bool _ => left.toNumber == right.toNumber
    | _, _ => strictEquals left right

/-- Equality across kinds. A list or object next to a scalar is compared by its string form. -/
def looseEquals (left right : Value) : Bool :=
  if (left.isContainer && right.isScalar) || (left.isScalar && right.isContainer) then
    plainEquals left.primitive right.primitive
  else if left.isContainer || right.isContainer then false
  else plainEquals left right

def textOrder (a b : String) : Ordering :=
  if a < b then .lt else if a = b then .eq else .gt

/-- No order where one of the numbers is not a number. -/
def numberOrder? (a b : Float) : Option Ordering :=
  if a < b then some .lt else if a == b then some .eq else if b < a then some .gt else none

/-- Two texts are ordered by code point, everything else by number. -/
def order? (left right : Value) : Option Ordering :=
  match left.primitive, right.primitive with
  | text a, text b => some (textOrder a b)
  | a, b => numberOrder? a.toNumber b.toNumber

/-- Characters above the first plane count as two units. -/
def units (c : Char) : Nat := if 0xFFFF < c.toNat then 2 else 1

/-- The length of a text in units. -/
def textLength : List Char → Nat
  | [] => 0
  | c :: rest => units c + textLength rest

/-- The place a property key names, if it is a decimal number that fits a word of 64 bits. -/
def index? (key : String) : Option Nat :=
  (Decimal.natural? key.toList).filter (· < wordSize)

def property (subject key : Value) : Except EvalError Value :=
  let name := key.toText
  match subject with
  | undefined | null => .error (.invalid (.absent name subject.toText))
  | text s =>
    if name = "length" then .ok (number (Double.ofNat (textLength s.toList)))
    else match index? name with
      | none => .ok undefined
      | some index =>
        if s.toList.any (units · == 2) then .error (.unsupported .astralIndex)
        else .ok (s.toList[index]?.elim undefined fun c => text c.toString)
  | array items =>
    if name = "length" then .ok (number (Double.ofNat items.length))
    else .ok (((index? name).bind fun index => items[index]?).getD undefined)
  | object fields => .ok ((fields.lookup name).getD undefined)
  | bool _ | number _ | builtin _ => .error (.unsupported (.property name))

end NimTemplate.Value
