import NimTemplate.Value.Number

/-! Values of the expression language, and the conversions between them. Objects keep their
fields in the order of first insertion. -/

namespace NimTemplate

/-- Markup functions that expressions can call. -/
inductive Builtin where
  | escape
  | attr
  | classes
  | joinClasses
  | style
deriving DecidableEq, Repr

/-- The name under which an expression reaches the function. -/
def Builtin.name : Builtin → String
  | .escape => "escape"
  | .attr => "attr"
  | .classes => "cls"
  | .joinClasses => "joinClasses"
  | .style => "style"

inductive Value where
  | undefined
  | null
  | bool (b : Bool)
  | number (x : Float)
  | text (s : String)
  | array (items : List Value)
  | object (fields : List (String × Value))
  | builtin (b : Builtin)
deriving Inhabited

/-- Sets a field: a new name goes to the end, a known one keeps its place. -/
def insertField {α : Type} (fields : List (String × α)) (name : String) (value : α) : List (String × α) :=
  match fields with
  | [] => [(name, value)]
  | (other, old) :: rest =>
    if other = name then (name, value) :: rest else (other, old) :: insertField rest name value

/-- The fields left by writing the given ones in turn. -/
def collectFields {α : Type} (fields : List (String × α)) : List (String × α) :=
  fields.foldl (fun known field => insertField known field.1 field.2) []

namespace Value

def typeName : Value → String
  | undefined => "undefined"
  | null | array _ | object _ => "object"
  | bool _ => "boolean"
  | number _ => "number"
  | text _ => "string"
  | builtin _ => "function"

def isNullish : Value → Bool
  | undefined | null => true
  | _ => false

def isTruthy : Value → Bool
  | undefined | null => false
  | bool b => b
  | number x => !(x.isNaN || Double.magnitude x == 0)
  | text s => s != ""
  | array _ | object _ | builtin _ => true

mutual

/-- The string form. Absent items leave their place in a list empty. -/
def toText : Value → String
  | undefined => "undefined"
  | null => "null"
  | bool b => if b then "true" else "false"
  | number x => Number.text x
  | text s => s
  | array items => ",".intercalate (itemTexts items)
  | object _ => "[object Object]"
  | builtin b => "function " ++ b.name ++ "() \x7b [native code] \x7d"

def itemTexts : List Value → List String
  | [] => []
  | item :: rest => (if item.isNullish then "" else item.toText) :: itemTexts rest

end

/-- What a value adds to rendered text: absent values add nothing. -/
def render (value : Value) : String := if value.isNullish then "" else value.toText

def toNumber : Value → Float
  | undefined => Double.nan
  | null => Double.ofMagnitude false 0
  | bool b => if b then 1 else Double.ofMagnitude false 0
  | number x => x
  | text s => Number.read s
  | array items => Number.read (array items).toText
  | object _ | builtin _ => Double.nan

/-- Lists, objects and functions turn into their string form, the rest stays. -/
def primitive : Value → Value
  | array items => text (array items).toText
  | object fields => text (object fields).toText
  | builtin b => text (builtin b).toText
  | value => value

end Value

end NimTemplate
