/-! Expressions. The properties behind a point are string literals, like those computed
between brackets, so they name no variable. -/

namespace NimTemplate

inductive UnaryOp where
  | not | negate | plus | typeOf
deriving DecidableEq, Repr

inductive BinaryOp where
  | add | subtract | multiply | divide | remainder
  | strictEq | strictNe | eq | ne | lt | gt | le | ge
deriving DecidableEq, Repr

inductive LogicalOp where
  | and | or
deriving DecidableEq, Repr

inductive Expr where
  | number (x : Float)
  | text (s : String)
  | name (s : String)
  | array (items : List Expr)
  | object (fields : List (String × Expr))
  | unary (op : UnaryOp) (operand : Expr)
  | binary (op : BinaryOp) (left right : Expr)
  | logical (op : LogicalOp) (left right : Expr)
  | conditional (condition whenTrue whenFalse : Expr)
  | member (subject property : Expr)
  | call (function : Expr) (arguments : List Expr)

namespace Expr

mutual

/-- The names an expression reads, from left to right and with repetitions. -/
def freeNames : Expr → List String
  | number _ | text _ => []
  | name s => [s]
  | array items => freeNamesOfItems items
  | object fields => freeNamesOfFields fields
  | unary _ operand => operand.freeNames
  | binary _ left right | logical _ left right => left.freeNames ++ right.freeNames
  | conditional condition whenTrue whenFalse =>
    condition.freeNames ++ whenTrue.freeNames ++ whenFalse.freeNames
  | member subject property => subject.freeNames ++ property.freeNames
  | call function arguments => function.freeNames ++ freeNamesOfItems arguments

def freeNamesOfItems : List Expr → List String
  | [] => []
  | item :: rest => item.freeNames ++ freeNamesOfItems rest

def freeNamesOfFields : List (String × Expr) → List String
  | [] => []
  | (_, value) :: rest => value.freeNames ++ freeNamesOfFields rest

end

end Expr

end NimTemplate
