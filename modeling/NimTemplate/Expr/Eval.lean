import NimTemplate.Expr.Parser
import NimTemplate.Markup.Attribute
import NimTemplate.Value.Operators

/-! Evaluation in an environment of known names. An expression is constant when every name in
it is known and evaluation succeeds. -/

namespace NimTemplate

/-- The names known before rendering, with their values. -/
structure Environment where
  bindings : List (String × Value)

namespace Environment

def find? (environment : Environment) (name : String) : Option Value := environment.bindings.lookup name

def get (environment : Environment) (name : String) : Except EvalError Value :=
  match environment.find? name with
  | some value => .ok value
  | none => .error (.free name)

/-- The markup functions, as the object expressions find them in. -/
def markup : List (String × Value) :=
  [Builtin.escape, .attr, .classes, .joinClasses, .style].map fun b => (b.name, .builtin b)

def standard : Environment where
  bindings := [
    ("jade", .object markup),
    ("jade_interp", .undefined),
    ("undefined", .undefined),
    ("null", .null),
    ("true", .bool true),
    ("false", .bool false),
    ("NaN", .number Double.nan),
    ("Infinity", .number Number.infinity)]

end Environment

def UnaryOp.apply : UnaryOp → Value → Value
  | not, value => .bool !value.isTruthy
  | negate, value => .number (-value.toNumber)
  | plus, value => .number value.toNumber
  | typeOf, value => .text value.typeName

def BinaryOp.apply : BinaryOp → Value → Value → Value
  | add, a, b => a.add b
  | subtract, a, b => .number (a.toNumber - b.toNumber)
  | multiply, a, b => .number (a.toNumber * b.toNumber)
  | divide, a, b => .number (a.toNumber / b.toNumber)
  | remainder, a, b => .number (Double.remainder a.toNumber b.toNumber)
  | strictEq, a, b => .bool (a.strictEquals b)
  | strictNe, a, b => .bool !(a.strictEquals b)
  | eq, a, b => .bool (a.looseEquals b)
  | ne, a, b => .bool !(a.looseEquals b)
  | lt, a, b => .bool ((a.order? b).any (·.isLT))
  | gt, a, b => .bool ((a.order? b).any (·.isGT))
  | le, a, b => .bool ((a.order? b).any (·.isLE))
  | ge, a, b => .bool ((a.order? b).any (·.isGE))

/-- Whether the left operand decides the result. -/
def LogicalOp.stops : LogicalOp → Value → Bool
  | and, left => !left.isTruthy
  | or, left => left.isTruthy

namespace Builtin

def argument (arguments : List Value) (index : Nat) : Value := arguments[index]?.getD .undefined

def flags : Value → List Bool
  | .array items => items.map Value.isTruthy
  | _ => []

def call (arguments : List Value) : Builtin → Except EvalError Value
  | escape => .ok (.text (Markup.escape (argument arguments 0)))
  | style => .ok (Markup.style (argument arguments 0))
  | joinClasses => .ok (.text (Markup.joinClasses (argument arguments 0)))
  | attr => .ok (.text (Markup.attr (argument arguments 0).toText (argument arguments 1)
      (argument arguments 2).isTruthy (argument arguments 3).isTruthy))
  | classes =>
    match argument arguments 0 with
    | .array items => .ok (.text (Markup.classes items (flags (argument arguments 1))))
    | value => .error (.invalid (.classList value.typeName))

end Builtin

def Value.call (arguments : List Value) : Value → Except EvalError Value
  | builtin b => b.call arguments
  | value => .error (.invalid (.notCallable value.typeName))

namespace Expr

mutual

def eval (environment : Environment) : Expr → Except EvalError Value
  | number x => .ok (.number x)
  | text s => .ok (.text s)
  | name s => environment.get s
  | array items => do pure (.array (← evalItems environment items))
  | object fields => do pure (.object (collectFields (← evalFields environment fields)))
  | unary op operand => do pure (op.apply (← operand.eval environment))
  | binary op left right => do
    let left ← left.eval environment
    let right ← right.eval environment
    pure (op.apply left right)
  | logical op left right => do
    let left ← left.eval environment
    if op.stops left then pure left else right.eval environment
  | conditional condition whenTrue whenFalse => do
    let condition ← condition.eval environment
    if condition.isTruthy then whenTrue.eval environment else whenFalse.eval environment
  | member subject property => do
    let subject ← subject.eval environment
    let property ← property.eval environment
    subject.property property
  | call function arguments => do
    let function ← function.eval environment
    let arguments ← evalItems environment arguments
    function.call arguments

def evalItems (environment : Environment) : List Expr → Except EvalError (List Value)
  | [] => .ok []
  | item :: rest => do
    let value ← item.eval environment
    let values ← evalItems environment rest
    pure (value :: values)

def evalFields (environment : Environment) : List (String × Expr) → Except EvalError (List (String × Value))
  | [] => .ok []
  | (key, item) :: rest => do
    let value ← item.eval environment
    let values ← evalFields environment rest
    pure ((key, value) :: values)

end

/-- The first name of an expression that the environment does not know. -/
def unknown? (environment : Environment) (expr : Expr) : Option String :=
  expr.freeNames.find? fun s => (environment.find? s).isNone

end Expr

/-- The value of an expression, all of whose names have to be known. -/
def Environment.evaluate (environment : Environment) (source : String) : Except EvalError Value := do
  let expr ← Expr.parse source
  match expr.unknown? environment with
  | some name => .error (.free name)
  | none => expr.eval environment

/-- The value an expression has whatever is rendered. -/
def constant? (source : String) : Option Value := (Environment.standard.evaluate source).toOption

end NimTemplate
