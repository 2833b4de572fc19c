import NimTemplate.Expr.Basic
import NimTemplate.Expr.Token.Lexer

/-! Building expressions from tokens by recursive descent. The first argument of each reader
is the nesting it may still open: every operator, property, call and inner expression takes
one from it, and none is left at the bottom. -/

namespace NimTemplate

/-- An operator between two operands. -/
inductive Connective where
  | logical (op : LogicalOp)
  | binary (op : BinaryOp)
deriving DecidableEq, Repr

def Connective.apply : Connective → Expr → Expr → Expr
  | logical op => .logical op
  | binary op => .binary op

/-- The connectives by how loosely they bind: a product is at 1, an alternative at 6. -/
def Connective.ofPunct? : (looseness : Nat) → Punct → Option Connective
  | 6, .or => some (.logical .or)
  | 5, .and => some (.logical .and)
  | 4, .strictEq => some (.binary .strictEq)
  | 4, .strictNe => some (.binary .strictNe)
  | 4, .eq => some (.binary .eq)
  | 4, .ne => some (.binary .ne)
  | 3, .le => some (.binary .le)
  | 3, .ge => some (.binary .ge)
  | 3, .lt => some (.binary .lt)
  | 3, .gt => some (.binary .gt)
  | 2, .plus => some (.binary .add)
  | 2, .minus => some (.binary .subtract)
  | 1, .times => some (.binary .multiply)
  | 1, .divide => some (.binary .divide)
  | 1, .modulo => some (.binary .remainder)
  | _, _ => none

def UnaryOp.ofToken? : Token → Option UnaryOp
  | .punct .not => some .not
  | .punct .minus => some .negate
  | .punct .plus => some .plus
  | .name "typeof" => some .typeOf
  | _ => none

namespace Expr

/-- Words of the rendering language that are no names. -/
def reserved : List String :=
  ["var", "let", "const", "function", "return", "new", "delete", "void", "in", "instanceof",
    "this", "if", "else", "for", "while", "do", "switch", "case", "class", "throw", "try",
    "catch", "yield", "await"]

/-- How deep expressions may nest. -/
def maxNesting : Nat := 256

/-- The tokens behind a required punctuator. -/
def expect (p : Punct) : List Token → Except EvalError (List Token)
  | .punct q :: rest => if q = p then .ok rest else .error (.malformed (.expected p))
  | _ => .error (.malformed (.expected p))

/-- The key that starts a field of an object. -/
def readKey : List Token → Except EvalError (String × List Token)
  | .name s :: rest => .ok (s, rest)
  | .text s :: rest => .ok (s, rest)
  | .number x :: rest => .ok (Number.text x, rest)
  | _ => .error (.malformed .propertyKey)

mutual

def readExpr : (nesting : Nat) → List Token → Except EvalError (Expr × List Token)
  | 0, _ => .error (.unsupported .nesting)
  | nesting + 1, tokens => readConditional nesting tokens
termination_by nesting tokens => (nesting, 0, tokens.length)

def readConditional (nesting : Nat) (tokens : List Token) : Except EvalError (Expr × List Token) := do
  let (condition, rest) ← readChain nesting 6 tokens
  match rest with
  | .punct .question :: rest =>
    let (whenTrue, rest) ← readExpr nesting rest
    let rest ← expect .colon rest
    let (whenFalse, rest) ← readExpr nesting rest
    pure (.conditional condition whenTrue whenFalse, rest)
  | _ => pure (condition, rest)
termination_by (nesting, 12, tokens.length)

/-- Operands joined by connectives up to the given looseness. -/
def readChain (nesting : Nat) : (looseness : Nat) → List Token → Except EvalError (Expr × List Token)
  | 0, tokens => readUnary nesting tokens
  | looseness + 1, tokens => do
    let (left, rest) ← readChain nesting looseness tokens
    readConnected nesting looseness left rest
termination_by looseness tokens => (nesting, 5 + looseness, tokens.length)

/-- What joins further operands to the left of a chain. -/
def readConnected (nesting looseness : Nat) (left : Expr) (tokens : List Token) :
    Except EvalError (Expr × List Token) :=
  match tokens with
  | .punct p :: rest =>
    match Connective.ofPunct? (looseness + 1) p with
    | none => .ok (left, tokens)
    | some connective =>
      match nesting with
      | 0 => .error (.unsupported .nesting)
      | nesting + 1 => do
        let (right, rest) ← readChain nesting looseness rest
        readConnected nesting looseness (connective.apply left right) rest
  | _ => .ok (left, tokens)
termination_by (nesting, 0, tokens.length)

def readUnary (nesting : Nat) (tokens : List Token) : Except EvalError (Expr × List Token) :=
  match tokens with
  | [] => readApplied nesting []
  | token :: rest =>
    match UnaryOp.ofToken? token with
    | none => readApplied nesting (token :: rest)
    | some op =>
      match nesting with
      | 0 => .error (.unsupported .nesting)
      | nesting + 1 => do
        let (operand, rest) ← readUnary nesting rest
        pure (.unary op operand, rest)
termination_by (nesting, 4, tokens.length)

/-- An operand with the properties and calls behind it. -/
def readApplied (nesting : Nat) (tokens : List Token) : Except EvalError (Expr × List Token) := do
  let (operand, rest) ← readOperand nesting tokens
  readSuffixes nesting operand rest
termination_by (nesting, 3, tokens.length)

def readSuffixes (nesting : Nat) (subject : Expr) (tokens : List Token) :
    Except EvalError (Expr × List Token) :=
  match tokens with
  | .punct .dot :: rest =>
    match nesting with
    | 0 => .error (.unsupported .nesting)
    | nesting + 1 =>
      match rest with
      | .name s :: rest => readSuffixes nesting (.member subject (.text s)) rest
      | _ => .error (.malformed .propertyName)
  | .punct .openBracket :: rest =>
    match nesting with
    | 0 => .error (.unsupported .nesting)
    | nesting + 1 => do
      let (property, rest) ← readExpr nesting rest
      let rest ← expect .closeBracket rest
      readSuffixes nesting (.member subject property) rest
  | .punct .openParen :: rest =>
    match nesting with
    | 0 => .error (.unsupported .nesting)
    | nesting + 1 => do
      let (arguments, rest) ← readItems nesting .closeParen rest
      readSuffixes nesting (.call subject arguments) rest
  | tokens => .ok (subject, tokens)
termination_by (nesting, 0, tokens.length)

def readOperand (nesting : Nat) (tokens : List Token) : Except EvalError (Expr × List Token) :=
  match tokens with
  | .number x :: rest => .ok (.number x, rest)
  | .text s :: rest => .ok (.text s, rest)
  | .name s :: rest =>
    if s ∈ reserved then .error (.unsupported (.reserved s)) else .ok (.name s, rest)
  | .punct .openParen :: rest => do
    let (inner, rest) ← readExpr nesting rest
    let rest ← expect .closeParen rest
    pure (inner, rest)
  | .punct .openBracket :: rest => do
    let (items, rest) ← readItems nesting .closeBracket rest
    pure (.array items, rest)
  | .punct .openBrace :: rest => do
    let (fields, rest) ← readFields nesting rest
    pure (.object fields, rest)
  | _ => .error (.malformed .operand)
termination_by (nesting, 2, tokens.length)

/-- Items up to a closing punctuator, with a comma allowed behind the last. An item takes
at least one token, so the list ends. -/
def readItems (nesting : Nat) (close : Punct) (tokens : List Token) :
    Except EvalError (List Expr × List Token) :=
  if tokens.head? = some (.punct close) then .ok ([], tokens.tail)
  else do
    let (item, rest) ← readExpr nesting tokens
    match rest with
    | .punct .comma :: rest =>
      if rest.length < tokens.length then
        let (items, rest) ← readItems nesting close rest
        pure (item :: items, rest)
      else .error (.malformed .operand)
    | _ =>
      let rest ← expect close rest
      pure ([item], rest)
termination_by (nesting, 1, tokens.length)

def readFields (nesting : Nat) (tokens : List Token) :
    Except EvalError (List (String × Expr) × List Token) :=
  if tokens.head? = some (.punct .closeBrace) then .ok ([], tokens.tail)
  else do
    let (key, rest) ← readKey tokens
    let rest ← expect .colon rest
    let (value, rest) ← readExpr nesting rest
    match rest with
    | .punct .comma :: rest =>
      if rest.length < tokens.length then
        let (fields, rest) ← readFields nesting rest
        pure ((key, value) :: fields, rest)
      else .error (.malformed .operand)
    | _ =>
      let rest ← expect .closeBrace rest
      pure ([(key, value)], rest)
termination_by (nesting, 1, tokens.length)

end

/-- The expression that takes up all the tokens. -/
def ofTokens (tokens : List Token) : Except EvalError Expr := do
  let (expr, rest) ← readExpr maxNesting tokens
  if rest.isEmpty then pure expr else .error (.malformed .trailing)

def parse (source : String) : Except EvalError Expr := do
  ofTokens (← Token.all source.toList)

end Expr

end NimTemplate
