import NimTemplate.Expr.Parser

/-! Reading with counters. A reader can also keep its place as a position in the tokens, and count how
deep it is: up before something is nested, and back behind it, by one where one thing was nested and
to the value it began with where a loop nests things one in the other. The number of calls that such
reading may make one inside the other is given from outside; where it would have to make more, it has
no result. What the steps of it do to the place is said here, and beside it, what the readers do that
are given the rest of the tokens and the nesting that is left. -/

namespace NimTemplate.Expr

/-- A place in a list of tokens, how deep it is, and the deepest that there was on the way to it. -/
structure Cursor where
  position : Nat
  depth : Nat
  deepest : Nat
deriving DecidableEq, Repr

namespace Cursor

def forward (cursor : Cursor) : Cursor := { cursor with position := cursor.position + 1 }

def deeper (cursor : Cursor) : Cursor :=
  { cursor with depth := cursor.depth + 1, deepest := max cursor.deepest (cursor.depth + 1) }

def atDepth (cursor : Cursor) (depth : Nat) : Cursor := { cursor with depth }

end Cursor

/-- Reading that moves a cursor. It may fail, and it may have no result. -/
abbrev Counted (α : Type) := StateT Cursor (ExceptT EvalError Option) α

namespace Counted

def peek (tokens : List Token) : Counted (Option Token) := do return tokens[(← get).position]?

def skip : Counted Unit := modify Cursor.forward

/-- The next token. The cursor moves on even if there is none. -/
def advance (tokens : List Token) : Counted (Option Token) := do
  let token ← peek tokens
  skip
  return token

/-- Moves behind a punctuator, if it is the next token. -/
def eat (tokens : List Token) (p : Punct) : Counted Bool := do
  if (← peek tokens) = some (.punct p) then
    skip
    return true
  else return false

def require (tokens : List Token) (p : Punct) : Counted Unit := do
  if !(← eat tokens p) then throw (.malformed (.expected p))

/-- Counts one more level, and fails if it is one too many. -/
def descend : Counted Unit := do
  modify Cursor.deeper
  if (← get).depth > maxNesting then throw (.unsupported .nesting)

def ascend : Counted Unit := modify fun cursor => cursor.atDepth (cursor.depth - 1)

def returnTo (depth : Nat) : Counted Unit := modify (·.atDepth depth)

/-- Reading that has made as many calls as it may. -/
def unfinished {α : Type} : Counted α := fun _ => (none : Option (Except EvalError (α × Cursor)))

end Counted

/-- The connective that a token is between operands of the given looseness. -/
def connective? (looseness : Nat) : Token → Option Connective
  | .punct p => Connective.ofPunct? (looseness + 1) p
  | _ => none

/-- The name of a field that a token can give. -/
def key? : Token → Option String
  | .name s | .text s => some s
  | .number x => some (Number.text x)
  | _ => none

section

variable (tokens : List Token)

open Counted

mutual

def countExpr : (calls : Nat) → Counted Expr
  | 0 => unfinished
  | calls + 1 => do
    descend
    let expr ← countConditional calls
    ascend
    return expr

def countConditional : (calls : Nat) → Counted Expr
  | 0 => unfinished
  | calls + 1 => do
    let condition ← countChain calls 6
    if ← eat tokens .question then
      let whenTrue ← countExpr calls
      require tokens .colon
      let whenFalse ← countExpr calls
      return .conditional condition whenTrue whenFalse
    else return condition

def countChain : (calls : Nat) → (looseness : Nat) → Counted Expr
  | 0, _ => unfinished
  | calls + 1, 0 => countUnary calls
  | calls + 1, looseness + 1 => do
    let left ← countChain calls looseness
    -- Each connective nests all to its left one deeper.
    let entry := (← get).depth
    let expr ← countConnected calls looseness left
    returnTo entry
    return expr

def countConnected : (calls looseness : Nat) → (left : Expr) → Counted Expr
  | 0, _, _ => unfinished
  | calls + 1, looseness, left => do
    match (← peek tokens).bind (connective? looseness) with
    | none => return left
    | some connective =>
      skip
      descend
      let right ← countChain calls looseness
      countConnected calls looseness (connective.apply left right)

def countUnary : (calls : Nat) → Counted Expr
  | 0 => unfinished
  | calls + 1 => do
    match (← peek tokens).bind UnaryOp.ofToken? with
    | none => countApplied calls
    | some op =>
      skip
      descend
      let operand ← countUnary calls
      ascend
      return .unary op operand

def countApplied : (calls : Nat) → Counted Expr
  | 0 => unfinished
  | calls + 1 => do
    let operand ← countOperand calls
    let entry := (← get).depth
    let expr ← countSuffixes calls operand
    returnTo entry
    return expr

def countSuffixes : (calls : Nat) → (subject : Expr) → Counted Expr
  | 0, _ => unfinished
  | calls + 1, subject => do
    match ← peek tokens with
    | some (.punct .dot) =>
      descend
      skip
      match ← advance tokens with
      | some (.name s) => countSuffixes calls (.member subject (.text s))
      | _ => throw (.malformed .propertyName)
    | some (.punct .openBracket) =>
      descend
      skip
      let property ← countExpr calls
      require tokens .closeBracket
      countSuffixes calls (.member subject property)
    | some (.punct .openParen) =>
      descend
      skip
      let arguments ← countItems calls .closeParen
      countSuffixes calls (.call subject arguments)
    | _ => return subject

def countOperand : (calls : Nat) → Counted Expr
  | 0 => unfinished
  | calls + 1 => do
    match ← advance tokens with
    | some (.number x) => return .number x
    | some (.text s) => return .text s
    | some (.name s) => if s ∈ reserved then throw (.unsupported (.reserved s)) else return .name s
    | some (.punct .openParen) =>
      let inner ← countExpr calls
      require tokens .closeParen
      return inner
    | some (.punct .openBracket) => return .array (← countItems calls .closeBracket)
    | some (.punct .openBrace) => return .object (← countFields calls)
    | _ => throw (.malformed .operand)

def countItems : (calls : Nat) → (close : Punct) → Counted (List Expr)
  | 0, _ => unfinished
  | calls + 1, close => do
    if ← eat tokens close then return []
    else
      let item ← countExpr calls
      if ← eat tokens .comma then return item :: (← countItems calls close)
      else
        require tokens close
        return [item]

def countFields : (calls : Nat) → Counted (List (String × Expr))
  | 0 => unfinished
  | calls + 1 => do
    if ← eat tokens .closeBrace then return []
    else
      match (← advance tokens).bind key? with
      | none => throw (.malformed .propertyKey)
      | some key =>
        require tokens .colon
        let value ← countExpr calls
        if ← eat tokens .comma then return (key, value) :: (← countFields calls)
        else
          require tokens .closeBrace
          return [(key, value)]

end

end

namespace Counted

variable {α : Type} {tokens : List Token} (next : Unit → Counted α) (cursor : Cursor)

theorem run_peek (next : Option Token → Counted α) :
    (peek tokens >>= next).run cursor = (next tokens[cursor.position]?).run cursor := rfl

theorem run_skip : (skip >>= next).run cursor = (next ()).run cursor.forward := rfl

theorem run_advance (next : Option Token → Counted α) :
    (advance tokens >>= next).run cursor = (next tokens[cursor.position]?).run cursor.forward := rfl

theorem run_eat (p : Punct) (next : Bool → Counted α) :
    (eat tokens p >>= next).run cursor =
      if tokens[cursor.position]? = some (.punct p) then (next true).run cursor.forward
      else (next false).run cursor := by
  unfold eat
  rw [bind_assoc, run_peek]
  split <;> rfl

theorem run_require (p : Punct) :
    (require tokens p >>= next).run cursor =
      if tokens[cursor.position]? = some (.punct p) then (next ()).run cursor.forward
      else some (.error (.malformed (.expected p))) := by
  unfold require
  rw [bind_assoc, run_eat]
  split <;> rfl

theorem run_descend :
    (descend >>= next).run cursor =
      if cursor.depth < maxNesting then (next ()).run cursor.deeper else some (.error (.unsupported .nesting)) := by
  have run : (descend >>= next).run cursor =
      ((if maxNesting < cursor.depth + 1 then throw (.unsupported .nesting) else pure ()) >>= next).run
        cursor.deeper := rfl
  rw [run]
  by_cases fits : cursor.depth < maxNesting
  · rw [if_neg (by omega), if_pos fits]
    rfl
  · rw [if_pos (by omega), if_neg fits]
    rfl

end Counted

/-! The readers by the token that comes next. -/

section

variable {nesting : Nat} {tokens : List Token}

theorem expect_eq (p : Punct) (tokens : List Token) :
    expect p tokens =
      if tokens.head? = some (.punct p) then .ok tokens.tail else .error (.malformed (.expected p)) := by
  rcases tokens with _ | ⟨_ | _ | _ | q, rest⟩ <;> simp [expect]

theorem readKey_eq (tokens : List Token) :
    readKey tokens = match tokens.head?.bind key? with
      | some key => .ok (key, tokens.tail)
      | none => .error (.malformed .propertyKey) := by
  rcases tokens with _ | ⟨_ | _ | _ | _, rest⟩ <;> rfl

theorem readExpr_eq :
    readExpr nesting tokens = match nesting with
      | 0 => .error (.unsupported .nesting)
      | nesting + 1 => readConditional nesting tokens := by
  cases nesting <;> rw [readExpr]

theorem readConditional_eq :
    readConditional nesting tokens = readChain nesting 6 tokens >>= fun (condition, rest) =>
      if rest.head? = some (.punct .question) then
        readExpr nesting rest.tail >>= fun (whenTrue, rest) =>
          expect .colon rest >>= fun rest =>
            readExpr nesting rest >>= fun (whenFalse, rest) =>
              .ok (.conditional condition whenTrue whenFalse, rest)
      else .ok (condition, rest) := by
  rw [readConditional]
  congr
  funext found
  obtain ⟨condition, rest⟩ := found
  rcases rest with _ | ⟨_ | _ | _ | p, rest⟩
  case cons.punct => cases p <;> rfl
  all_goals rfl

theorem readConnected_eq (looseness : Nat) (left : Expr) :
    readConnected nesting looseness left tokens = match tokens.head?.bind (connective? looseness) with
      | none => .ok (left, tokens)
      | some connective => match nesting with
        | 0 => .error (.unsupported .nesting)
        | nesting + 1 => readChain nesting looseness tokens.tail >>= fun (right, rest) =>
          readConnected nesting looseness (connective.apply left right) rest := by
  rw [readConnected.eq_def]
  rcases tokens with _ | ⟨_ | _ | _ | p, rest⟩ <;> rfl

theorem readUnary_eq :
    readUnary nesting tokens = match tokens.head?.bind UnaryOp.ofToken? with
      | none => readApplied nesting tokens
      | some op => match nesting with
        | 0 => .error (.unsupported .nesting)
        | nesting + 1 => readUnary nesting tokens.tail >>= fun (operand, rest) => .ok (.unary op operand, rest) := by
  rw [readUnary.eq_def]
  cases tokens <;> rfl

theorem readSuffixes_eq (subject : Expr) :
    readSuffixes nesting subject tokens = match tokens.head? with
      | some (.punct .dot) => match nesting with
        | 0 => .error (.unsupported .nesting)
        | nesting + 1 => match tokens.tail.head? with
          | some (.name s) => readSuffixes nesting (.member subject (.text s)) tokens.tail.tail
          | _ => .error (.malformed .propertyName)
      | some (.punct .openBracket) => match nesting with
        | 0 => .error (.unsupported .nesting)
        | nesting + 1 => readExpr nesting tokens.tail >>= fun (property, rest) =>
          expect .closeBracket rest >>= fun rest => readSuffixes nesting (.member subject property) rest
      | some (.punct .openParen) => match nesting with
        | 0 => .error (.unsupported .nesting)
        | nesting + 1 => readItems nesting .closeParen tokens.tail >>= fun (arguments, rest) =>
          readSuffixes nesting (.call subject arguments) rest
      | _ => .ok (subject, tokens) := by
  rw [readSuffixes.eq_def]
  rcases tokens with _ | ⟨_ | _ | _ | p, rest⟩
  case cons.punct =>
    cases p with
    | dot => rcases rest with _ | ⟨_ | _ | _ | _, rest⟩ <;> rfl
    | _ => rfl
  all_goals rfl

theorem readOperand_eq :
    readOperand nesting tokens = match tokens.head? with
      | some (.number x) => .ok (.number x, tokens.tail)
      | some (.text s) => .ok (.text s, tokens.tail)
      | some (.name s) =>
        if s ∈ reserved then .error (.unsupported (.reserved s)) else .ok (.name s, tokens.tail)
      | some (.punct .openParen) => readExpr nesting tokens.tail >>= fun (inner, rest) =>
        expect .closeParen rest >>= fun rest => .ok (inner, rest)
      | some (.punct .openBracket) => readItems nesting .closeBracket tokens.tail >>= fun (items, rest) =>
        .ok (.array items, rest)
      | some (.punct .openBrace) => readFields nesting tokens.tail >>= fun (fields, rest) => .ok (.object fields, rest)
      | _ => .error (.malformed .operand) := by
  rw [readOperand.eq_def]
  rcases tokens with _ | ⟨_ | _ | _ | p, rest⟩
  case cons.punct => cases p <;> rfl
  all_goals rfl

theorem ite_comma {α : Type} (tokens : List Token) (more : List Token → α) (last : α) :
    (match tokens with
      | .punct .comma :: rest => more rest
      | _ => last) = if tokens.head? = some (.punct .comma) then more tokens.tail else last := by
  rcases tokens with _ | ⟨_ | _ | _ | p, rest⟩
  case cons.punct => cases p <;> rfl
  all_goals rfl

theorem readItems_eq (close : Punct) :
    readItems nesting close tokens =
      if tokens.head? = some (.punct close) then .ok ([], tokens.tail)
      else readExpr nesting tokens >>= fun (item, rest) =>
        if rest.head? = some (.punct .comma) then
          if rest.tail.length < tokens.length then
            readItems nesting close rest.tail >>= fun (items, rest) => .ok (item :: items, rest)
          else .error (.malformed .operand)
        else expect close rest >>= fun rest => .ok ([item], rest) := by
  rw [readItems]
  split
  · rfl
  · congr
    funext found
    obtain ⟨item, rest⟩ := found
    exact ite_comma rest _ _

theorem readFields_eq :
    readFields nesting tokens =
      if tokens.head? = some (.punct .closeBrace) then .ok ([], tokens.tail)
      else readKey tokens >>= fun (key, rest) => expect .colon rest >>= fun rest =>
        readExpr nesting rest >>= fun (value, rest) =>
          if rest.head? = some (.punct .comma) then
            if rest.tail.length < tokens.length then
              readFields nesting rest.tail >>= fun (fields, rest) => .ok ((key, value) :: fields, rest)
            else .error (.malformed .operand)
          else expect .closeBrace rest >>= fun rest => .ok ([(key, value)], rest) := by
  rw [readFields]
  split
  · rfl
  · congr
    funext found
    obtain ⟨key, rest⟩ := found
    dsimp only
    congr
    funext rest
    congr
    funext found
    obtain ⟨value, rest⟩ := found
    exact ite_comma rest _ _

end

end NimTemplate.Expr
