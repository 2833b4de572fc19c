import NimTemplate.Expr.Parser
import NimTemplate.Proofs.Basic

/-! One step of each reader of expressions: what it found and which readers it called, given that
it succeeded. Facts about everything that can be read are inductions over these steps. -/

namespace NimTemplate.Expr

theorem expect_eq_ok {p : Punct} {tokens rest : List Token} (met : expect p tokens = .ok rest) :
    tokens = .punct p :: rest := by
  unfold expect at met
  split at met
  next q behind =>
    split at met
    next same =>
      cases met
      rw [same]
    next => cases met
  next => cases met

/-- A token that can name a field, with the name. -/
inductive IsKey : Token → String → Prop where
  | name (s : String) : IsKey (.name s) s
  | text (s : String) : IsKey (.text s) s
  | number (x : Float) : IsKey (.number x) (Number.text x)

theorem readKey_eq_ok {tokens rest : List Token} {key : String} (done : readKey tokens = .ok (key, rest)) :
    ∃ token, tokens = token :: rest ∧ IsKey token key := by
  unfold readKey at done
  split at done
  next =>
    cases done
    exact ⟨_, rfl, .name key⟩
  next =>
    cases done
    exact ⟨_, rfl, .text key⟩
  next x _ =>
    cases done
    exact ⟨_, rfl, .number x⟩
  next => cases done

variable {nesting : Nat} {tokens rest : List Token} {expr : Expr}

theorem readExpr_eq_ok (done : readExpr nesting tokens = .ok (expr, rest)) :
    ∃ n, nesting = n + 1 ∧ readConditional n tokens = .ok (expr, rest) := by
  cases nesting with
  | zero =>
    rw [readExpr] at done
    cases done
  | succ n =>
    rw [readExpr] at done
    exact ⟨n, rfl, done⟩

theorem readConditional_eq_ok (done : readConditional nesting tokens = .ok (expr, rest)) :
    readChain nesting 6 tokens = .ok (expr, rest) ∨
    ∃ condition whenTrue whenFalse first second,
      readChain nesting 6 tokens = .ok (condition, .punct .question :: first) ∧
      readExpr nesting first = .ok (whenTrue, .punct .colon :: second) ∧
      readExpr nesting second = .ok (whenFalse, rest) ∧
      expr = .conditional condition whenTrue whenFalse := by
  rw [readConditional] at done
  obtain ⟨⟨condition, left⟩, tested, done⟩ := bind_eq_ok done
  dsimp only at done
  split at done
  next first =>
    obtain ⟨⟨whenTrue, behind⟩, one, done⟩ := bind_eq_ok done
    obtain ⟨second, colon, done⟩ := bind_eq_ok done
    obtain ⟨⟨whenFalse, last⟩, other, same⟩ := bind_eq_ok done
    cases same
    obtain rfl : behind = .punct .colon :: second := expect_eq_ok colon
    exact .inr ⟨condition, whenTrue, whenFalse, first, second, tested, one, other, rfl⟩
  next =>
    cases done
    exact .inl tested

theorem readChain_eq_ok {looseness : Nat} (done : readChain nesting (looseness + 1) tokens = .ok (expr, rest)) :
    ∃ left behind, readChain nesting looseness tokens = .ok (left, behind) ∧
      readConnected nesting looseness left behind = .ok (expr, rest) := by
  rw [readChain] at done
  obtain ⟨⟨left, behind⟩, first, done⟩ := bind_eq_ok done
  exact ⟨left, behind, first, done⟩

theorem readConnected_eq_ok {looseness : Nat} {left : Expr}
    (done : readConnected nesting looseness left tokens = .ok (expr, rest)) :
    (expr = left ∧ rest = tokens) ∨
    ∃ n p connective more right behind, nesting = n + 1 ∧ tokens = .punct p :: more ∧
      Connective.ofPunct? (looseness + 1) p = some connective ∧
      readChain n looseness more = .ok (right, behind) ∧
      readConnected n looseness (connective.apply left right) behind = .ok (expr, rest) := by
  rw [readConnected.eq_def] at done
  split at done
  next p more =>
    split at done
    next =>
      cases done
      exact .inl ⟨rfl, rfl⟩
    next connective found =>
      split at done
      next => cases done
      next n =>
        obtain ⟨⟨right, behind⟩, operand, done⟩ := bind_eq_ok done
        exact .inr ⟨n, p, connective, more, right, behind, rfl, rfl, found, operand, done⟩
  next =>
    cases done
    exact .inl ⟨rfl, rfl⟩

theorem readUnary_eq_ok (done : readUnary nesting tokens = .ok (expr, rest)) :
    ((∀ token ∈ tokens.head?, UnaryOp.ofToken? token = none) ∧ readApplied nesting tokens = .ok (expr, rest)) ∨
    ∃ n token op more operand, nesting = n + 1 ∧ tokens = token :: more ∧ UnaryOp.ofToken? token = some op ∧
      readUnary n more = .ok (operand, rest) ∧ expr = .unary op operand := by
  cases tokens with
  | nil =>
    rw [readUnary] at done
    exact .inl ⟨by simp, done⟩
  | cons token more =>
    rw [readUnary] at done
    split at done
    next unsigned => exact .inl ⟨by simpa using unsigned, done⟩
    next op signed =>
      split at done
      next => cases done
      next n =>
        obtain ⟨⟨operand, behind⟩, inner, same⟩ := bind_eq_ok done
        cases same
        exact .inr ⟨n, token, op, more, operand, rfl, rfl, signed, inner, rfl⟩

theorem readApplied_eq_ok (done : readApplied nesting tokens = .ok (expr, rest)) :
    ∃ operand behind, readOperand nesting tokens = .ok (operand, behind) ∧
      readSuffixes nesting operand behind = .ok (expr, rest) := by
  rw [readApplied] at done
  obtain ⟨⟨operand, behind⟩, first, done⟩ := bind_eq_ok done
  exact ⟨operand, behind, first, done⟩

/-- A property or a call behind an expression, and the longer expression with it. -/
inductive Suffix (nesting : Nat) (subject : Expr) : List Token → Expr → List Token → Prop where
  | property {s more} :
    Suffix nesting subject (.punct .dot :: .name s :: more) (.member subject (.text s)) more
  | index {inner key more} : readExpr nesting inner = .ok (key, .punct .closeBracket :: more) →
    Suffix nesting subject (.punct .openBracket :: inner) (.member subject key) more
  | call {inner arguments more} : readItems nesting .closeParen inner = .ok (arguments, more) →
    Suffix nesting subject (.punct .openParen :: inner) (.call subject arguments) more

theorem readSuffixes_eq_ok {subject : Expr} (done : readSuffixes nesting subject tokens = .ok (expr, rest)) :
    (expr = subject ∧ rest = tokens) ∨
    ∃ n next more, nesting = n + 1 ∧ Suffix n subject tokens next more ∧
      readSuffixes n next more = .ok (expr, rest) := by
  rw [readSuffixes.eq_def] at done
  split at done
  next behind =>
    split at done
    next => cases done
    next n =>
      split at done
      next => exact .inr ⟨n, _, _, rfl, .property, done⟩
      next => cases done
  next inner =>
    split at done
    next => cases done
    next n =>
      obtain ⟨⟨key, behind⟩, read, done⟩ := bind_eq_ok done
      obtain ⟨more, closed, done⟩ := bind_eq_ok done
      obtain rfl : behind = .punct .closeBracket :: more := expect_eq_ok closed
      exact .inr ⟨n, _, more, rfl, .index read, done⟩
  next inner =>
    split at done
    next => cases done
    next n =>
      obtain ⟨⟨arguments, more⟩, read, done⟩ := bind_eq_ok done
      exact .inr ⟨n, _, more, rfl, .call read, done⟩
  next =>
    cases done
    exact .inl ⟨rfl, rfl⟩

/-- What an operand starts with, and what is read behind that. -/
inductive Operand (nesting : Nat) : List Token → Expr → List Token → Prop where
  | number {x more} : Operand nesting (.number x :: more) (.number x) more
  | text {s more} : Operand nesting (.text s :: more) (.text s) more
  | name {s more} : s ∉ reserved → Operand nesting (.name s :: more) (.name s) more
  | group {inner expr more} : readExpr nesting inner = .ok (expr, .punct .closeParen :: more) →
    Operand nesting (.punct .openParen :: inner) expr more
  | array {inner exprs more} : readItems nesting .closeBracket inner = .ok (exprs, more) →
    Operand nesting (.punct .openBracket :: inner) (.array exprs) more
  | object {inner entries more} : readFields nesting inner = .ok (entries, more) →
    Operand nesting (.punct .openBrace :: inner) (.object entries) more

theorem readOperand_eq_ok (done : readOperand nesting tokens = .ok (expr, rest)) :
    Operand nesting tokens expr rest := by
  rw [readOperand.eq_def] at done
  split at done
  next =>
    cases done
    exact .number
  next =>
    cases done
    exact .text
  next s more =>
    split at done
    next => cases done
    next free =>
      cases done
      exact .name free
  next inner =>
    obtain ⟨⟨found, behind⟩, read, done⟩ := bind_eq_ok done
    obtain ⟨more, closed, same⟩ := bind_eq_ok done
    obtain rfl : behind = .punct .closeParen :: more := expect_eq_ok closed
    cases same
    exact .group read
  next inner =>
    obtain ⟨⟨exprs, more⟩, read, same⟩ := bind_eq_ok done
    cases same
    exact .array read
  next inner =>
    obtain ⟨⟨entries, more⟩, read, same⟩ := bind_eq_ok done
    cases same
    exact .object read
  next => cases done

theorem readItems_eq_ok {close : Punct} {exprs : List Expr}
    (done : readItems nesting close tokens = .ok (exprs, rest)) :
    (tokens = .punct close :: rest ∧ exprs = []) ∨
    (∃ item, readExpr nesting tokens = .ok (item, .punct close :: rest) ∧ exprs = [item]) ∨
    ∃ item items more, readExpr nesting tokens = .ok (item, .punct .comma :: more) ∧
      more.length < tokens.length ∧ readItems nesting close more = .ok (items, rest) ∧ exprs = item :: items := by
  rw [readItems] at done
  split at done
  next closes =>
    cases done
    obtain ⟨behind, rfl⟩ := List.head?_eq_some_iff.mp closes
    exact .inl ⟨rfl, rfl⟩
  next =>
    obtain ⟨⟨item, left⟩, read, done⟩ := bind_eq_ok done
    dsimp only at done
    split at done
    next more =>
      split at done
      next shorter =>
        obtain ⟨⟨items, behind⟩, again, same⟩ := bind_eq_ok done
        cases same
        exact .inr (.inr ⟨item, items, more, read, shorter, again, rfl⟩)
      next => cases done
    next =>
      obtain ⟨behind, closed, same⟩ := bind_eq_ok done
      cases same
      rw [expect_eq_ok closed] at read
      exact .inr (.inl ⟨item, read, rfl⟩)

theorem readFields_eq_ok {entries : List (String × Expr)} (done : readFields nesting tokens = .ok (entries, rest)) :
    (tokens = .punct .closeBrace :: rest ∧ entries = []) ∨
    ∃ token key value inner, tokens = token :: .punct .colon :: inner ∧ IsKey token key ∧
      ((readExpr nesting inner = .ok (value, .punct .closeBrace :: rest) ∧ entries = [(key, value)]) ∨
      ∃ fields more, readExpr nesting inner = .ok (value, .punct .comma :: more) ∧
        more.length < tokens.length ∧ readFields nesting more = .ok (fields, rest) ∧
        entries = (key, value) :: fields) := by
  rw [readFields] at done
  split at done
  next closes =>
    cases done
    obtain ⟨behind, rfl⟩ := List.head?_eq_some_iff.mp closes
    exact .inl ⟨rfl, rfl⟩
  next =>
    obtain ⟨⟨key, behind⟩, first, done⟩ := bind_eq_ok done
    obtain ⟨token, rfl, isKey⟩ := readKey_eq_ok first
    obtain ⟨inner, colon, done⟩ := bind_eq_ok done
    obtain rfl := expect_eq_ok colon
    obtain ⟨⟨value, left⟩, read, done⟩ := bind_eq_ok done
    refine .inr ⟨token, key, value, inner, rfl, isKey, ?_⟩
    dsimp only at done
    split at done
    next more =>
      split at done
      next shorter =>
        obtain ⟨⟨fields, behind⟩, again, same⟩ := bind_eq_ok done
        cases same
        exact .inr ⟨fields, more, read, shorter, again, rfl⟩
      next => cases done
    next =>
      obtain ⟨behind, closed, same⟩ := bind_eq_ok done
      cases same
      rw [expect_eq_ok closed] at read
      exact .inl ⟨read, rfl⟩

end NimTemplate.Expr
