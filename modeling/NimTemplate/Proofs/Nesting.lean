import NimTemplate.Proofs.Parsing

/-! Reading with a given nesting. An operand that ends where the tokens do not go on is a whole
expression, for which one more level of nesting is needed. -/

namespace NimTemplate.Expr

variable {nesting : Nat} {token : Token} {more rest : List Token} {expr : Expr}

theorem readChain_looser {tokens : List Token} {l : Nat} (read : readChain nesting l tokens = .ok (expr, rest))
    (more : Nat) (stops : Stops (l + more) rest) : readChain nesting (l + more) tokens = .ok (expr, rest) := by
  induction more with
  | zero => exact read
  | succ more ih =>
    rw [← Nat.add_assoc, readChain, ih (stops.mono (by omega))]
    exact readConnected_of_stops stops nesting expr

theorem readChain_error {tokens : List Token} {error : EvalError} {l : Nat}
    (failed : readChain nesting l tokens = .error error) (more : Nat) :
    readChain nesting (l + more) tokens = .error error := by
  induction more with
  | zero => exact failed
  | succ more ih =>
    rw [← Nat.add_assoc, readChain, ih]
    rfl

theorem readChain_of_applied (starts : startsOperand token)
    (read : readApplied nesting (token :: more) = .ok (expr, rest)) {l : Nat} (stops : Stops l rest) :
    readChain nesting l (token :: more) = .ok (expr, rest) := by
  have unary : readChain nesting 0 (token :: more) = .ok (expr, rest) := by
    rw [readChain, readUnary_operand starts, read]
  rw [← Nat.zero_add l] at stops ⊢
  exact readChain_looser unary l stops

theorem readExpr_of_applied (starts : startsOperand token)
    (read : readApplied nesting (token :: more) = .ok (expr, rest)) (stops : Stops 7 rest) :
    readExpr (nesting + 1) (token :: more) = .ok (expr, rest) := by
  rw [readExpr]
  exact readConditional_of_stops stops (readChain_of_applied starts read (stops.mono (by omega)))

theorem readApplied_of_operand (read : readOperand nesting (token :: more) = .ok (expr, rest)) (stops : Stops 0 rest) :
    readApplied nesting (token :: more) = .ok (expr, rest) := by
  rw [readApplied, read]
  exact readSuffixes_of_stops stops nesting expr

theorem readExpr_of_operand (starts : startsOperand token)
    (read : readOperand nesting (token :: more) = .ok (expr, rest)) (stops : Stops 7 rest) :
    readExpr (nesting + 1) (token :: more) = .ok (expr, rest) :=
  readExpr_of_applied starts (readApplied_of_operand read (stops.mono (by omega))) stops

theorem readExpr_of_operand_error {error : EvalError} (starts : startsOperand token)
    (failed : readOperand nesting (token :: more) = .error error) :
    readExpr (nesting + 1) (token :: more) = .error error := by
  have unary : readChain nesting 0 (token :: more) = .error error := by
    rw [readChain, readUnary_operand starts, readApplied, failed]
    rfl
  rw [readExpr]
  exact readConditional_error (readChain_error unary 6)

theorem readConditional_choice {tokens first second : List Token} {condition whenTrue whenFalse : Expr}
    (tested : readChain nesting 6 tokens = .ok (condition, .punct .question :: first))
    (one : readExpr nesting first = .ok (whenTrue, .punct .colon :: second))
    (other : readExpr nesting second = .ok (whenFalse, rest)) :
    readConditional nesting tokens = .ok (.conditional condition whenTrue whenFalse, rest) := by
  rw [readConditional_question tested, one]
  dsimp only [bind, Except.bind]
  rw [expect_cons]
  dsimp only
  rw [other]

theorem readOperand_text (s : String) : readOperand nesting (.text s :: rest) = .ok (.text s, rest) := by
  rw [readOperand]

theorem ofTokens_of_readExpr {tokens : List Token} (read : readExpr maxNesting tokens = .ok (expr, [])) :
    ofTokens tokens = .ok expr := by
  rw [ofTokens, read]
  rfl

theorem parse_of_operand {source : String} (lexed : Token.all source.toList = .ok (token :: more))
    (starts : startsOperand token) (read : readOperand 255 (token :: more) = .ok (expr, [])) :
    parse source = .ok expr := by
  rw [parse, lexed]
  exact ofTokens_of_readExpr (readExpr_of_operand starts read (Stops.nil 7))

theorem parse_text {source s : String} (lexed : Token.all source.toList = .ok [.text s]) : parse source = .ok (.text s) :=
  parse_of_operand lexed rfl (readOperand_text s)

theorem parse_name {source name : String} (lexed : Token.all source.toList = .ok [.name name])
    (free : name ∉ "typeof" :: reserved) : parse source = .ok (.name name) := by
  rw [List.mem_cons, not_or] at free
  refine parse_of_operand lexed (bne_iff_ne.mpr free.1) ?_
  rw [readOperand, if_neg free.2]

end NimTemplate.Expr
