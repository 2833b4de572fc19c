import NimTemplate.Proofs.Grammar

/-! Reading finds what the grammar derives. Given enough nesting a reader returns the expression
that its tokens derive and leaves the tokens behind it, and with less it says that the nesting is
too deep; so it is the nesting alone that separates the reader from the grammar, and no list of
tokens derives two expressions. -/

namespace NimTemplate.Expr

/-- From some nesting on there is the given result, and below it the nesting is too deep. -/
def Returns {α : Type} (read : Nat → Except EvalError α) (result : α) : Prop :=
  ∃ bound, ∀ nesting, read nesting = if bound ≤ nesting then .ok result else .error (.unsupported .nesting)

namespace Returns

variable {α β : Type} {read : Nat → Except EvalError α} {next whole : Nat → Except EvalError β} {first : α} {result : β}

theorem only (returns : Returns read first) (nesting : Nat) :
    read nesting = .ok first ∨ read nesting = .error (.unsupported .nesting) := by
  obtain ⟨bound, given⟩ := returns
  rw [given]
  by_cases enough : bound ≤ nesting
  · exact .inl (if_pos enough)
  · exact .inr (if_neg enough)

theorem unique {other : α} (one : Returns read first) (two : Returns read other) : first = other := by
  obtain ⟨a, one⟩ := one
  obtain ⟨b, two⟩ := two
  have same := (one (max a b)).symm.trans (two (max a b))
  rw [if_pos (Nat.le_max_left a b), if_pos (Nat.le_max_right a b)] at same
  exact Except.ok.inj same

theorem of_ok (done : ∀ nesting, whole nesting = .ok result) : Returns whole result :=
  ⟨0, fun nesting => by rw [done, if_pos nesting.zero_le]⟩

/-- What is done with the result of a reader, where a failure of the reader is passed on. -/
theorem andThen (before : Returns read first)
    (done : ∀ nesting, read nesting = .ok first → whole nesting = next nesting)
    (failed : ∀ nesting, read nesting = .error (.unsupported .nesting) →
      whole nesting = .error (.unsupported .nesting))
    (behind : Returns next result) : Returns whole result := by
  obtain ⟨a, before⟩ := before
  obtain ⟨b, behind⟩ := behind
  refine ⟨max a b, fun nesting => ?_⟩
  by_cases enough : a ≤ nesting
  · have same : max a b ≤ nesting ↔ b ≤ nesting := by omega
    rw [done nesting (by rw [before, if_pos enough]), behind]
    simp only [same]
  · rw [failed nesting (by rw [before, if_neg enough]), if_neg (by omega)]

theorem bind {next : Nat → α → Except EvalError β} (before : Returns read first)
    (behind : Returns (next · first) result) : Returns (fun nesting => read nesting >>= next nesting) result := by
  apply before.andThen _ _ behind
  · intro nesting done
    rw [done]
    rfl
  · intro nesting failed
    rw [failed]
    rfl

/-- A reader that takes one from the nesting first. -/
theorem deeper (spent : whole 0 = .error (.unsupported .nesting))
    (step : ∀ nesting, whole (nesting + 1) = next nesting) (behind : Returns next result) :
    Returns whole result := by
  obtain ⟨bound, behind⟩ := behind
  refine ⟨bound + 1, fun nesting => ?_⟩
  cases nesting with
  | zero => rw [spent, if_neg (by omega)]
  | succ nesting =>
    rw [step, behind]
    simp

end Returns

/-! Where an expression ends. -/

/-- How loosely a punctuator goes on with what stands before it: a suffix at 0, a connective at
its own looseness, a choice at 7. Beyond that it ends all expressions before it. -/
def looseness : Punct → Nat
  | .dot | .openBracket | .openParen => 0
  | .times | .divide | .modulo => 1
  | .plus | .minus => 2
  | .le | .ge | .lt | .gt => 3
  | .strictEq | .strictNe | .eq | .ne => 4
  | .and => 5
  | .or => 6
  | .question => 7
  | .not | .colon | .comma | .closeParen | .closeBracket | .openBrace | .closeBrace => 8

theorem looseness_of_ofPunct? {l : Nat} {p : Punct} {connective : Connective}
    (found : Connective.ofPunct? l p = some connective) : looseness p = l := by
  unfold Connective.ofPunct? at found
  split at found <;> cases found <;> rfl

/-- The tokens do not go on with an expression as loosely as given or tighter. -/
def Stops (bound : Nat) (tokens : List Token) : Prop :=
  ∀ p more, tokens = .punct p :: more → bound < looseness p

theorem Stops.nil (bound : Nat) : Stops bound [] := by
  intro p more same
  cases same

theorem stops_cons_iff {bound : Nat} {p : Punct} {more : List Token} :
    Stops bound (.punct p :: more) ↔ bound < looseness p := by
  constructor
  · intro stops
    exact stops p more rfl
  · intro loose q others same
    cases same
    exact loose

theorem Stops.mono {bound tighter : Nat} {tokens : List Token} (stops : Stops bound tokens) (le : tighter ≤ bound) :
    Stops tighter tokens :=
  fun p more same => Nat.lt_of_le_of_lt le (stops p more same)

theorem readSuffixes_of_stops {tokens : List Token} (stops : Stops 0 tokens) (nesting : Nat) (subject : Expr) :
    readSuffixes nesting subject tokens = .ok (subject, tokens) := by
  rw [readSuffixes.eq_def]
  split
  next => exact absurd (stops _ _ rfl) (by decide)
  next => exact absurd (stops _ _ rfl) (by decide)
  next => exact absurd (stops _ _ rfl) (by decide)
  next => rfl

theorem readConnected_of_stops {l : Nat} {tokens : List Token} (stops : Stops (l + 1) tokens) (nesting : Nat)
    (left : Expr) : readConnected nesting l left tokens = .ok (left, tokens) := by
  rw [readConnected.eq_def]
  split
  next p more =>
    split
    next => rfl
    next found =>
      have loose := stops p more rfl
      rw [looseness_of_ofPunct? found] at loose
      exact absurd loose (Nat.lt_irrefl _)
  next => rfl

/-! What expressions start with. -/

/-- The tokens that an operand can start with. -/
def startsOperand : Token → Bool
  | .number _ | .text _ => true
  | .name s => s != "typeof"
  | .punct p => p == .openParen || p == .openBracket || p == .openBrace

/-- The tokens that a phrase can start with, if it is an expression. -/
def Phrase.mayStart : Phrase → Token → Bool
  | .applied _, token | .operand _, token => startsOperand token
  | _, token => startsOperand token || (UnaryOp.ofToken? token).isSome

def Phrase.isExpr : Phrase → Bool
  | .items _ | .fields _ => false
  | _ => true

theorem ofToken?_of_startsOperand {token : Token} (starts : startsOperand token) : UnaryOp.ofToken? token = none := by
  unfold UnaryOp.ofToken?
  split
  next => cases starts
  next => cases starts
  next => cases starts
  next => cases starts
  next => rfl

/-- An expression has a first token. -/
theorem Derives.starts {phrase : Phrase} {tokens : List Token} (derived : Derives phrase tokens) (isExpr : phrase.isExpr) :
    ∃ token more, tokens = token :: more ∧ phrase.mayStart token := by
  induction derived with
  | noItems | lastItem | nextItem | noFields | lastField | nextField => cases isExpr
  | plain _ ih | tighter _ _ ih | tightest _ ih => exact ih rfl
  | unsigned _ ih =>
    obtain ⟨token, more, rfl, starts⟩ := ih rfl
    exact ⟨token, more, rfl, by simpa [Phrase.mayStart] using .inl starts⟩
  | bare _ ih => exact ih rfl
  | signed sign =>
    refine ⟨_, _, rfl, ?_⟩
    simp [Phrase.mayStart, ofToken?_eq_some_iff.mpr sign]
  | choice _ _ _ ih | joined _ _ _ ih | property _ _ ih | index _ _ ih | call _ _ ih =>
    obtain ⟨token, more, rfl, starts⟩ := ih rfl
    exact ⟨token, _, rfl, starts⟩
  | number | text | group | array | object => exact ⟨_, _, rfl, rfl⟩
  | name _ other => exact ⟨_, _, rfl, by simpa [Phrase.mayStart, startsOperand] using other⟩

/-- The first token of an expression closes no list. -/
theorem Derives.head?_ne {expr : Expr} {tokens : List Token} (derived : Derives (.conditional expr) tokens)
    {close : Punct} (closing : close ∈ [Punct.closeParen, .closeBracket]) (rest : List Token) :
    (tokens ++ rest).head? ≠ some (.punct close) := by
  obtain ⟨token, more, rfl, starts⟩ := derived.starts rfl
  intro same
  obtain rfl : token = .punct close := by simpa using same
  simp only [List.mem_cons, List.not_mem_nil, or_false] at closing
  rcases closing with rfl | rfl <;> cases starts

/-! Reading what is derived. -/

/-- A chain of connectives is read as far as an expression of it goes. Where further connectives
of the same looseness can follow, reading goes on behind them as it does behind the expression. -/
def FindsChain : Nat → Expr → List Token → Prop
  | 0, expr, tokens => ∀ rest, Stops 0 rest → Returns (readChain · 0 (tokens ++ rest)) (expr, rest)
  | l + 1, expr, tokens => ∀ rest result, Stops l rest → Returns (readConnected · l expr rest) result →
    Returns (readChain · (l + 1) (tokens ++ rest)) result

/-- The readers of a phrase find it in front of tokens that do not go on with it. -/
def Finds : Phrase → List Token → Prop
  | .conditional expr, tokens => ∀ rest, Stops 7 rest → Returns (readExpr · (tokens ++ rest)) (expr, rest)
  | .binary level expr, tokens => ∀ l, level + l = operators.length → FindsChain l expr tokens
  | .unary expr, tokens => ∀ rest, Stops 0 rest → Returns (readUnary · (tokens ++ rest)) (expr, rest)
  | .applied expr, tokens => ∀ rest result, Returns (readSuffixes · expr rest) result →
    Returns (readApplied · (tokens ++ rest)) result
  | .operand expr, tokens => ∀ rest, Returns (readOperand · (tokens ++ rest)) (expr, rest)
  | .items exprs, tokens => ∀ close ∈ [Punct.closeParen, .closeBracket], ∀ rest,
    Returns (readItems · close (tokens ++ .punct close :: rest)) (exprs, rest)
  | .fields entries, tokens => ∀ rest,
    Returns (readFields · (tokens ++ .punct .closeBrace :: rest)) (entries, rest)

theorem FindsChain.returns {l : Nat} {expr : Expr} {tokens rest : List Token} (finds : FindsChain l expr tokens)
    (stops : Stops l rest) : Returns (readChain · l (tokens ++ rest)) (expr, rest) := by
  cases l with
  | zero => exact finds rest stops
  | succ l =>
    refine finds rest _ (stops.mono l.le_succ) (.of_ok fun nesting => ?_)
    exact readConnected_of_stops stops nesting expr

/-! The readers on tokens whose beginning is known. -/

section

variable {nesting : Nat} {tokens first inner more : List Token} {condition left subject : Expr}

theorem expect_cons (p : Punct) (more : List Token) : expect p (.punct p :: more) = .ok more := if_pos rfl

theorem readConditional_of_stops {expr : Expr} {rest : List Token} (stops : Stops 7 rest)
    (read : readChain nesting 6 tokens = .ok (expr, rest)) : readConditional nesting tokens = .ok (expr, rest) := by
  rw [readConditional, read]
  dsimp only [bind, Except.bind]
  split
  next => exact absurd (stops _ _ rfl) (by decide)
  next => rfl

theorem readConditional_question (read : readChain nesting 6 tokens = .ok (condition, .punct .question :: first)) :
    readConditional nesting tokens = readExpr nesting first >>= fun one => expect .colon one.2 >>= fun second =>
      readExpr nesting second >>= fun other => .ok (.conditional condition one.1 other.1, other.2) := by
  rw [readConditional, read]
  rfl

theorem readConditional_error {error : EvalError} (failed : readChain nesting 6 tokens = .error error) :
    readConditional nesting tokens = .error error := by
  rw [readConditional, failed]
  rfl

theorem readConnected_cons {l : Nat} {p : Punct} {connective : Connective}
    (found : Connective.ofPunct? (l + 1) p = some connective) :
    readConnected (nesting + 1) l left (.punct p :: more) = readChain nesting l more >>= fun right =>
      readConnected nesting l (connective.apply left right.1) right.2 := by
  rw [readConnected, found]

theorem readConnected_zero {l : Nat} {p : Punct} {connective : Connective}
    (found : Connective.ofPunct? (l + 1) p = some connective) :
    readConnected 0 l left (.punct p :: more) = .error (.unsupported .nesting) := by
  rw [readConnected, found]

theorem readUnary_sign {sign : Token} {op : UnaryOp} (signed : UnaryOp.ofToken? sign = some op) :
    readUnary (nesting + 1) (sign :: more) =
      readUnary nesting more >>= fun operand => .ok (.unary op operand.1, operand.2) := by
  rw [readUnary, signed]
  rfl

theorem readUnary_zero {sign : Token} {op : UnaryOp} (signed : UnaryOp.ofToken? sign = some op) :
    readUnary 0 (sign :: more) = .error (.unsupported .nesting) := by
  rw [readUnary, signed]

theorem readUnary_operand {token : Token} (starts : startsOperand token) :
    readUnary nesting (token :: more) = readApplied nesting (token :: more) := by
  rw [readUnary, ofToken?_of_startsOperand starts]

theorem readSuffixes_index :
    readSuffixes (nesting + 1) subject (.punct .openBracket :: inner) = readExpr nesting inner >>= fun key =>
      expect .closeBracket key.2 >>= fun more => readSuffixes nesting (.member subject key.1) more := by
  rw [readSuffixes]

theorem readSuffixes_call :
    readSuffixes (nesting + 1) subject (.punct .openParen :: inner) =
      readItems nesting .closeParen inner >>= fun arguments =>
        readSuffixes nesting (.call subject arguments.1) arguments.2 := by
  rw [readSuffixes]

theorem readOperand_group :
    readOperand nesting (.punct .openParen :: inner) = readExpr nesting inner >>= fun found =>
      expect .closeParen found.2 >>= fun more => .ok (found.1, more) := by
  rw [readOperand]
  rfl

theorem readOperand_array :
    readOperand nesting (.punct .openBracket :: inner) =
      readItems nesting .closeBracket inner >>= fun items => .ok (.array items.1, items.2) := by
  rw [readOperand]
  rfl

theorem readOperand_object :
    readOperand nesting (.punct .openBrace :: inner) =
      readFields nesting inner >>= fun fields => .ok (.object fields.1, fields.2) := by
  rw [readOperand]
  rfl

theorem readItems_close (close : Punct) : readItems nesting close (.punct close :: more) = .ok ([], more) := by
  rw [readItems, if_pos (by rfl)]
  rfl

theorem readItems_last {close : Punct} {item : Expr} {rest : List Token} (other : close ≠ .comma)
    (starts : tokens.head? ≠ some (.punct close)) (read : readExpr nesting tokens = .ok (item, .punct close :: rest)) :
    readItems nesting close tokens = .ok ([item], rest) := by
  rw [readItems, if_neg starts, read]
  dsimp only [bind, Except.bind]
  split
  next same =>
    cases same
    exact absurd rfl other
  next =>
    rw [expect_cons]
    rfl

theorem readItems_comma {close : Punct} {item : Expr} (starts : tokens.head? ≠ some (.punct close))
    (shorter : more.length < tokens.length) (read : readExpr nesting tokens = .ok (item, .punct .comma :: more)) :
    readItems nesting close tokens =
      readItems nesting close more >>= fun others => .ok (item :: others.1, others.2) := by
  rw [readItems, if_neg starts, read]
  dsimp only [bind, Except.bind]
  rw [if_pos shorter]
  rfl

theorem readItems_error {close : Punct} {error : EvalError} (starts : tokens.head? ≠ some (.punct close))
    (failed : readExpr nesting tokens = .error error) : readItems nesting close tokens = .error error := by
  rw [readItems, if_neg starts, failed]
  rfl

theorem IsKey.readKey {token : Token} {key : String} (isKey : IsKey token key) :
    readKey (token :: more) = .ok (key, more) := by
  cases isKey <;> rfl

theorem IsKey.ne_punct {token : Token} {key : String} (isKey : IsKey token key) (p : Punct) : token ≠ .punct p := by
  cases isKey <;> exact Token.noConfusion

theorem readFields_close : readFields nesting (.punct .closeBrace :: more) = .ok ([], more) := by
  rw [readFields, if_pos (by rfl)]
  rfl

theorem head?_key {token : Token} {key : String} (isKey : IsKey token key) (p : Punct) :
    (token :: more).head? ≠ some (.punct p) := by
  simpa using isKey.ne_punct p

theorem readFields_last {token : Token} {key : String} {value : Expr} {rest : List Token} (isKey : IsKey token key)
    (read : readExpr nesting inner = .ok (value, .punct .closeBrace :: rest)) :
    readFields nesting (token :: .punct .colon :: inner) = .ok ([(key, value)], rest) := by
  rw [readFields, if_neg (head?_key isKey _), isKey.readKey]
  dsimp only [bind, Except.bind]
  rw [expect_cons]
  dsimp only
  rw [read]
  rfl

theorem readFields_comma {token : Token} {key : String} {value : Expr} (isKey : IsKey token key)
    (shorter : more.length < (token :: .punct .colon :: inner).length)
    (read : readExpr nesting inner = .ok (value, .punct .comma :: more)) :
    readFields nesting (token :: .punct .colon :: inner) =
      readFields nesting more >>= fun others => .ok ((key, value) :: others.1, others.2) := by
  rw [readFields, if_neg (head?_key isKey _), isKey.readKey]
  dsimp only [bind, Except.bind]
  rw [expect_cons]
  dsimp only
  rw [read]
  dsimp only
  rw [if_pos shorter]
  rfl

theorem readFields_error {token : Token} {key : String} {error : EvalError} (isKey : IsKey token key)
    (failed : readExpr nesting inner = .error error) :
    readFields nesting (token :: .punct .colon :: inner) = .error error := by
  rw [readFields, if_neg (head?_key isKey _), isKey.readKey]
  dsimp only [bind, Except.bind]
  rw [expect_cons]
  dsimp only
  rw [failed]

end

namespace Finds

variable {expr condition whenTrue whenFalse left right subject key : Expr} {exprs : List Expr}
  {tokens first second inner rest : List Token}

private theorem deepens {result : Expr × List Token} (returns : Returns (readConditional · tokens) result) :
    Returns (readExpr · tokens) result := by
  refine Returns.deeper ?_ (fun nesting => ?_) returns
  · rw [readExpr]
  · rw [readExpr]

theorem plain (found : Finds (.binary 0 expr) tokens) : Finds (.conditional expr) tokens := by
  intro rest stops
  have chain := (found 6 rfl).returns (stops.mono (by omega : 6 ≤ 7))
  apply deepens
  apply chain.andThen (fun _ => readConditional_of_stops stops) (fun _ => readConditional_error)
  exact .of_ok fun _ => rfl

theorem choice (tested : Finds (.binary 0 condition) tokens) (one : Finds (.conditional whenTrue) first)
    (other : Finds (.conditional whenFalse) second) :
    Finds (.conditional (.conditional condition whenTrue whenFalse))
      (tokens ++ .punct .question :: first ++ .punct .colon :: second) := by
  intro rest stops
  have question : Stops 6 (.punct .question :: (first ++ .punct .colon :: (second ++ rest))) :=
    stops_cons_iff.mpr (by decide)
  have colon : Stops 7 (.punct .colon :: (second ++ rest)) := stops_cons_iff.mpr (by decide)
  have chain := (tested 6 rfl).returns question
  simp only [List.append_assoc, List.cons_append]
  apply deepens
  apply chain.andThen (fun _ => readConditional_question) (fun _ => readConditional_error)
  exact (one _ colon).bind ((other rest stops).bind (.of_ok fun _ => rfl))

theorem joined {level : Nat} {p : Punct} {connective : Connective} {before behind : List Token}
    (listed : (p, connective) ∈ operatorsAt level) (one : Finds (.binary level left) before)
    (other : Finds (.binary (level + 1) right) behind) :
    Finds (.binary level (connective.apply left right)) (before ++ .punct p :: behind) := by
  intro l total
  have found := ofPunct?_of_mem total listed
  cases l with
  | zero => cases found
  | succ l =>
    intro rest result stops returns
    have operand := (other l (by omega)).returns stops
    rw [List.append_assoc]
    -- The left operand is read with this connective behind it, and the chain goes on from there.
    refine one (l + 1) total _ result ?_ ?_
    · exact stops_cons_iff.mpr (by rw [looseness_of_ofPunct? found]; omega)
    · apply Returns.deeper (readConnected_zero found) (fun _ => readConnected_cons found)
      exact operand.bind returns

theorem tighter {level : Nat} (inside : level < operators.length) (found : Finds (.binary (level + 1) expr) tokens) :
    Finds (.binary level expr) tokens := by
  intro l total
  cases l with
  | zero => omega
  | succ l =>
    intro rest result stops returns
    have operand := (found l (by omega)).returns stops
    simp only [readChain]
    exact operand.bind returns

theorem tightest (found : Finds (.unary expr) tokens) : Finds (.binary operators.length expr) tokens := by
  intro l total
  obtain rfl : l = 0 := by omega
  intro rest stops
  simp only [readChain]
  exact found rest stops

theorem signed {sign : Token} {op : UnaryOp} (listed : (sign, op) ∈ unaryOperators) (found : Finds (.unary expr) tokens) :
    Finds (.unary (.unary op expr)) (sign :: tokens) := by
  intro rest stops
  have sign := ofToken?_eq_some_iff.mpr listed
  apply Returns.deeper (readUnary_zero sign) (fun _ => readUnary_sign sign)
  exact (found rest stops).bind (.of_ok fun _ => rfl)

theorem unsigned (derived : Derives (.applied expr) tokens) (found : Finds (.applied expr) tokens) :
    Finds (.unary expr) tokens := by
  intro rest stops
  obtain ⟨token, more, rfl, starts⟩ := derived.starts rfl
  simp only [List.cons_append, readUnary_operand starts]
  exact found rest _ (.of_ok fun nesting => readSuffixes_of_stops stops nesting expr)

theorem bare (found : Finds (.operand expr) tokens) : Finds (.applied expr) tokens := by
  intro rest result returns
  simp only [readApplied]
  exact (found rest).bind returns

theorem property (s : String) (found : Finds (.applied subject) tokens) :
    Finds (.applied (.member subject (.text s))) (tokens ++ [.punct .dot, .name s]) := by
  intro rest result returns
  rw [List.append_assoc]
  refine found _ _ ?_
  apply Returns.deeper _ _ returns
  · rw [List.cons_append, readSuffixes]
  · intro nesting
    rw [List.cons_append, List.cons_append, readSuffixes, List.nil_append]

theorem index (found : Finds (.applied subject) tokens) (within : Finds (.conditional key) inner) :
    Finds (.applied (.member subject key)) (tokens ++ .punct .openBracket :: inner ++ [.punct .closeBracket]) := by
  intro rest result returns
  have ends : Stops 7 (.punct .closeBracket :: rest) := stops_cons_iff.mpr (by decide)
  simp only [List.append_assoc, List.cons_append, List.nil_append]
  refine found _ _ ?_
  apply Returns.deeper (by rw [readSuffixes]) (fun _ => readSuffixes_index)
  exact (within _ ends).bind returns

theorem call (found : Finds (.applied subject) tokens) (within : Finds (.items exprs) inner) :
    Finds (.applied (.call subject exprs)) (tokens ++ .punct .openParen :: inner ++ [.punct .closeParen]) := by
  intro rest result returns
  simp only [List.append_assoc, List.cons_append, List.nil_append]
  refine found _ _ ?_
  apply Returns.deeper (by rw [readSuffixes]) (fun _ => readSuffixes_call)
  exact (within .closeParen (by decide) rest).bind returns

theorem number (x : Float) : Finds (.operand (.number x)) [.number x] := by
  intro rest
  refine .of_ok fun nesting => ?_
  rw [List.singleton_append, readOperand]

theorem text (s : String) : Finds (.operand (.text s)) [.text s] := by
  intro rest
  refine .of_ok fun nesting => ?_
  rw [List.singleton_append, readOperand]

theorem name {s : String} (free : s ∉ reserved) : Finds (.operand (.name s)) [.name s] := by
  intro rest
  refine .of_ok fun nesting => ?_
  rw [List.singleton_append, readOperand, if_neg free]

theorem group (within : Finds (.conditional expr) inner) :
    Finds (.operand expr) (.punct .openParen :: inner ++ [.punct .closeParen]) := by
  intro rest
  have ends : Stops 7 (.punct .closeParen :: rest) := stops_cons_iff.mpr (by decide)
  simp only [List.append_assoc, List.cons_append, List.nil_append, readOperand_group]
  exact (within _ ends).bind (.of_ok fun _ => rfl)

theorem array (within : Finds (.items exprs) inner) :
    Finds (.operand (.array exprs)) (.punct .openBracket :: inner ++ [.punct .closeBracket]) := by
  intro rest
  simp only [List.append_assoc, List.cons_append, List.nil_append, readOperand_array]
  exact (within .closeBracket (by decide) rest).bind (.of_ok fun _ => rfl)

theorem object {entries : List (String × Expr)} (within : Finds (.fields entries) inner) :
    Finds (.operand (.object entries)) (.punct .openBrace :: inner ++ [.punct .closeBrace]) := by
  intro rest
  simp only [List.append_assoc, List.cons_append, List.nil_append, readOperand_object]
  exact (within rest).bind (.of_ok fun _ => rfl)

theorem noItems : Finds (.items []) [] := by
  intro close _ rest
  exact .of_ok fun nesting => readItems_close close

private theorem stops_closing {close : Punct} (closing : close ∈ [Punct.closeParen, .closeBracket]) (rest : List Token) :
    Stops 7 (.punct close :: rest) := by
  have beyond : ∀ close ∈ [Punct.closeParen, .closeBracket], 7 < looseness close := by decide
  exact stops_cons_iff.mpr (beyond close closing)

theorem lastItem (derived : Derives (.conditional expr) tokens) (found : Finds (.conditional expr) tokens) :
    Finds (.items [expr]) tokens := by
  intro close closing rest
  have starts := derived.head?_ne closing (.punct close :: rest)
  have other : close ≠ .comma := by
    rintro rfl
    exact absurd closing (by decide)
  apply (found _ (stops_closing closing rest)).andThen (fun _ => readItems_last other starts)
    (fun _ => readItems_error starts)
  exact .of_ok fun _ => rfl

theorem nextItem {others : List Token} (derived : Derives (.conditional expr) tokens)
    (found : Finds (.conditional expr) tokens) (following : Finds (.items exprs) others) :
    Finds (.items (expr :: exprs)) (tokens ++ .punct .comma :: others) := by
  intro close closing rest
  have comma : Stops 7 (.punct .comma :: (others ++ .punct close :: rest)) := stops_cons_iff.mpr (by decide)
  have starts := derived.head?_ne closing (.punct .comma :: (others ++ .punct close :: rest))
  have shorter : (others ++ .punct close :: rest).length <
      (tokens ++ .punct .comma :: (others ++ .punct close :: rest)).length := by
    simp only [List.length_cons, List.length_append]
    omega
  simp only [List.append_assoc, List.cons_append]
  apply (found _ comma).andThen (fun _ => readItems_comma starts shorter) (fun _ => readItems_error starts)
  exact (following close closing rest).bind (.of_ok fun _ => rfl)

theorem noFields : Finds (.fields []) [] := by
  intro rest
  exact .of_ok fun nesting => readFields_close

theorem lastField {token : Token} {name : String} (isKey : IsKey token name) (found : Finds (.conditional expr) tokens) :
    Finds (.fields [(name, expr)]) (token :: .punct .colon :: tokens) := by
  intro rest
  have ends : Stops 7 (.punct .closeBrace :: rest) := stops_cons_iff.mpr (by decide)
  apply (found _ ends).andThen (fun _ => readFields_last isKey) (fun _ => readFields_error isKey)
  exact .of_ok fun _ => rfl

theorem nextField {token : Token} {name : String} {entries : List (String × Expr)} {others : List Token}
    (isKey : IsKey token name) (found : Finds (.conditional expr) tokens) (following : Finds (.fields entries) others) :
    Finds (.fields ((name, expr) :: entries)) (token :: .punct .colon :: tokens ++ .punct .comma :: others) := by
  intro rest
  have comma : Stops 7 (.punct .comma :: (others ++ .punct .closeBrace :: rest)) := stops_cons_iff.mpr (by decide)
  have shorter : (others ++ .punct .closeBrace :: rest).length <
      (token :: .punct .colon :: (tokens ++ .punct .comma :: (others ++ .punct .closeBrace :: rest))).length := by
    simp only [List.length_cons, List.length_append]
    omega
  simp only [List.append_assoc, List.cons_append]
  apply (found _ comma).andThen (fun _ => readFields_comma isKey shorter) (fun _ => readFields_error isKey)
  exact (following rest).bind (.of_ok fun _ => rfl)

end Finds

/-- Every phrase is found wherever the grammar derives it. -/
theorem Derives.finds {phrase : Phrase} {tokens : List Token} (derived : Derives phrase tokens) : Finds phrase tokens := by
  induction derived with
  | plain _ found => exact found.plain
  | choice _ _ _ tested one other => exact tested.choice one other
  | tighter inside _ found => exact found.tighter inside
  | joined listed _ _ one other => exact one.joined listed other
  | tightest _ found => exact found.tightest
  | signed listed _ found => exact found.signed listed
  | unsigned derived found => exact found.unsigned derived
  | bare _ found => exact found.bare
  | property s _ found => exact found.property s
  | index _ _ found within => exact found.index within
  | call _ _ found within => exact found.call within
  | number x => exact .number x
  | text s => exact .text s
  | name free _ => exact .name free
  | group _ within => exact within.group
  | array _ within => exact within.array
  | object _ within => exact within.object
  | noItems => exact .noItems
  | lastItem derived found => exact found.lastItem derived
  | nextItem derived _ found following => exact found.nextItem derived following
  | noFields => exact .noFields
  | lastField isKey _ found => exact found.lastField isKey
  | nextField isKey _ _ found following => exact found.nextField isKey following

/-- The reader of whole expressions, by how deep they may nest. -/
theorem Derives.returns {expr : Expr} {tokens : List Token} (derived : Derives (.conditional expr) tokens) :
    Returns (readExpr · tokens) (expr, []) := by
  have found := derived.finds [] (Stops.nil 7)
  rwa [List.append_nil] at found

/-- Parsing accepts what the grammar derives and makes the derived tree of it, but for trees that
nest too deep, and no tokens derive two trees. -/
theorem parsing_follows_grammar (tokens : List Token) :
    (∀ expr, ofTokens tokens = .ok expr → Derives (.conditional expr) tokens) ∧
    (∀ expr, Derives (.conditional expr) tokens →
      ofTokens tokens = .ok expr ∨ ofTokens tokens = .error (.unsupported .nesting)) ∧
    (∀ expr other, Derives (.conditional expr) tokens → Derives (.conditional other) tokens → expr = other) ∧
    Limit.nesting.message = "nesting too deep" := by
  refine ⟨fun expr => derives_of_ofTokens, ?_, ?_, rfl⟩
  · intro expr derived
    rcases derived.returns.only maxNesting with read | failed
    · left
      rw [ofTokens, read]
      rfl
    · right
      rw [ofTokens, failed]
      rfl
  · intro expr other one two
    exact congrArg Prod.fst (one.returns.unique two.returns)

/-- Two differences in a row are taken from the left, and in no other way. -/
theorem differences_nest_left :
    Derives (.conditional (.binary .subtract (.binary .subtract (.name "a") (.name "b")) (.name "c")))
      [.name "a", .punct .minus, .name "b", .punct .minus, .name "c"] ∧
    ofTokens [.name "a", .punct .minus, .name "b", .punct .minus, .name "c"] =
      .ok (.binary .subtract (.binary .subtract (.name "a") (.name "b")) (.name "c")) ∧
    ¬ Derives (.conditional (.binary .subtract (.name "a") (.binary .subtract (.name "b") (.name "c"))))
      [.name "a", .punct .minus, .name "b", .punct .minus, .name "c"] := by
  have minus : (Punct.minus, Connective.binary .subtract) ∈ operatorsAt 4 := by decide
  have operand {s : String} (free : s ∉ reserved) (plain : s ≠ "typeof") : Derives (.binary 5 (.name s)) [.name s] :=
    .tighter (by decide) (.tightest (.unsigned (.bare (.name free plain))))
  have first : Derives (.binary 4 (.name "a")) [.name "a"] := .tighter (by decide) (operand (by decide) (by decide))
  have inner := Derives.joined minus first (operand (by decide : "b" ∉ reserved) (by decide))
  have outer := Derives.joined minus inner (operand (by decide : "c" ∉ reserved) (by decide))
  have loosest := Derives.plain (.tighter (by decide) (.tighter (by decide) (.tighter (by decide)
    (.tighter (by decide) outer))))
  obtain ⟨-, accepts, unique, -⟩ :=
    parsing_follows_grammar [.name "a", .punct .minus, .name "b", .punct .minus, .name "c"]
  refine ⟨loosest, (accepts _ loosest).resolve_right fun deep => ?_, fun other => ?_⟩
  · have shallow : (ofTokens [.name "a", .punct .minus, .name "b", .punct .minus, .name "c"]).isOk := by cbv
    rw [deep] at shallow
    cases shallow
  · cases unique _ _ loosest other

end NimTemplate.Expr
