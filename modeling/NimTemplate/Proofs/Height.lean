import NimTemplate.Proofs.Nesting

/-! How tall expressions can be. The nesting that a reader has left is given back behind each
operand, so a chain of operators may stand on an operand that has used it up already, and this
once for each level of operators. The limit on nesting bounds the height of a tree all the same,
though not by itself: the greatest height grows with its square. -/

namespace NimTemplate.Expr

mutual

/-- The number of nodes on the longest way down. -/
def height : Expr → Nat
  | number _ | text _ | name _ => 1
  | array items => 1 + heightOfItems items
  | object fields => 1 + heightOfFields fields
  | unary _ operand => 1 + operand.height
  | binary _ left right | logical _ left right | member left right => 1 + max left.height right.height
  | conditional condition whenTrue whenFalse => 1 + max condition.height (max whenTrue.height whenFalse.height)
  | call function arguments => 1 + max function.height (heightOfItems arguments)

def heightOfItems : List Expr → Nat
  | [] => 0
  | item :: rest => max item.height (heightOfItems rest)

def heightOfFields : List (String × Expr) → Nat
  | [] => 0
  | (_, value) :: rest => max value.height (heightOfFields rest)

end

theorem height_apply (connective : Connective) (left right : Expr) :
    (connective.apply left right).height = 1 + max left.height right.height := by
  cases connective <;> rfl

theorem height_pos (expr : Expr) : 0 < expr.height := by
  cases expr <;> simp only [height] <;> omega

/-- The greatest height that an expression can have with the given nesting. -/
def tallest : Nat → Nat
  | 0 => 0
  | 1 => 1
  | nesting + 2 => tallest (nesting + 1) + 7 * (nesting + 1) + 2

/-- The greatest height of operands joined up to a looseness. -/
def tallestChain (nesting looseness : Nat) : Nat := 1 + tallest nesting + (looseness + 1) * nesting

theorem tallest_le_succ (nesting : Nat) : tallest nesting ≤ tallest (nesting + 1) := by
  cases nesting with
  | zero => decide
  | succ nesting =>
    rw [tallest]
    omega

theorem tallestChain_lt_succ (nesting looseness : Nat) :
    tallestChain nesting looseness < tallestChain (nesting + 1) looseness := by
  have grows := tallest_le_succ nesting
  simp only [tallestChain, Nat.mul_succ]
  omega

theorem tallestChain_succ (nesting looseness : Nat) :
    tallestChain nesting (looseness + 1) = tallestChain nesting looseness + nesting := by
  simp only [tallestChain, Nat.succ_mul]
  omega

theorem tallestChain_le_tallest (nesting : Nat) : tallestChain nesting 6 ≤ tallest (nesting + 1) := by
  cases nesting with
  | zero => decide
  | succ nesting =>
    rw [tallestChain, tallest]
    omega

/-! No reader exceeds it. -/

/-- How tall the results of the readers are at one nesting. Behind a subject or a left operand, each
step takes one from the nesting and adds one to the height. -/
structure Bounded (nesting : Nat) : Prop where
  conditional : ∀ {tokens expr rest}, readConditional nesting tokens = .ok (expr, rest) →
    expr.height ≤ tallest (nesting + 1)
  expr : ∀ {tokens expr rest}, readExpr nesting tokens = .ok (expr, rest) → expr.height ≤ tallest nesting
  chain : ∀ {looseness tokens expr rest}, readChain nesting looseness tokens = .ok (expr, rest) →
    expr.height ≤ tallestChain nesting looseness
  connected : ∀ {looseness left tokens expr rest h}, readConnected nesting looseness left tokens = .ok (expr, rest) →
    left.height ≤ h → tallestChain nesting looseness ≤ h → expr.height ≤ h + nesting
  unary : ∀ {tokens expr rest}, readUnary nesting tokens = .ok (expr, rest) → expr.height ≤ tallestChain nesting 0
  suffixes : ∀ {subject tokens expr rest h}, readSuffixes nesting subject tokens = .ok (expr, rest) →
    subject.height ≤ h → 1 + tallest nesting ≤ h → expr.height ≤ h + nesting
  items : ∀ {close tokens exprs rest}, readItems nesting close tokens = .ok (exprs, rest) →
    heightOfItems exprs ≤ tallest nesting

section

variable {nesting : Nat}

private theorem readItems_height
    (inner : ∀ {tokens expr rest}, readExpr nesting tokens = .ok (expr, rest) → expr.height ≤ tallest nesting)
    {close : Punct} {tokens rest : List Token} {exprs : List Expr}
    (done : readItems nesting close tokens = .ok (exprs, rest)) : heightOfItems exprs ≤ tallest nesting := by
  rcases readItems_eq_ok done with ⟨_, rfl⟩ | ⟨item, read, rfl⟩ | ⟨item, items, more, read, shorter, again, rfl⟩
  · exact Nat.zero_le _
  · exact Nat.max_le.mpr ⟨inner read, Nat.zero_le _⟩
  · exact Nat.max_le.mpr ⟨inner read, readItems_height inner again⟩
termination_by tokens.length

private theorem readFields_height
    (inner : ∀ {tokens expr rest}, readExpr nesting tokens = .ok (expr, rest) → expr.height ≤ tallest nesting)
    {tokens rest : List Token} {entries : List (String × Expr)}
    (done : readFields nesting tokens = .ok (entries, rest)) : heightOfFields entries ≤ tallest nesting := by
  rcases readFields_eq_ok done with ⟨_, rfl⟩ | ⟨token, key, value, behind, first, isKey, others⟩
  · exact Nat.zero_le _
  · rcases others with ⟨read, rfl⟩ | ⟨fields, more, read, shorter, again, rfl⟩
    · exact Nat.max_le.mpr ⟨inner read, Nat.zero_le _⟩
    · exact Nat.max_le.mpr ⟨inner read, readFields_height inner again⟩
termination_by tokens.length

private theorem readOperand_height
    (inner : ∀ {tokens expr rest}, readExpr nesting tokens = .ok (expr, rest) → expr.height ≤ tallest nesting)
    {tokens rest : List Token} {expr : Expr} (done : readOperand nesting tokens = .ok (expr, rest)) :
    expr.height ≤ 1 + tallest nesting := by
  cases readOperand_eq_ok done with
  | number | text | name => exact Nat.le_add_right _ _
  | group read => exact Nat.le_trans (inner read) (Nat.le_add_left _ _)
  | array read => exact Nat.add_le_add_left (readItems_height inner read) 1
  | object read => exact Nat.add_le_add_left (readFields_height inner read) 1

-- As for what the readers take: one step deeper in the nesting everything is known.
variable (below : ∀ n, nesting = n + 1 → Bounded n)

include below

private theorem readExpr_height {tokens rest : List Token} {expr : Expr}
    (done : readExpr nesting tokens = .ok (expr, rest)) : expr.height ≤ tallest nesting := by
  obtain ⟨n, rfl, inner⟩ := readExpr_eq_ok done
  exact (below n rfl).conditional inner

private theorem readSuffixes_height {subject expr : Expr} {tokens rest : List Token} {h : Nat}
    (done : readSuffixes nesting subject tokens = .ok (expr, rest)) (base : subject.height ≤ h)
    (above : 1 + tallest nesting ≤ h) : expr.height ≤ h + nesting := by
  rcases readSuffixes_eq_ok done with ⟨rfl, rfl⟩ | ⟨n, next, more, rfl, suffix, done⟩
  · exact Nat.le_add_right_of_le base
  · have bounded := below n rfl
    have grows := tallest_le_succ n
    have step : next.height ≤ h + 1 := by
      cases suffix with
      | property =>
        simp only [height]
        omega
      | index read =>
        have key := bounded.expr read
        simp only [height]
        omega
      | call read =>
        have arguments := bounded.items read
        simp only [height]
        omega
    have all := bounded.suffixes done step (by omega)
    omega

private theorem readUnary_height {tokens rest : List Token} {expr : Expr}
    (done : readUnary nesting tokens = .ok (expr, rest)) : expr.height ≤ tallestChain nesting 0 := by
  rcases readUnary_eq_ok done with ⟨_, done⟩ | ⟨n, token, op, more, operand, rfl, rfl, sign, read, rfl⟩
  · obtain ⟨operand, behind, first, done⟩ := readApplied_eq_ok done
    have base := readOperand_height (readExpr_height below) first
    have all := readSuffixes_height below done base (Nat.le_refl _)
    rwa [tallestChain, Nat.zero_add, Nat.one_mul]
  · have inner := (below n rfl).unary read
    have grows := tallestChain_lt_succ n 0
    simp only [height]
    omega

private theorem readConnected_height {looseness : Nat} {left expr : Expr} {tokens rest : List Token} {h : Nat}
    (done : readConnected nesting looseness left tokens = .ok (expr, rest)) (base : left.height ≤ h)
    (above : tallestChain nesting looseness ≤ h) : expr.height ≤ h + nesting := by
  rcases readConnected_eq_ok done with
    ⟨rfl, rfl⟩ | ⟨n, p, connective, more, right, behind, rfl, rfl, found, read, further⟩
  · exact Nat.le_add_right_of_le base
  · have bounded := below n rfl
    have grows := tallestChain_lt_succ n looseness
    have operand := bounded.chain read
    have step : (connective.apply left right).height ≤ h + 1 := by
      rw [height_apply]
      omega
    have all := bounded.connected further step (by omega)
    omega

private theorem readChain_height {looseness : Nat} {tokens rest : List Token} {expr : Expr}
    (done : readChain nesting looseness tokens = .ok (expr, rest)) : expr.height ≤ tallestChain nesting looseness := by
  induction looseness generalizing tokens expr rest with
  | zero =>
    rw [readChain] at done
    exact readUnary_height below done
  | succ looseness ih =>
    obtain ⟨left, behind, first, done⟩ := readChain_eq_ok done
    rw [tallestChain_succ]
    exact readConnected_height below done (ih first) (Nat.le_refl _)

private theorem readConditional_height {tokens rest : List Token} {expr : Expr}
    (done : readConditional nesting tokens = .ok (expr, rest)) : expr.height ≤ tallest (nesting + 1) := by
  rcases readConditional_eq_ok done with done | ⟨condition, whenTrue, whenFalse, first, second, tested, one, other, rfl⟩
  · exact Nat.le_trans (readChain_height below done) (tallestChain_le_tallest nesting)
  · -- A choice has to read two expressions more, which takes some nesting.
    obtain ⟨n, rfl, _⟩ := readExpr_eq_ok one
    have condition := readChain_height below tested
    have yes := readExpr_height below one
    have no := readExpr_height below other
    rw [tallestChain] at condition
    rw [height, tallest]
    omega

private theorem bounded_of_below : Bounded nesting where
  conditional := readConditional_height below
  expr := readExpr_height below
  chain := readChain_height below
  connected := readConnected_height below
  unary := readUnary_height below
  suffixes := readSuffixes_height below
  items := readItems_height (readExpr_height below)

end

theorem bounded (nesting : Nat) : Bounded nesting := by
  induction nesting with
  | zero => exact bounded_of_below fun n deeper => absurd deeper (by omega)
  | succ nesting ih =>
    apply bounded_of_below
    intro n deeper
    obtain rfl : n = nesting := by omega
    exact ih

/-! Some tokens reach it: at each level a list that holds the level below, as many properties of it
and connectives of every looseness behind it as there is nesting, and a choice on all that. -/

def repeated (count : Nat) (unit : List Token) : List Token := (List.replicate count unit).flatten

theorem repeated_succ (count : Nat) (unit : List Token) : repeated (count + 1) unit = unit ++ repeated count unit := by
  rw [repeated, List.replicate_succ, List.flatten_cons, repeated]

/-- A connective of each looseness. -/
def connectiveAt : Nat → Punct
  | 1 => .times
  | 2 => .plus
  | 3 => .lt
  | 4 => .eq
  | 5 => .and
  | _ => .or

def climb (nesting : Nat) : (looseness : Nat) → List Token
  | 0 => repeated nesting [.punct .dot, .name "a"]
  | l + 1 => climb nesting l ++ repeated nesting [.punct (connectiveAt (l + 1)), .text ""]

/-- Tokens of the greatest height with one more nesting. -/
def tower : (nesting : Nat) → List Token
  | 0 => [.text ""]
  | n + 1 => .punct .openBracket :: tower n ++ .punct .closeBracket :: climb (n + 1) 6 ++
      [.punct .question, .text "", .punct .colon, .text ""]

/-- The reader takes all tokens but the rest, and makes an expression of that height. -/
def Reaches (result : Except EvalError (Expr × List Token)) (rest : List Token) (h : Nat) : Prop :=
  ∃ expr, result = .ok (expr, rest) ∧ expr.height = h

theorem readSuffixes_reaches (nesting : Nat) (subject : Expr) {rest : List Token} (stops : Stops 0 rest) :
    Reaches (readSuffixes nesting subject (repeated nesting [.punct .dot, .name "a"] ++ rest)) rest
      (subject.height + nesting) := by
  induction nesting generalizing subject with
  | zero => exact ⟨subject, readSuffixes_of_stops stops 0 subject, rfl⟩
  | succ nesting ih =>
    obtain ⟨expr, read, tall⟩ := ih (.member subject (.text "a"))
    have pos := height_pos subject
    refine ⟨expr, ?_, ?_⟩
    · rw [repeated_succ, List.append_assoc, List.cons_append, List.cons_append, readSuffixes, List.nil_append, read]
    · simp only [tall, height]
      omega

theorem stops_repeated {l : Nat} {p : Punct} {connective : Connective}
    (found : Connective.ofPunct? (l + 1) p = some connective) {rest : List Token} (stops : Stops (l + 1) rest)
    (count : Nat) : Stops l (repeated count [.punct p, .text ""] ++ rest) := by
  cases count with
  | zero => exact stops.mono l.le_succ
  | succ count =>
    rw [repeated_succ]
    apply stops_cons_iff.mpr
    rw [looseness_of_ofPunct? found]
    exact l.lt_succ_self

theorem readConnected_reaches (nesting : Nat) (left : Expr) {l : Nat} {p : Punct} {connective : Connective}
    (found : Connective.ofPunct? (l + 1) p = some connective) {rest : List Token} (stops : Stops (l + 1) rest) :
    Reaches (readConnected nesting l left (repeated nesting [.punct p, .text ""] ++ rest)) rest
      (left.height + nesting) := by
  induction nesting generalizing left with
  | zero => exact ⟨left, readConnected_of_stops stops 0 left, rfl⟩
  | succ nesting ih =>
    obtain ⟨expr, read, tall⟩ := ih (connective.apply left (.text ""))
    have ends := stops_repeated found stops nesting
    have right : readChain nesting l (.text "" :: (repeated nesting [.punct p, .text ""] ++ rest)) = .ok (.text "", _) :=
      readChain_of_applied rfl (readApplied_of_operand (readOperand_text "") (ends.mono l.zero_le)) ends
    have pos := height_pos left
    refine ⟨expr, ?_, ?_⟩
    · rw [repeated_succ, List.append_assoc, List.cons_append, readConnected_cons found, List.cons_append,
        List.nil_append, right]
      exact read
    · simp only [tall, height_apply, height]
      omega

theorem exists_connectiveAt {l : Nat} (level : l < 6) :
    ∃ connective, Connective.ofPunct? (l + 1) (connectiveAt (l + 1)) = some connective := by
  have all : ∀ l < 6, (Connective.ofPunct? (l + 1) (connectiveAt (l + 1))).isSome := by decide
  exact Option.isSome_iff_exists.mp (all l level)

theorem readChain_reaches {nesting : Nat} {token : Token} {more rest : List Token} {operand : Expr} {l : Nat}
    (level : l ≤ 6) (starts : startsOperand token)
    (read : readOperand nesting (token :: more) = .ok (operand, climb nesting l ++ rest)) (stops : Stops l rest) :
    Reaches (readChain nesting l (token :: more)) rest (operand.height + (l + 1) * nesting) := by
  induction l generalizing rest with
  | zero =>
    obtain ⟨expr, suffixes, tall⟩ := readSuffixes_reaches nesting operand stops
    refine ⟨expr, ?_, by omega⟩
    rw [readChain, readUnary_operand starts, readApplied, read]
    exact suffixes
  | succ l ih =>
    obtain ⟨connective, found⟩ := exists_connectiveAt level
    rw [climb, List.append_assoc] at read
    obtain ⟨left, chain, tall⟩ := ih (Nat.le_of_succ_le level) read (stops_repeated found stops nesting)
    obtain ⟨expr, connected, taller⟩ := readConnected_reaches nesting left found stops
    refine ⟨expr, ?_, ?_⟩
    · rw [readChain, chain]
      exact connected
    · rw [taller, tall, Nat.succ_mul (l + 1)]
      omega

theorem head?_tower_ne (nesting : Nat) (rest : List Token) :
    (tower nesting ++ rest).head? ≠ some (.punct .closeBracket) := by
  cases nesting <;> simp [tower]

theorem readExpr_reaches (nesting : Nat) {rest : List Token} (stops : Stops 7 rest) :
    Reaches (readExpr (nesting + 1) (tower nesting ++ rest)) rest (tallest (nesting + 1)) := by
  induction nesting generalizing rest with
  | zero => exact ⟨.text "", readExpr_of_operand rfl (readOperand_text "") stops, rfl⟩
  | succ n ih =>
    have plain {rest : List Token} (stops : Stops 7 rest) : readExpr (n + 1) (.text "" :: rest) = .ok (.text "", rest) :=
      readExpr_of_operand rfl (readOperand_text "") stops
    have colon : Stops 7 (.punct .colon :: .text "" :: rest) := stops_cons_iff.mpr (by decide)
    have question : Stops 6 (.punct .question :: .text "" :: .punct .colon :: .text "" :: rest) :=
      stops_cons_iff.mpr (by decide)
    have bracket : Stops 7 (.punct .closeBracket :: (climb (n + 1) 6 ++
        .punct .question :: .text "" :: .punct .colon :: .text "" :: rest)) := stops_cons_iff.mpr (by decide)
    -- The list at the bottom holds the level below.
    obtain ⟨inner, read, tall⟩ := ih bracket
    have items := readItems_last (by decide) (head?_tower_ne n _) read
    have list := readOperand_array.trans (congrArg (· >>= _) items)
    obtain ⟨condition, chain, taller⟩ := readChain_reaches (Nat.le_refl 6) rfl list question
    refine ⟨.conditional condition (.text "") (.text ""), ?_, ?_⟩
    · simp only [tower, List.append_assoc, List.cons_append, List.nil_append]
      rw [readExpr]
      exact readConditional_choice chain (plain colon) (plain stops)
    · simp only [height, taller, tallest, heightOfItems, tall]
      omega

/-! The limit itself is exceeded by lists that use up the nesting and a property behind them. -/

def lists : Nat → List Token
  | 0 => [.punct .openBracket, .punct .closeBracket]
  | n + 1 => .punct .openBracket :: lists n ++ [.punct .closeBracket]

def nestedList : Nat → Expr
  | 0 => .array []
  | n + 1 => .array [nestedList n]

theorem height_nestedList (n : Nat) : (nestedList n).height = n + 1 := by
  induction n with
  | zero => rfl
  | succ n ih =>
    simp only [nestedList, height, heightOfItems, ih]
    omega

theorem lists_eq_cons (n : Nat) : ∃ more, lists n = .punct .openBracket :: more := by
  cases n <;> exact ⟨_, rfl⟩

theorem readOperand_lists {n nesting : Nat} (enough : n ≤ nesting) (rest : List Token) :
    readOperand nesting (lists n ++ rest) = .ok (nestedList n, rest) := by
  induction n generalizing nesting rest with
  | zero =>
    rw [lists, List.cons_append, readOperand_array, List.cons_append, readItems_close]
    rfl
  | succ n ih =>
    obtain ⟨deeper, rfl⟩ : ∃ deeper, nesting = deeper + 1 := ⟨nesting - 1, by omega⟩
    obtain ⟨more, same⟩ := lists_eq_cons n
    have inner := ih (Nat.le_of_succ_le_succ enough) (.punct .closeBracket :: rest)
    have ends : Stops 7 (.punct .closeBracket :: rest) := stops_cons_iff.mpr (by decide)
    rw [same, List.cons_append] at inner
    have read := readExpr_of_operand rfl inner ends
    simp only [lists, same, List.cons_append, List.append_assoc, List.nil_append]
    rw [readOperand_array, readItems_last (by decide) (by simp) read]
    rfl

theorem ofTokens_lists : ofTokens (lists 255 ++ [.punct .dot, .name "length"]) =
    .ok (.member (nestedList 255) (.text "length")) := by
  obtain ⟨more, same⟩ := lists_eq_cons 255
  have operand := readOperand_lists (Nat.le_refl 255) [.punct .dot, .name "length"]
  apply ofTokens_of_readExpr
  have applied : readApplied 255 (lists 255 ++ [.punct .dot, .name "length"]) =
      .ok (.member (nestedList 255) (.text "length"), []) := by
    rw [readApplied, operand]
    change readSuffixes (254 + 1) _ _ = _
    rw [readSuffixes]
    exact readSuffixes_of_stops (Stops.nil 0) _ _
  rw [same, List.cons_append] at applied ⊢
  exact readExpr_of_applied rfl applied (Stops.nil 7)

theorem tallest_maxNesting : tallest maxNesting = 228991 := by
  decide +kernel

theorem height_le_of_ofTokens {tokens : List Token} {expr : Expr} (parsed : ofTokens tokens = .ok expr) :
    expr.height ≤ 228991 := by
  obtain ⟨⟨found, rest⟩, read, done⟩ := bind_eq_ok parsed
  dsimp only at done
  split at done
  next =>
    cases done
    exact Nat.le_trans ((bounded maxNesting).expr read) (Nat.le_of_eq tallest_maxNesting)
  next => cases done

/-- The limit on nesting lets no tree be taller than 228991, and lets one be as tall as that. -/
theorem parsed_trees_are_bounded {tokens : List Token} {expr : Expr} (parsed : ofTokens tokens = .ok expr) :
    expr.height ≤ 228991 ∧ ∃ others highest, ofTokens others = .ok highest ∧ highest.height = 228991 := by
  refine ⟨height_le_of_ofTokens parsed, ?_⟩
  obtain ⟨highest, read, tall⟩ := readExpr_reaches 255 (Stops.nil 7)
  rw [List.append_nil] at read
  exact ⟨tower 255, highest, ofTokens_of_readExpr read, tall.trans tallest_maxNesting⟩

/-- A property of lists that nest 256 deep. -/
theorem property_of_lists_is_bounded :
    ofTokens (lists 255 ++ [.punct .dot, .name "length"]) = .ok (.member (nestedList 255) (.text "length")) ∧
      (Expr.member (nestedList 255) (.text "length")).height ≤ 228991 :=
  ⟨ofTokens_lists, (parsed_trees_are_bounded ofTokens_lists).1⟩

/-- It is taller than the limit on nesting. -/
theorem property_of_lists_exceeds_limit :
    ∃ expr, ofTokens (lists 255 ++ [.punct .dot, .name "length"]) = .ok expr ∧ maxNesting < expr.height := by
  refine ⟨_, ofTokens_lists, ?_⟩
  rw [height, height_nestedList]
  decide

end NimTemplate.Expr
