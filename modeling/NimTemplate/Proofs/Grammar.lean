import NimTemplate.Proofs.Reading

/-! The grammar of expressions over tokens. It is stratified: conditionals are made of binary
expressions, which have six levels of operators from the loosest to the tightest, these of
unary ones, and so on down to operands. What the reader makes of a list of tokens is derived
by the grammar from those it took. -/

namespace NimTemplate.Expr

/-- The binary operators of each level with the node they make, the loosest level first. -/
def operators : List (List (Punct × Connective)) := [
  [(.or, .logical .or)],
  [(.and, .logical .and)],
  [(.strictEq, .binary .strictEq), (.strictNe, .binary .strictNe), (.eq, .binary .eq), (.ne, .binary .ne)],
  [(.le, .binary .le), (.ge, .binary .ge), (.lt, .binary .lt), (.gt, .binary .gt)],
  [(.plus, .binary .add), (.minus, .binary .subtract)],
  [(.times, .binary .multiply), (.divide, .binary .divide), (.modulo, .binary .remainder)]]

def operatorsAt (level : Nat) : List (Punct × Connective) := operators[level]?.getD []

theorem mem_flatten_operators {level : Nat} {entry : Punct × Connective} (listed : entry ∈ operatorsAt level) :
    entry ∈ operators.flatten := by
  unfold operatorsAt at listed
  cases found : operators[level]? with
  | none => simp [found] at listed
  | some entries =>
    rw [found] at listed
    exact List.mem_flatten.mpr ⟨entries, List.mem_of_getElem? found, listed⟩

def unaryOperators : List (Token × UnaryOp) :=
  [(.punct .not, .not), (.punct .minus, .negate), (.punct .plus, .plus), (.name "typeof", .typeOf)]

/-- The nonterminals, each with what the tokens under it stand for. -/
inductive Phrase where
  | conditional (expr : Expr)
  | binary (level : Nat) (expr : Expr)
  | unary (expr : Expr)
  | applied (expr : Expr)
  | operand (expr : Expr)
  | items (exprs : List Expr)
  | fields (entries : List (String × Expr))

/-- The productions. A list of items is empty, or one item, or an item, a comma and a list, so
that one comma may stand behind the last item; lists of fields are alike. -/
inductive Derives : Phrase → List Token → Prop where
  | plain {expr tokens} : Derives (.binary 0 expr) tokens → Derives (.conditional expr) tokens
  | choice {condition whenTrue whenFalse tested first second} :
    Derives (.binary 0 condition) tested → Derives (.conditional whenTrue) first →
      Derives (.conditional whenFalse) second →
      Derives (.conditional (.conditional condition whenTrue whenFalse))
        (tested ++ .punct .question :: first ++ .punct .colon :: second)
  | tighter {level expr tokens} : level < operators.length → Derives (.binary (level + 1) expr) tokens →
      Derives (.binary level expr) tokens
  | joined {level p connective left right before behind} : (p, connective) ∈ operatorsAt level →
      Derives (.binary level left) before → Derives (.binary (level + 1) right) behind →
      Derives (.binary level (connective.apply left right)) (before ++ .punct p :: behind)
  | tightest {expr tokens} : Derives (.unary expr) tokens → Derives (.binary operators.length expr) tokens
  | signed {sign op operand tokens} : (sign, op) ∈ unaryOperators → Derives (.unary operand) tokens →
      Derives (.unary (.unary op operand)) (sign :: tokens)
  | unsigned {expr tokens} : Derives (.applied expr) tokens → Derives (.unary expr) tokens
  | bare {expr tokens} : Derives (.operand expr) tokens → Derives (.applied expr) tokens
  | property {subject tokens} (s : String) : Derives (.applied subject) tokens →
      Derives (.applied (.member subject (.text s))) (tokens ++ [.punct .dot, .name s])
  | index {subject key tokens inner} : Derives (.applied subject) tokens → Derives (.conditional key) inner →
      Derives (.applied (.member subject key))
        (tokens ++ .punct .openBracket :: inner ++ [.punct .closeBracket])
  | call {function arguments tokens inner} : Derives (.applied function) tokens →
      Derives (.items arguments) inner →
      Derives (.applied (.call function arguments)) (tokens ++ .punct .openParen :: inner ++ [.punct .closeParen])
  | number (x : Float) : Derives (.operand (.number x)) [.number x]
  | text (s : String) : Derives (.operand (.text s)) [.text s]
  | name {s : String} : s ∉ reserved → s ≠ "typeof" → Derives (.operand (.name s)) [.name s]
  | group {expr inner} : Derives (.conditional expr) inner →
      Derives (.operand expr) (.punct .openParen :: inner ++ [.punct .closeParen])
  | array {exprs inner} : Derives (.items exprs) inner →
      Derives (.operand (.array exprs)) (.punct .openBracket :: inner ++ [.punct .closeBracket])
  | object {entries inner} : Derives (.fields entries) inner →
      Derives (.operand (.object entries)) (.punct .openBrace :: inner ++ [.punct .closeBrace])
  | noItems : Derives (.items []) []
  | lastItem {expr tokens} : Derives (.conditional expr) tokens → Derives (.items [expr]) tokens
  | nextItem {expr exprs tokens rest} : Derives (.conditional expr) tokens → Derives (.items exprs) rest →
      Derives (.items (expr :: exprs)) (tokens ++ .punct .comma :: rest)
  | noFields : Derives (.fields []) []
  | lastField {token key value tokens} : IsKey token key → Derives (.conditional value) tokens →
      Derives (.fields [(key, value)]) (token :: .punct .colon :: tokens)
  | nextField {token key value entries tokens rest} : IsKey token key → Derives (.conditional value) tokens →
      Derives (.fields entries) rest →
      Derives (.fields ((key, value) :: entries)) (token :: .punct .colon :: tokens ++ .punct .comma :: rest)

/-! The reader counts the levels from the tightest, so a level and its looseness add up to their
number. -/

theorem ofPunct?_of_mem {level looseness : Nat} (total : level + looseness = operators.length) {p : Punct}
    {connective : Connective} (listed : (p, connective) ∈ operatorsAt level) :
    Connective.ofPunct? looseness p = some connective := by
  have all : ∀ level ≤ 6, ∀ entry ∈ operatorsAt level, Connective.ofPunct? (6 - level) entry.1 = some entry.2 := by
    decide
  change level + looseness = 6 at total
  obtain rfl : looseness = 6 - level := by omega
  exact all level (by omega) _ listed

theorem mem_of_ofPunct? {level looseness : Nat} (total : level + looseness = operators.length) {p : Punct}
    {connective : Connective} (found : Connective.ofPunct? looseness p = some connective) :
    (p, connective) ∈ operatorsAt level := by
  change level + looseness = 6 at total
  obtain rfl : level = 6 - looseness := by omega
  unfold Connective.ofPunct? at found
  split at found <;> cases found <;> decide

theorem ofToken?_eq_some_iff {token : Token} {op : UnaryOp} :
    UnaryOp.ofToken? token = some op ↔ (token, op) ∈ unaryOperators := by
  unfold UnaryOp.ofToken?
  split <;> simp_all [unaryOperators, eq_comm]

/-! What the readers take. -/

/-- The tokens begin with the phrase, and the rest stands behind it. -/
def Begins (phrase : Phrase) (tokens rest : List Token) : Prop :=
  ∃ taken, tokens = taken ++ rest ∧ Derives phrase taken

/-- Whatever is read begins the tokens. -/
def Reads {α : Type} (read : List Token → Except EvalError (α × List Token)) (phrase : α → Phrase) : Prop :=
  ∀ {tokens value rest}, read tokens = .ok (value, rest) → Begins (phrase value) tokens rest

/-- What is read behind an expression makes a longer one of the same kind, which begins where the
first one does. -/
def Extends (read : Expr → List Token → Except EvalError (Expr × List Token)) (phrase : Expr → Phrase) : Prop :=
  ∀ {start left tokens expr rest}, Begins (phrase left) start tokens → read left tokens = .ok (expr, rest) →
    Begins (phrase expr) start rest

/-- What the readers take at one nesting, as far as readers one deeper in it rely on that. -/
structure Sound (nesting : Nat) : Prop where
  conditional : Reads (readConditional nesting) .conditional
  expr : Reads (readExpr nesting) .conditional
  chain : ∀ {level looseness}, level + looseness = operators.length →
    Reads (readChain nesting looseness) (.binary level)
  connected : ∀ {level looseness}, level + (looseness + 1) = operators.length →
    Extends (readConnected nesting looseness) (.binary level)
  unary : Reads (readUnary nesting) .unary
  suffixes : Extends (readSuffixes nesting) .applied
  items : ∀ {close tokens exprs rest}, readItems nesting close tokens = .ok (exprs, rest) →
    Begins (.items exprs) tokens (.punct close :: rest)

section

variable {nesting : Nat}

private theorem readItems_sound (inner : Reads (readExpr nesting) .conditional) {close : Punct}
    {tokens rest : List Token} {exprs : List Expr} (done : readItems nesting close tokens = .ok (exprs, rest)) :
    Begins (.items exprs) tokens (.punct close :: rest) := by
  rcases readItems_eq_ok done with ⟨rfl, rfl⟩ | ⟨item, read, rfl⟩ | ⟨item, items, more, read, shorter, again, rfl⟩
  · exact ⟨[], rfl, .noItems⟩
  · obtain ⟨taken, same, derived⟩ := inner read
    exact ⟨taken, same, .lastItem derived⟩
  · obtain ⟨taken, same, derived⟩ := inner read
    obtain ⟨others, following, list⟩ := readItems_sound inner again
    exact ⟨taken ++ .punct .comma :: others, by simp [same, following], .nextItem derived list⟩
termination_by tokens.length

private theorem readFields_sound (inner : Reads (readExpr nesting) .conditional) {tokens rest : List Token}
    {entries : List (String × Expr)} (done : readFields nesting tokens = .ok (entries, rest)) :
    Begins (.fields entries) tokens (.punct .closeBrace :: rest) := by
  rcases readFields_eq_ok done with ⟨rfl, rfl⟩ | ⟨token, key, value, behind, first, isKey, others⟩
  · exact ⟨[], rfl, .noFields⟩
  · rcases others with ⟨read, rfl⟩ | ⟨fields, more, read, shorter, again, rfl⟩
    · obtain ⟨taken, same, derived⟩ := inner read
      exact ⟨token :: .punct .colon :: taken, by simp [first, same], .lastField isKey derived⟩
    · obtain ⟨taken, same, derived⟩ := inner read
      obtain ⟨others, following, list⟩ := readFields_sound inner again
      exact ⟨token :: .punct .colon :: taken ++ .punct .comma :: others, by simp [first, same, following],
        .nextField isKey derived list⟩
termination_by tokens.length

/-- A name is not taken for an operand where it would be a sign. -/
private theorem readOperand_sound (inner : Reads (readExpr nesting) .conditional) {tokens rest : List Token}
    {expr : Expr} (unsigned : ∀ token ∈ tokens.head?, UnaryOp.ofToken? token = none)
    (done : readOperand nesting tokens = .ok (expr, rest)) : Begins (.operand expr) tokens rest := by
  cases readOperand_eq_ok done with
  | number => exact ⟨[_], rfl, .number _⟩
  | text => exact ⟨[_], rfl, .text _⟩
  | @name s _ free =>
    refine ⟨[.name s], rfl, .name free ?_⟩
    intro same
    have none := unsigned (.name s) rfl
    rw [same] at none
    cases none
  | group read =>
    obtain ⟨taken, rfl, derived⟩ := inner read
    exact ⟨_, by simp, .group derived⟩
  | array read =>
    obtain ⟨taken, rfl, derived⟩ := readItems_sound inner read
    exact ⟨_, by simp, .array derived⟩
  | object read =>
    obtain ⟨taken, rfl, derived⟩ := readFields_sound inner read
    exact ⟨_, by simp, .object derived⟩

-- One step deeper in the nesting, as long as there is one, everything is known to be sound.
variable (below : ∀ n, nesting = n + 1 → Sound n)

include below

private theorem readExpr_sound : Reads (readExpr nesting) .conditional := by
  intro tokens expr rest done
  obtain ⟨n, deeper, done⟩ := readExpr_eq_ok done
  exact (below n deeper).conditional done

private theorem readSuffixes_sound : Extends (readSuffixes nesting) .applied := by
  intro start left tokens expr rest begins done
  rcases readSuffixes_eq_ok done with ⟨rfl, rfl⟩ | ⟨n, next, more, deeper, suffix, done⟩
  · exact begins
  · have sound := below n deeper
    obtain ⟨before, rfl, subject⟩ := begins
    refine sound.suffixes ?_ done
    cases suffix with
    | property => exact ⟨_, by simp, .property _ subject⟩
    | index read =>
      obtain ⟨taken, rfl, derived⟩ := sound.expr read
      exact ⟨_, by simp, .index subject derived⟩
    | call read =>
      obtain ⟨taken, rfl, derived⟩ := sound.items read
      exact ⟨_, by simp, .call subject derived⟩

private theorem readUnary_sound : Reads (readUnary nesting) .unary := by
  intro tokens expr rest done
  rcases readUnary_eq_ok done with ⟨unsigned, done⟩ | ⟨n, token, op, more, operand, deeper, rfl, sign, read, rfl⟩
  · obtain ⟨operand, behind, first, done⟩ := readApplied_eq_ok done
    obtain ⟨taken, same, derived⟩ := readOperand_sound (readExpr_sound below) unsigned first
    obtain ⟨all, same, derived⟩ := readSuffixes_sound below ⟨taken, same, .bare derived⟩ done
    exact ⟨all, same, .unsigned derived⟩
  · obtain ⟨taken, rfl, derived⟩ := (below n deeper).unary read
    exact ⟨token :: taken, rfl, .signed (ofToken?_eq_some_iff.mp sign) derived⟩

private theorem readConnected_sound {level looseness : Nat} (total : level + (looseness + 1) = operators.length) :
    Extends (readConnected nesting looseness) (.binary level) := by
  intro start left tokens expr rest begins done
  rcases readConnected_eq_ok done with
    ⟨rfl, rfl⟩ | ⟨n, p, connective, more, right, behind, deeper, rfl, found, read, further⟩
  · exact begins
  · have sound := below n deeper
    obtain ⟨before, rfl, derived⟩ := begins
    have begins : Begins (.binary (level + 1) right) more behind := sound.chain (by omega) read
    obtain ⟨taken, rfl, operand⟩ := begins
    have listed := mem_of_ofPunct? total found
    exact sound.connected total ⟨before ++ .punct p :: taken, by simp, .joined listed derived operand⟩ further

private theorem readChain_sound (looseness : Nat) {level : Nat} (total : level + looseness = operators.length) :
    Reads (readChain nesting looseness) (.binary level) := by
  intro tokens expr rest done
  induction looseness generalizing level tokens expr rest with
  | zero =>
    rw [readChain] at done
    obtain ⟨taken, same, derived⟩ := readUnary_sound below done
    obtain rfl : level = operators.length := total
    exact ⟨taken, same, .tightest derived⟩
  | succ looseness ih =>
    obtain ⟨left, behind, first, done⟩ := readChain_eq_ok done
    have begins : Begins (.binary (level + 1) left) tokens behind := ih (by omega) first
    obtain ⟨taken, same, derived⟩ := begins
    exact readConnected_sound below total ⟨taken, same, .tighter (by omega) derived⟩ done

private theorem readConditional_sound : Reads (readConditional nesting) .conditional := by
  intro tokens expr rest done
  rcases readConditional_eq_ok done with done | ⟨condition, whenTrue, whenFalse, first, second, tested, one, other, rfl⟩
  · obtain ⟨taken, same, derived⟩ := readChain_sound below 6 rfl done
    exact ⟨taken, same, .plain derived⟩
  · obtain ⟨before, rfl, chosen⟩ := readChain_sound below 6 rfl tested
    obtain ⟨taken, rfl, yes⟩ := readExpr_sound below one
    obtain ⟨last, rfl, no⟩ := readExpr_sound below other
    exact ⟨_, by simp, .choice chosen yes no⟩

private theorem sound_of_below : Sound nesting where
  conditional := readConditional_sound below
  expr := readExpr_sound below
  chain := readChain_sound below _
  connected := readConnected_sound below
  unary := readUnary_sound below
  suffixes := readSuffixes_sound below
  items := readItems_sound (readExpr_sound below)

end

theorem sound (nesting : Nat) : Sound nesting := by
  induction nesting with
  | zero => exact sound_of_below fun n deeper => absurd deeper (by omega)
  | succ nesting ih =>
    apply sound_of_below
    intro n deeper
    obtain rfl : n = nesting := by omega
    exact ih

/-- All the tokens are taken up by an expression that the grammar derives from them. -/
theorem derives_of_ofTokens {tokens : List Token} {expr : Expr} (done : ofTokens tokens = .ok expr) :
    Derives (.conditional expr) tokens := by
  obtain ⟨⟨found, rest⟩, read, done⟩ := bind_eq_ok done
  dsimp only at done
  split at done
  next ended =>
    cases done
    obtain ⟨taken, rfl, derived⟩ := (sound maxNesting).expr read
    rw [List.isEmpty_iff.mp ended, List.append_nil]
    exact derived
  next => cases done

end NimTemplate.Expr
