import NimTemplate.Proofs.Constancy
import NimTemplate.Proofs.EvaluationOrder
import NimTemplate.Proofs.Grammar
import NimTemplate.Proofs.SpacedTokens

/-! Expressions that have no value though all their names are known. An operator takes any values, so
evaluation fails at properties and calls alone. -/

namespace NimTemplate.Expr

mutual

/-- The expression and all expressions in it. -/
def parts : Expr → List Expr
  | number x => [number x]
  | text s => [text s]
  | name s => [name s]
  | array items => array items :: partsOfItems items
  | object fields => object fields :: partsOfFields fields
  | unary op operand => unary op operand :: operand.parts
  | binary op left right => binary op left right :: (left.parts ++ right.parts)
  | logical op left right => logical op left right :: (left.parts ++ right.parts)
  | conditional condition whenTrue whenFalse =>
    conditional condition whenTrue whenFalse :: (condition.parts ++ whenTrue.parts ++ whenFalse.parts)
  | member subject property => member subject property :: (subject.parts ++ property.parts)
  | call function arguments => call function arguments :: (function.parts ++ partsOfItems arguments)

def partsOfItems : List Expr → List Expr
  | [] => []
  | item :: rest => item.parts ++ partsOfItems rest

def partsOfFields : List (String × Expr) → List Expr
  | [] => []
  | (_, value) :: rest => value.parts ++ partsOfFields rest

end

/-- A property or a call. -/
def isApplied : Expr → Bool
  | member _ _ | call _ _ => true
  | _ => false

variable {environment : Environment} {error : EvalError}

/-- Where all names are known, evaluation fails where it gets to something refused, and with its error. -/
theorem eval_eq_error_iff {expr : Expr} (known : ∀ name ∈ expr.freeNames, environment.Knows name) :
    expr.eval environment = .error error ↔
      ∃ node, Evaluates environment expr node ∧ Refused environment node error := by
  constructor
  · intro failed
    obtain ⟨node, evaluates, refused | ⟨s, _, _, free⟩⟩ := failsWithin_of_eval expr failed
    · exact ⟨node, evaluates, refused⟩
    · exact absurd free ((Environment.eval_error_of_known known failed).1 s)
  · rintro ⟨node, evaluates, refused⟩
    exact evaluates.eval_eq_error refused.eval_eq_error

theorem self_mem_parts (expr : Expr) : expr ∈ expr.parts := by
  cases expr <;> simp [parts]

theorem partsOfItems_eq (items : List Expr) : partsOfItems items = items.flatMap parts := by
  induction items with
  | nil => rfl
  | cons item items ih => rw [partsOfItems, ih, List.flatMap_cons]

theorem partsOfFields_eq (fields : List (String × Expr)) :
    partsOfFields fields = fields.flatMap fun field => field.2.parts := by
  induction fields with
  | nil => rfl
  | cons field fields ih => rw [partsOfFields, ih, List.flatMap_cons]

theorem Demands.parts_subset {outer inner : Expr} (demands : Demands environment outer inner) :
    inner.parts ⊆ outer.parts := by
  intro node member
  cases demands
  all_goals simp [parts, partsOfItems_eq, partsOfFields_eq, member]

theorem Evaluates.mem_parts {expr node : Expr} (evaluates : Evaluates environment expr node) : node ∈ expr.parts := by
  induction evaluates using Relation.ReflTransGen.head_induction_on with
  | refl => exact self_mem_parts node
  | head demands _ ih => exact demands.parts_subset ih

theorem Refused.isApplied {node : Expr} (refused : Refused environment node error) : node.isApplied := by
  cases refused <;> rfl

/-- Without properties and calls there is nothing to refuse. -/
theorem eval_of_unapplied {expr : Expr} (known : ∀ name ∈ expr.freeNames, environment.Knows name)
    (plain : ∀ node ∈ expr.parts, node.isApplied = false) : ∃ value, expr.eval environment = .ok value := by
  cases result : expr.eval environment with
  | ok value => exact ⟨value, rfl⟩
  | error error =>
    obtain ⟨node, evaluates, refused⟩ := (eval_eq_error_iff known).mp result
    have applied := refused.isApplied
    rw [plain node evaluates.mem_parts] at applied
    cases applied

/-! Operators. Each is applied to whatever values its operands have, so it remains that all those
the parser makes are written with a sign that stands for an operation. -/

/-- The operation on one value that a sign stands for. -/
def unaryOperation? : String → Option (Value → Value)
  | "!" => some fun value => .bool !value.isTruthy
  | "-" => some fun value => .number (-value.toNumber)
  | "+" => some fun value => .number value.toNumber
  | "typeof" => some fun value => .text value.typeName
  | _ => none

/-- The operation on two values that a sign stands for. -/
def binaryOperation? : String → Option (Value → Value → Value)
  | "+" => some Value.add
  | "-" => some fun a b => .number (a.toNumber - b.toNumber)
  | "*" => some fun a b => .number (a.toNumber * b.toNumber)
  | "/" => some fun a b => .number (a.toNumber / b.toNumber)
  | "%" => some fun a b => .number (Double.remainder a.toNumber b.toNumber)
  | "===" => some fun a b => .bool (a.strictEquals b)
  | "!==" => some fun a b => .bool !(a.strictEquals b)
  | "==" => some fun a b => .bool (a.looseEquals b)
  | "!=" => some fun a b => .bool !(a.looseEquals b)
  | "<" => some fun a b => .bool ((a.order? b).any (·.isLT))
  | ">" => some fun a b => .bool ((a.order? b).any (·.isGT))
  | "<=" => some fun a b => .bool ((a.order? b).any (·.isLE))
  | ">=" => some fun a b => .bool ((a.order? b).any (·.isGE))
  | _ => none

/-- A token outside of literals, as it is written. -/
def sign? : Token → Option String
  | .punct p => some p.text
  | .name s => some s
  | .number _ | .text _ => none

/-- An operator of the expression is written among the tokens, by a sign for what it computes. -/
def HasSign (tokens : List Token) : Expr → Prop
  | unary op _ => ∃ token ∈ tokens, (sign? token).bind unaryOperation? = some op.apply
  | binary op _ _ => ∃ token ∈ tokens, (sign? token).bind binaryOperation? = some op.apply
  | _ => True

def HaveSigns (tokens : List Token) (exprs : List Expr) : Prop := ∀ expr ∈ exprs, HasSign tokens expr

theorem HaveSigns.mono {tokens more : List Token} {exprs : List Expr} (signs : HaveSigns tokens exprs)
    (within : tokens ⊆ more) : HaveSigns more exprs := by
  intro expr member
  have sign := signs expr member
  unfold HasSign at sign ⊢
  split
  next =>
    obtain ⟨token, listed, means⟩ := sign
    exact ⟨token, within listed, means⟩
  next =>
    obtain ⟨token, listed, means⟩ := sign
    exact ⟨token, within listed, means⟩
  next => trivial

theorem HaveSigns.append {tokens : List Token} {exprs others : List Expr} (first : HaveSigns tokens exprs)
    (second : HaveSigns tokens others) : HaveSigns tokens (exprs ++ others) :=
  List.forall_mem_append.mpr ⟨first, second⟩

theorem HaveSigns.cons {tokens : List Token} {expr : Expr} {exprs : List Expr} (sign : HasSign tokens expr)
    (signs : HaveSigns tokens exprs) : HaveSigns tokens (expr :: exprs) :=
  List.forall_mem_cons.mpr ⟨sign, signs⟩

def Phrase.parts : Phrase → List Expr
  | conditional expr | binary _ expr | unary expr | applied expr | operand expr => expr.parts
  | items exprs => partsOfItems exprs
  | fields entries => partsOfFields entries

theorem unaryOperation?_of_mem {token : Token} {op : UnaryOp} (listed : (token, op) ∈ unaryOperators) :
    (sign? token).bind unaryOperation? = some op.apply := by
  simp only [unaryOperators, List.mem_cons, Prod.mk.injEq, List.not_mem_nil, or_false] at listed
  rcases listed with ⟨rfl, rfl⟩ | ⟨rfl, rfl⟩ | ⟨rfl, rfl⟩ | ⟨rfl, rfl⟩
  all_goals rfl

theorem binaryOperation?_of_mem {level : Nat} {p : Punct} {op : BinaryOp} (listed : (p, .binary op) ∈ operatorsAt level) :
    binaryOperation? p.text = some op.apply := by
  have member := mem_flatten_operators listed
  cases op
  all_goals
    simp only [operators, List.flatten_cons, List.flatten_nil, List.append_nil, List.cons_append, List.nil_append,
      List.mem_cons, Prod.mk.injEq, reduceCtorEq, and_false, Connective.binary.injEq, and_true, List.not_mem_nil,
      or_self, or_false, false_or] at member
    subst member
    rfl

/-- All operators in what is derived are written in the tokens it is derived from. -/
theorem Derives.haveSigns {phrase : Phrase} {tokens : List Token} (derived : Derives phrase tokens) :
    HaveSigns tokens phrase.parts := by
  induction derived with
  | plain _ ih | tighter _ _ ih | tightest _ ih | unsigned _ ih | bare _ ih => exact ih
  | number | text | name => exact .cons trivial (List.forall_mem_nil _)
  | noItems | noFields => exact List.forall_mem_nil _
  | choice _ _ _ tested one other =>
    refine .cons trivial (.append (.append (tested.mono ?_) (one.mono ?_)) (other.mono ?_))
    all_goals
      intro token member
      simp [member]
  | @joined level p connective left right before behind listed _ _ first second =>
    have operands : HaveSigns (before ++ .punct p :: behind) (left.parts ++ right.parts) := by
      refine .append (first.mono ?_) (second.mono ?_)
      all_goals
        intro token member
        simp [member]
    cases connective with
    | logical op => exact .cons trivial operands
    | binary op => exact .cons ⟨.punct p, by simp, binaryOperation?_of_mem listed⟩ operands
  | signed listed _ ih =>
    exact .cons ⟨_, by simp, unaryOperation?_of_mem listed⟩ (ih.mono (List.subset_cons_self _ _))
  | property s _ ih =>
    exact .cons trivial ((ih.mono (List.subset_append_left _ _)).append (.cons trivial (List.forall_mem_nil _)))
  | index _ _ subject inner | call _ _ subject inner =>
    refine .cons trivial (.append (subject.mono ?_) (inner.mono ?_))
    all_goals
      intro token member
      simp [member]
  | group _ ih =>
    apply ih.mono
    intro token member
    simp [member]
  | array _ ih | object _ ih =>
    refine .cons trivial (ih.mono ?_)
    intro token member
    simp [member]
  | lastItem _ ih => exact ih.append (List.forall_mem_nil _)
  | lastField isKey _ ih =>
    refine .append (ih.mono ?_) (List.forall_mem_nil _)
    intro token member
    simp [member]
  | nextItem _ _ first others | nextField _ _ _ first others =>
    refine .append (first.mono ?_) (others.mono ?_)
    all_goals
      intro token member
      simp [member]

theorem haveSigns_of_parse {source : String} {expr : Expr} (parsed : parse source = .ok expr) :
    ∃ tokens, Token.all source.toList = .ok tokens ∧ HaveSigns tokens expr.parts := by
  obtain ⟨tokens, lexed, done⟩ := bind_eq_ok parsed
  have derived := derives_of_ofTokens done
  exact ⟨tokens, lexed, derived.haveSigns⟩

/-- Evaluation of a parsed expression whose names are known fails if and only if it gets to a property or
a call that is refused, and then with the error of that one. Every operator in it is written with
a sign that stands for an operation on all values, so none is unknown. Hence it has a value if it
has no properties and calls. -/
theorem evaluation_fails_at_properties_and_calls {source : String} {expr : Expr} (parsed : parse source = .ok expr)
    (known : ∀ name ∈ expr.freeNames, Environment.standard.Knows name) :
    (∀ error, Environment.standard.evaluate source = .error error ↔
      ∃ node ∈ expr.parts, Evaluates .standard expr node ∧ Refused .standard node error) ∧
    (∃ tokens, Token.all source.toList = .ok tokens ∧ ∀ node ∈ expr.parts, HasSign tokens node) ∧
    ((∀ node ∈ expr.parts, node.isApplied = false) → ∃ value, Environment.standard.evaluate source = .ok value) := by
  rw [Environment.evaluate_of_known parsed known]
  refine ⟨?_, haveSigns_of_parse parsed, eval_of_unapplied known⟩
  intro error
  rw [eval_eq_error_iff known]
  constructor
  · rintro ⟨node, evaluates, refused⟩
    exact ⟨node, evaluates.mem_parts, evaluates, refused⟩
  · rintro ⟨node, _, evaluates, refused⟩
    exact ⟨node, evaluates, refused⟩

/-- A property of null behind an operator that does not stop before it. -/
theorem property_of_null_is_refused :
    let expr := logical .and (name "true") (member (name "null") (text "x"))
    (parse "true && null . x" = .ok expr ∧ ∀ name ∈ expr.freeNames, Environment.standard.Knows name) ∧
      Environment.standard.evaluate "true && null . x" = .error (.invalid (.absent "x" "null")) := by
  intro expr
  have lexed : Token.all "true && null . x".toList =
      .ok [.name "true", .punct .and, .name "null", .punct .dot, .name "x"] := by
    change Token.all (Token.spaced [(.name "true", [' ']), (.punct .and, [' ']), (.name "null", [' ']),
      (.punct .dot, [' ']), (.name "x", [])]) = _
    exact Token.all_spaced (by decide +kernel) (by decide +kernel) (by decide +kernel)
  have parsed : parse "true && null . x" = .ok expr := by
    rw [parse, lexed]
    conv => lhs; cbv
  have known : ∀ name ∈ expr.freeNames, Environment.standard.Knows name := by decide
  have evaluates : Evaluates .standard expr (member (name "null") (text "x")) := .single (.second rfl rfl)
  have refused : Refused .standard (member (name "null") (text "x")) (.invalid (.absent "x" "null")) :=
    .member rfl rfl (.absent rfl)
  refine ⟨⟨parsed, known⟩, ?_⟩
  exact ((evaluation_fails_at_properties_and_calls parsed known).1 _).mpr ⟨_, evaluates.mem_parts, evaluates, refused⟩

end NimTemplate.Expr
