import Mathlib.Logic.Relation
import NimTemplate.Expr.Eval
import NimTemplate.Proofs.Digits

/-! The order of evaluation. Which parts of an expression are evaluated depends on the values of
those before them. A failure comes from a part that is evaluated and fails on its own: from a name
that is not known, or from a property or a call that the values refuse. -/

namespace NimTemplate

/-! Operations on values that are refused. -/

namespace Value

/-- Decimal digits whose number fits a word. -/
def IsIndex (key : String) : Prop :=
  key ≠ "" ∧ (∀ c ∈ key.toList, c.isDigit) ∧ Nat.ofDigitChars 10 key.toList 0 < wordSize

/-- Properties that are not read, with the reason. -/
inductive RefusesProperty : (subject key : Value) → EvalError → Prop where
  | absent {subject key} : subject.isNullish →
    RefusesProperty subject key (.invalid (.absent key.toText subject.toText))
  | bool {b key} : RefusesProperty (.bool b) key (.unsupported (.property key.toText))
  | number {x key} : RefusesProperty (.number x) key (.unsupported (.property key.toText))
  | builtin {b key} : RefusesProperty (.builtin b) key (.unsupported (.property key.toText))
  | twoUnits {s key c} : IsIndex key.toText → c ∈ s.toList → 0xFFFF < c.toNat →
    RefusesProperty (.text s) key (.unsupported .astralIndex)

/-- Calls that are not made, with the reason. An argument that is missing counts as undefined. -/
inductive RefusesCall : (function : Value) → (arguments : List Value) → EvalError → Prop where
  | notFunction {function arguments} : (∀ b, function ≠ .builtin b) →
    RefusesCall function arguments (.invalid (.notCallable function.typeName))
  | noList {arguments} : (∀ items, Builtin.argument arguments 0 ≠ .array items) →
    RefusesCall (.builtin .classes) arguments (.invalid (.classList (Builtin.argument arguments 0).typeName))

theorem isSome_index?_iff {key : String} : (index? key).isSome ↔ IsIndex key := by
  have empty : key.toList = [] ↔ key = "" := by simp
  constructor
  · intro found
    obtain ⟨place, found⟩ := Option.isSome_iff_exists.mp found
    obtain ⟨natural, fits⟩ := Option.filter_eq_some_iff.mp found
    obtain ⟨filled, digits, rfl⟩ := Decimal.natural?_eq_some natural
    exact ⟨fun none => filled (empty.mpr none), digits, by simpa using fits⟩
  · rintro ⟨filled, digits, fits⟩
    rw [index?, Decimal.natural?_of_digits (fun none => filled (empty.mp none)) digits]
    simp [fits]

theorem any_units_iff {chars : List Char} : chars.any (units · == 2) ↔ ∃ c ∈ chars, 0xFFFF < c.toNat := by
  simp only [List.any_eq_true, beq_iff_eq, units]
  grind

theorem property_eq_error_iff {subject key : Value} {error : EvalError} :
    subject.property key = .error error ↔ RefusesProperty subject key error := by
  constructor
  · intro failed
    cases subject with
    | undefined | null =>
      cases failed
      exact .absent rfl
    | bool =>
      cases failed
      exact .bool
    | number =>
      cases failed
      exact .number
    | builtin =>
      cases failed
      exact .builtin
    | text s =>
      simp only [property] at failed
      split at failed
      next => cases failed
      next =>
        split at failed
        next => cases failed
        next place found =>
          split at failed
          next wide =>
            cases failed
            obtain ⟨c, member, large⟩ := any_units_iff.mp wide
            exact .twoUnits (isSome_index?_iff.mp (by simp [found])) member large
          next => cases failed
    | array items =>
      simp only [property] at failed
      split at failed
      all_goals cases failed
    | object fields => cases failed
  · intro refused
    cases refused with
    | absent nullish =>
      cases subject with
      | undefined | null => rfl
      | bool | number | text | array | object | builtin => cases nullish
    | bool | number | builtin => rfl
    | twoUnits index member large =>
      have wide := any_units_iff.mpr ⟨_, member, large⟩
      have other : key.toText ≠ "length" := by
        intro same
        have digit := index.2.1 'l' (by simp [same])
        cases digit
      obtain ⟨place, found⟩ := Option.isSome_iff_exists.mp (isSome_index?_iff.mpr index)
      simp only [property, if_neg other, found, if_pos wide]

theorem call_eq_error_iff {function : Value} {arguments : List Value} {error : EvalError} :
    function.call arguments = .error error ↔ RefusesCall function arguments error := by
  constructor
  · intro failed
    cases function with
    | builtin b =>
      cases b with
      | escape | style | joinClasses | attr => cases failed
      | classes =>
        simp only [Value.call, Builtin.call] at failed
        split at failed
        next => cases failed
        next other =>
          cases failed
          exact .noList other
    | undefined | null | bool | number | text | array | object =>
      cases failed
      exact .notFunction fun b => Value.noConfusion
  · intro refused
    cases refused with
    | notFunction other =>
      cases function with
      | builtin b => exact absurd rfl (other b)
      | undefined | null | bool | number | text | array | object => rfl
    | noList other => simp only [Value.call, Builtin.call]

end Value

/-! Parts that are evaluated. -/

namespace Expr

variable {environment : Environment} {error : EvalError}

/-- To evaluate the first expression its part is evaluated, since all parts that come before have
values and do not settle the result. -/
inductive Demands (environment : Environment) : Expr → Expr → Prop where
  | item {before item behind values} : evalItems environment before = .ok values →
    Demands environment (.array (before ++ item :: behind)) item
  | field {before key value behind values} : evalFields environment before = .ok values →
    Demands environment (.object (before ++ (key, value) :: behind)) value
  | operand {op operand} : Demands environment (.unary op operand) operand
  | left {op left right} : Demands environment (.binary op left right) left
  | right {op left right value} : left.eval environment = .ok value →
    Demands environment (.binary op left right) right
  | first {op left right} : Demands environment (.logical op left right) left
  | second {op left right value} : left.eval environment = .ok value → op.stops value = false →
    Demands environment (.logical op left right) right
  | condition {condition whenTrue whenFalse} :
    Demands environment (.conditional condition whenTrue whenFalse) condition
  | whenTrue {condition whenTrue whenFalse value} : condition.eval environment = .ok value → value.isTruthy →
    Demands environment (.conditional condition whenTrue whenFalse) whenTrue
  | whenFalse {condition whenTrue whenFalse value} : condition.eval environment = .ok value →
    value.isTruthy = false → Demands environment (.conditional condition whenTrue whenFalse) whenFalse
  | subject {subject property} : Demands environment (.member subject property) subject
  | property {subject property value} : subject.eval environment = .ok value →
    Demands environment (.member subject property) property
  | function {function arguments} : Demands environment (.call function arguments) function
  | argument {function before argument behind value values} : function.eval environment = .ok value →
    evalItems environment before = .ok values →
    Demands environment (.call function (before ++ argument :: behind)) argument

/-- The evaluation of the first expression gets to the other one. -/
def Evaluates (environment : Environment) : Expr → Expr → Prop := Relation.ReflTransGen (Demands environment)

/-- A property or call of values that refuse it. -/
inductive Refused (environment : Environment) : Expr → EvalError → Prop where
  | member {subject property value key error} : subject.eval environment = .ok value →
    property.eval environment = .ok key → value.RefusesProperty key error →
    Refused environment (.member subject property) error
  | call {function arguments value values error} : function.eval environment = .ok value →
    evalItems environment arguments = .ok values → value.RefusesCall values error →
    Refused environment (.call function arguments) error

/-- A failure in a part that is evaluated: at a name that is not known, or in what is refused. -/
def FailsWithin (environment : Environment) (expr : Expr) (error : EvalError) : Prop :=
  ∃ node, Evaluates environment expr node ∧
    (Refused environment node error ∨ ∃ s, node = .name s ∧ environment.find? s = none ∧ error = .free s)

theorem FailsWithin.outer {outer inner : Expr} (within : FailsWithin environment inner error)
    (demands : Demands environment outer inner) : FailsWithin environment outer error := by
  obtain ⟨node, evaluates, cause⟩ := within
  exact ⟨node, .head demands evaluates, cause⟩

theorem FailsWithin.of_refused {expr : Expr} (refused : Refused environment expr error) :
    FailsWithin environment expr error :=
  ⟨expr, .refl, .inl refused⟩

mutual

/-- Failures come from within. -/
theorem failsWithin_of_eval (expr : Expr) (failed : expr.eval environment = .error error) :
    FailsWithin environment expr error := by
  -- The parts are computed one after the other, so either the first that fails is to blame, or all
  -- of them have values and the operation on these fails itself.
  match expr with
  | number x | text s => cases failed
  | name s =>
    rw [eval, Environment.get] at failed
    split at failed
    next => cases failed
    next missing =>
      cases failed
      exact ⟨name s, .refl, .inr ⟨s, rfl, missing, rfl⟩⟩
  | array items =>
    rw [eval] at failed
    rcases bind_eq_error failed with failed | ⟨values, _, failed⟩
    · obtain ⟨before, item, behind, values, rfl, done, within⟩ := failsWithin_of_evalItems items failed
      exact within.outer (.item done)
    · cases failed
  | object fields =>
    rw [eval] at failed
    rcases bind_eq_error failed with failed | ⟨values, _, failed⟩
    · obtain ⟨before, key, value, behind, values, rfl, done, within⟩ := failsWithin_of_evalFields fields failed
      exact within.outer (.field done)
    · cases failed
  | unary op operand =>
    rw [eval] at failed
    rcases bind_eq_error failed with failed | ⟨value, _, failed⟩
    · exact (failsWithin_of_eval operand failed).outer .operand
    · cases failed
  | binary op left right =>
    rw [eval] at failed
    rcases bind_eq_error failed with failed | ⟨value, done, failed⟩
    · exact (failsWithin_of_eval left failed).outer .left
    · rcases bind_eq_error failed with failed | ⟨other, _, failed⟩
      · exact (failsWithin_of_eval right failed).outer (.right done)
      · cases failed
  | logical op left right =>
    rw [eval] at failed
    rcases bind_eq_error failed with failed | ⟨value, done, failed⟩
    · exact (failsWithin_of_eval left failed).outer .first
    · split at failed
      next => cases failed
      next further => exact (failsWithin_of_eval right failed).outer (.second done (by simpa using further))
  | conditional condition whenTrue whenFalse =>
    rw [eval] at failed
    rcases bind_eq_error failed with failed | ⟨value, done, failed⟩
    · exact (failsWithin_of_eval condition failed).outer .condition
    · split at failed
      next yes => exact (failsWithin_of_eval whenTrue failed).outer (.whenTrue done yes)
      next no => exact (failsWithin_of_eval whenFalse failed).outer (.whenFalse done (by simpa using no))
  | member subject property =>
    rw [eval] at failed
    rcases bind_eq_error failed with failed | ⟨value, done, failed⟩
    · exact (failsWithin_of_eval subject failed).outer .subject
    · rcases bind_eq_error failed with failed | ⟨key, found, failed⟩
      · exact (failsWithin_of_eval property failed).outer (.property done)
      · exact .of_refused (.member done found (Value.property_eq_error_iff.mp failed))
  | call function arguments =>
    rw [eval] at failed
    rcases bind_eq_error failed with failed | ⟨value, done, failed⟩
    · exact (failsWithin_of_eval function failed).outer .function
    · rcases bind_eq_error failed with failed | ⟨values, found, failed⟩
      · obtain ⟨before, item, behind, values, rfl, earlier, within⟩ := failsWithin_of_evalItems arguments failed
        exact within.outer (.argument done earlier)
      · exact .of_refused (.call done found (Value.call_eq_error_iff.mp failed))

theorem failsWithin_of_evalItems (items : List Expr) (failed : evalItems environment items = .error error) :
    ∃ before item behind values, items = before ++ item :: behind ∧ evalItems environment before = .ok values ∧
      FailsWithin environment item error := by
  match items with
  | [] => cases failed
  | item :: rest =>
    rw [evalItems] at failed
    rcases bind_eq_error failed with failed | ⟨value, done, failed⟩
    · exact ⟨[], item, rest, [], rfl, rfl, failsWithin_of_eval item failed⟩
    · rcases bind_eq_error failed with failed | ⟨values, _, failed⟩
      · obtain ⟨before, other, behind, values, rfl, earlier, within⟩ := failsWithin_of_evalItems rest failed
        exact ⟨item :: before, other, behind, value :: values, rfl, by rw [evalItems, done, earlier]; rfl, within⟩
      · cases failed

theorem failsWithin_of_evalFields (fields : List (String × Expr)) (failed : evalFields environment fields = .error error) :
    ∃ before key value behind values, fields = before ++ (key, value) :: behind ∧
      evalFields environment before = .ok values ∧ FailsWithin environment value error := by
  match fields with
  | [] => cases failed
  | (own, item) :: rest =>
    rw [evalFields] at failed
    rcases bind_eq_error failed with failed | ⟨found, done, failed⟩
    · exact ⟨[], own, item, rest, [], rfl, rfl, failsWithin_of_eval item failed⟩
    · rcases bind_eq_error failed with failed | ⟨values, _, failed⟩
      · obtain ⟨before, key, value, behind, values, rfl, earlier, within⟩ := failsWithin_of_evalFields rest failed
        exact ⟨(own, item) :: before, key, value, behind, (own, found) :: values, rfl,
          by rw [evalFields, done, earlier]; rfl, within⟩
      · cases failed

end

theorem evalItems_eq_error {before : List Expr} {item : Expr} {values : List Value}
    (done : evalItems environment before = .ok values) (failed : item.eval environment = .error error) (behind : List Expr) :
    evalItems environment (before ++ item :: behind) = .error error := by
  induction before generalizing values with
  | nil =>
    rw [List.nil_append, evalItems, failed]
    rfl
  | cons first before ih =>
    rw [evalItems] at done
    obtain ⟨value, found, done⟩ := bind_eq_ok done
    obtain ⟨values, later, _⟩ := bind_eq_ok done
    rw [List.cons_append, evalItems, found, ih later]
    rfl

theorem evalFields_eq_error {before : List (String × Expr)} {key : String} {item : Expr} {values : List (String × Value)}
    (done : evalFields environment before = .ok values) (failed : item.eval environment = .error error)
    (behind : List (String × Expr)) : evalFields environment (before ++ (key, item) :: behind) = .error error := by
  induction before generalizing values with
  | nil =>
    rw [List.nil_append, evalFields, failed]
    rfl
  | cons first before ih =>
    rw [evalFields] at done
    obtain ⟨value, found, done⟩ := bind_eq_ok done
    obtain ⟨values, later, _⟩ := bind_eq_ok done
    rw [List.cons_append, evalFields, found, ih later]
    rfl

/-- What is evaluated passes its failure on. -/
theorem Demands.eval_eq_error {outer inner : Expr} (demands : Demands environment outer inner)
    (failed : inner.eval environment = .error error) : outer.eval environment = .error error := by
  cases demands with
  | item done =>
    rw [eval, evalItems_eq_error done failed]
    rfl
  | field done =>
    rw [eval, evalFields_eq_error done failed]
    rfl
  | operand | left | first | condition | subject | function =>
    rw [eval, failed]
    rfl
  | right done | property done =>
    rw [eval, done, failed]
    rfl
  | second done further =>
    rw [eval, done, failed]
    exact if_neg (by simp [further])
  | whenTrue done yes =>
    rw [eval, done, failed]
    exact if_pos yes
  | whenFalse done no =>
    rw [eval, done, failed]
    exact if_neg (by simp [no])
  | argument done earlier =>
    rw [eval, done, evalItems_eq_error earlier failed]
    rfl

theorem Evaluates.eval_eq_error {expr node : Expr} (evaluates : Evaluates environment expr node)
    (failed : node.eval environment = .error error) : expr.eval environment = .error error := by
  induction evaluates using Relation.ReflTransGen.head_induction_on with
  | refl => exact failed
  | head demands _ ih => exact demands.eval_eq_error ih

theorem Refused.eval_eq_error {node : Expr} (refused : Refused environment node error) :
    node.eval environment = .error error := by
  cases refused with
  | member done found refuses =>
    rw [eval, done, found]
    exact Value.property_eq_error_iff.mpr refuses
  | call done found refuses =>
    rw [eval, done, found]
    exact Value.call_eq_error_iff.mpr refuses

/-- What is refused is neither unknown nor a fault of the text. -/
theorem Refused.error_ne {node : Expr} (refused : Refused environment node error) :
    (∀ name, error ≠ .free name) ∧ ∀ fault, error ≠ .malformed fault := by
  cases refused with
  | member _ _ refuses =>
    cases refuses
    all_goals exact ⟨fun _ => EvalError.noConfusion, fun _ => EvalError.noConfusion⟩
  | call _ _ refuses =>
    cases refuses
    all_goals exact ⟨fun _ => EvalError.noConfusion, fun _ => EvalError.noConfusion⟩

theorem freeNamesOfItems_eq (items : List Expr) : freeNamesOfItems items = items.flatMap freeNames := by
  induction items with
  | nil => rfl
  | cons item items ih => rw [freeNamesOfItems, ih, List.flatMap_cons]

theorem freeNamesOfFields_eq (fields : List (String × Expr)) :
    freeNamesOfFields fields = fields.flatMap fun field => field.2.freeNames := by
  induction fields with
  | nil => rfl
  | cons field fields ih => rw [freeNamesOfFields, ih, List.flatMap_cons]

theorem Demands.freeNames_subset {outer inner : Expr} (demands : Demands environment outer inner) :
    inner.freeNames ⊆ outer.freeNames := by
  intro name member
  cases demands
  all_goals simp [freeNames, freeNamesOfItems_eq, freeNamesOfFields_eq, member]

theorem Evaluates.freeNames_subset {expr node : Expr} (evaluates : Evaluates environment expr node) :
    node.freeNames ⊆ expr.freeNames := by
  induction evaluates using Relation.ReflTransGen.head_induction_on with
  | refl => exact List.Subset.refl _
  | head demands _ ih => exact fun name member => demands.freeNames_subset (ih member)

end Expr

end NimTemplate
