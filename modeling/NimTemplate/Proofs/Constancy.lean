import Mathlib.Data.List.Find
import NimTemplate.Expr.Eval
import NimTemplate.Proofs.EvaluationOrder
import NimTemplate.Proofs.Lexing
import NimTemplate.Proofs.Nesting

/-! What an expression evaluates to depends on its free names alone: on which of them are known,
and with which values. So what is known before rendering stays the same whatever is rendered. -/

namespace NimTemplate

namespace Environment

/-- Both environments know the same of the names, with the same values. -/
def AgreeOn (names : List String) (one other : Environment) : Prop :=
  ∀ name ∈ names, one.find? name = other.find? name

/-- The other environment has all bindings of this one. -/
def ExtendsTo (environment larger : Environment) : Prop :=
  ∀ name value, environment.find? name = some value → larger.find? name = some value

def Knows (environment : Environment) (name : String) : Prop := (environment.find? name).isSome

instance (environment : Environment) (name : String) : Decidable (environment.Knows name) :=
  inferInstanceAs (Decidable (_ = true))

variable {one other : Environment}

theorem agreeOn_append {names more : List String} :
    AgreeOn (names ++ more) one other ↔ AgreeOn names one other ∧ AgreeOn more one other :=
  List.forall_mem_append

theorem ExtendsTo.agreeOn {names : List String} (larger : one.ExtendsTo other) (known : ∀ name ∈ names, one.Knows name) :
    AgreeOn names one other := by
  intro name member
  obtain ⟨value, found⟩ := Option.isSome_iff_exists.mp (known name member)
  rw [found, larger name value found]

end Environment

open Environment (AgreeOn)

namespace Expr

variable {one other environment : Environment}

mutual

theorem eval_congr (expr : Expr) (agree : AgreeOn expr.freeNames one other) : expr.eval one = expr.eval other := by
  match expr with
  | number x | text s => rfl
  | name s =>
    rw [eval, eval, Environment.get, Environment.get, agree s (by simp [freeNames])]
  | array items =>
    rw [freeNames] at agree
    rw [eval, eval, evalItems_congr items agree]
  | object fields =>
    rw [freeNames] at agree
    rw [eval, eval, evalFields_congr fields agree]
  | unary op operand =>
    rw [freeNames] at agree
    rw [eval, eval, eval_congr operand agree]
  | binary op left right | logical op left right | member left right =>
    rw [freeNames, Environment.agreeOn_append] at agree
    rw [eval, eval, eval_congr left agree.1, eval_congr right agree.2]
  | conditional condition whenTrue whenFalse =>
    rw [freeNames, Environment.agreeOn_append, Environment.agreeOn_append] at agree
    rw [eval, eval, eval_congr condition agree.1.1, eval_congr whenTrue agree.1.2, eval_congr whenFalse agree.2]
  | call function arguments =>
    rw [freeNames, Environment.agreeOn_append] at agree
    rw [eval, eval, eval_congr function agree.1, evalItems_congr arguments agree.2]

theorem evalItems_congr (items : List Expr) (agree : AgreeOn (freeNamesOfItems items) one other) :
    evalItems one items = evalItems other items := by
  match items with
  | [] => rfl
  | item :: rest =>
    rw [freeNamesOfItems, Environment.agreeOn_append] at agree
    rw [evalItems, evalItems, eval_congr item agree.1, evalItems_congr rest agree.2]

theorem evalFields_congr (fields : List (String × Expr)) (agree : AgreeOn (freeNamesOfFields fields) one other) :
    evalFields one fields = evalFields other fields := by
  match fields with
  | [] => rfl
  | (key, value) :: rest =>
    rw [freeNamesOfFields, Environment.agreeOn_append] at agree
    rw [evalFields, evalFields, eval_congr value agree.1, evalFields_congr rest agree.2]

end

end Expr

namespace Environment

variable {environment : Environment} {source : String} {expr : Expr}

/-- The first of the names that the environment does not know. -/
def FirstUnknown (environment : Environment) (names : List String) (name : String) : Prop :=
  ∃ before behind, names = before ++ name :: behind ∧ (∀ earlier ∈ before, environment.Knows earlier) ∧
    ¬ environment.Knows name

theorem unknown?_eq_some_iff {name : String} :
    expr.unknown? environment = some name ↔ environment.FirstUnknown expr.freeNames name := by
  rw [Expr.unknown?, List.find?_eq_some_iff_append]
  constructor
  · intro ⟨missing, before, behind, same, known⟩
    refine ⟨before, behind, same, fun earlier member => ?_, ?_⟩
    · simpa [Knows] using known earlier member
    · simpa [Knows] using missing
  · intro ⟨before, behind, same, known, missing⟩
    refine ⟨by simpa [Knows] using missing, before, behind, same, fun earlier member => ?_⟩
    simpa [Knows] using known earlier member

theorem unknown?_eq_none_iff :
    expr.unknown? environment = none ↔ ∀ name ∈ expr.freeNames, environment.Knows name := by
  simp [Expr.unknown?, List.find?_eq_none, Knows, Option.isSome_iff_ne_none]

theorem evaluate_of_unknown {name : String} (parsed : Expr.parse source = .ok expr)
    (unknown : expr.unknown? environment = some name) : environment.evaluate source = .error (.free name) := by
  rw [evaluate, parsed]
  dsimp only [bind, Except.bind]
  rw [unknown]

theorem evaluate_of_known (parsed : Expr.parse source = .ok expr) (known : ∀ name ∈ expr.freeNames, environment.Knows name) :
    environment.evaluate source = expr.eval environment := by
  rw [evaluate, parsed]
  dsimp only [bind, Except.bind]
  rw [unknown?_eq_none_iff.mpr known]

theorem evaluate_text {s : String} (lexed : Token.all source.toList = .ok [.text s]) :
    environment.evaluate source = .ok (.text s) :=
  evaluate_of_known (Expr.parse_text lexed) fun _ member => nomatch member

theorem evaluate_congr {one other : Environment}
    (agree : ∀ expr, Expr.parse source = .ok expr → AgreeOn expr.freeNames one other) :
    one.evaluate source = other.evaluate source := by
  cases parsed : Expr.parse source with
  | error error =>
    rw [evaluate, evaluate, parsed]
    rfl
  | ok expr =>
    have same := agree expr parsed
    have unknown : expr.unknown? one = expr.unknown? other := by
      apply List.find?_congr
      intro name member
      rw [same name member]
    rw [evaluate, evaluate, parsed]
    dsimp only [bind, Except.bind]
    rw [unknown, Expr.eval_congr expr same]

/-- A value found in advance means that all names were known. -/
theorem knows_of_evaluate {value : Value} (parsed : Expr.parse source = .ok expr)
    (done : environment.evaluate source = .ok value) : ∀ name ∈ expr.freeNames, environment.Knows name := by
  apply unknown?_eq_none_iff.mp
  cases unknown : expr.unknown? environment with
  | none => rfl
  | some name =>
    rw [evaluate_of_unknown parsed unknown] at done
    cases done

/-- Evaluation where all names are known fails in operations only. -/
theorem eval_error_of_known {error : EvalError} (known : ∀ name ∈ expr.freeNames, environment.Knows name)
    (failed : expr.eval environment = .error error) :
    (∀ name, error ≠ .free name) ∧ ∀ fault, error ≠ .malformed fault := by
  obtain ⟨node, evaluates, refused | ⟨name, rfl, missing, _⟩⟩ := Expr.failsWithin_of_eval expr failed
  · exact refused.error_ne
  · have found := known name (evaluates.freeNames_subset (List.mem_singleton_self name))
    rw [Knows, missing] at found
    cases found

theorem evaluate_eq_free_iff {name : String} (parsed : Expr.parse source = .ok expr) :
    environment.evaluate source = .error (.free name) ↔ environment.FirstUnknown expr.freeNames name := by
  rw [← unknown?_eq_some_iff]
  cases unknown : expr.unknown? environment with
  | some found =>
    rw [evaluate_of_unknown parsed unknown]
    simp
  | none =>
    have known := unknown?_eq_none_iff.mp unknown
    rw [evaluate_of_known parsed known]
    constructor
    · intro failed
      exact absurd rfl ((eval_error_of_known known failed).1 name)
    · intro found
      cases found

/-- An expression is evaluated from its free names alone. Hence a value that it has in the
standard environment stays its value whatever else is bound. It fails at a free name if and only
if there is an unknown one, then at the first, and evaluation behind that check finds
neither unknown names nor faults of the text. -/
theorem evaluation_depends_on_free_names (source : String) :
    (∀ one other : Environment, (∀ expr, Expr.parse source = .ok expr → AgreeOn expr.freeNames one other) →
      one.evaluate source = other.evaluate source) ∧
    (∀ value, standard.evaluate source = .ok value →
      ∀ larger, standard.ExtendsTo larger → larger.evaluate source = .ok value) ∧
    ∀ expr, Expr.parse source = .ok expr → ∀ environment : Environment,
      ((∃ name, environment.evaluate source = .error (.free name)) ↔ ∃ name ∈ expr.freeNames, ¬ environment.Knows name) ∧
      (∀ name, environment.evaluate source = .error (.free name) ↔ environment.FirstUnknown expr.freeNames name) ∧
      ((∀ name ∈ expr.freeNames, environment.Knows name) →
        environment.evaluate source = expr.eval environment ∧
        ∀ error, expr.eval environment = .error error →
          (∀ name, error ≠ .free name) ∧ ∀ fault, error ≠ .malformed fault) := by
  refine ⟨fun one other agree => evaluate_congr agree, ?_, ?_⟩
  · intro value done larger extension
    have same : standard.evaluate source = larger.evaluate source :=
      evaluate_congr fun expr parsed => extension.agreeOn (knows_of_evaluate parsed done)
    rw [← same, done]
  · intro expr parsed environment
    refine ⟨⟨?_, ?_⟩, fun name => evaluate_eq_free_iff parsed, ?_⟩
    · intro ⟨name, failed⟩
      obtain ⟨before, behind, same, _, missing⟩ := (evaluate_eq_free_iff parsed).mp failed
      exact ⟨name, by simp [same], missing⟩
    · intro ⟨name, member, missing⟩
      cases unknown : expr.unknown? environment with
      | some first => exact ⟨first, evaluate_of_unknown parsed unknown⟩
      | none => exact absurd (unknown?_eq_none_iff.mp unknown name member) missing
    · intro known
      exact ⟨evaluate_of_known parsed known, fun error => eval_error_of_known known⟩

/-- A name of the template is not known in advance, and what is known stays so with it bound. -/
theorem template_name_is_free :
    standard.evaluate "name" = .error (.free "name") ∧
    ∀ larger, standard.ExtendsTo larger → larger.evaluate "'name'" = .ok (.text "name") := by
  have lexed : Token.all "name".toList = .ok [.name "name"] := eq_ok_of_toOption (by decide +kernel)
  have parsed := Expr.parse_name lexed (by decide)
  have quoted : Token.all "'name'".toList = .ok [.text "name"] := eq_ok_of_toOption (by decide +kernel)
  have evaluated : standard.evaluate "'name'" = .ok (.text "name") := evaluate_text quoted
  constructor
  · apply (((evaluation_depends_on_free_names _).2.2 _ parsed standard).2.1 "name").mpr
    refine ⟨[], [], rfl, ?_, by decide⟩
    intro earlier member
    cases member
  · exact (evaluation_depends_on_free_names _).2.1 _ evaluated

end Environment

open Environment (standard)

theorem constant?_of_text {source s : String} (lexed : Token.all source.toList = .ok [.text s]) :
    constant? source = some (.text s) := by
  rw [constant?, Environment.evaluate_text lexed]
  rfl

theorem constant?_of_name {source name : String} (lexed : Token.all source.toList = .ok [.name name])
    (free : name ∉ "typeof" :: Expr.reserved) (unknown : ¬ standard.Knows name) : constant? source = none := by
  have first : standard.FirstUnknown [name] name := ⟨[], [], rfl, by simp, unknown⟩
  rw [constant?, (Environment.evaluate_eq_free_iff (Expr.parse_name lexed free)).mpr first]
  rfl

end NimTemplate
