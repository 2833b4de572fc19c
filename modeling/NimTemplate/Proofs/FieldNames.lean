import Mathlib.Data.List.Nodup
import NimTemplate.Expr.Eval
import NimTemplate.Proofs.Basic

/-! Objects that come from evaluation have each of their names once, however deep they stand: a field
that is written again replaces the earlier one. -/

namespace NimTemplate

section

variable {α : Type} {fields : List (String × α)}

theorem mem_insertField {name : String} {value : α} {field : String × α} (member : field ∈ insertField fields name value) :
    field = (name, value) ∨ field ∈ fields := by
  induction fields with
  | nil => exact .inl (List.mem_singleton.mp member)
  | cons first rest ih =>
    rw [insertField] at member
    split at member
    next =>
      rcases List.mem_cons.mp member with new | later
      · exact .inl new
      · exact .inr (List.mem_cons_of_mem _ later)
    next =>
      rcases List.mem_cons.mp member with rfl | later
      · exact .inr List.mem_cons_self
      · exact (ih later).imp_right (List.mem_cons_of_mem _)

theorem nodup_insertField (once : (fields.map Prod.fst).Nodup) (name : String) (value : α) :
    ((insertField fields name value).map Prod.fst).Nodup := by
  induction fields with
  | nil => simp [insertField]
  | cons first rest ih =>
    simp only [List.map_cons, List.nodup_cons] at once
    rw [insertField]
    split
    next same => simpa [← same] using once
    next other =>
      rw [List.map_cons, List.nodup_cons]
      refine ⟨?_, ih once.2⟩
      intro member
      obtain ⟨field, inserted, named⟩ := List.mem_map.mp member
      rcases mem_insertField inserted with rfl | old
      · exact other named.symm
      · exact once.1 (List.mem_map.mpr ⟨field, old, named⟩)

/-- The fields that are left have each name once, and all of them were written. -/
theorem collectFields_spec (fields : List (String × α)) :
    ((collectFields fields).map Prod.fst).Nodup ∧ ∀ field ∈ collectFields fields, field ∈ fields := by
  have collected : ∀ (later known : List (String × α)), (known.map Prod.fst).Nodup → (∀ field ∈ known, field ∈ fields) →
      (∀ field ∈ later, field ∈ fields) →
      ((later.foldl (fun known field => insertField known field.1 field.2) known).map Prod.fst).Nodup ∧
        ∀ field ∈ later.foldl (fun known field => insertField known field.1 field.2) known, field ∈ fields := by
    intro later
    induction later with
    | nil =>
      intro known once written _
      exact ⟨once, written⟩
    | cons next later ih =>
      intro known once written others
      refine ih _ (nodup_insertField once _ _) ?_ fun field member => others field (List.mem_cons_of_mem _ member)
      intro field member
      rcases mem_insertField member with rfl | old
      · exact others _ List.mem_cons_self
      · exact written field old
  exact collected fields [] List.nodup_nil (by simp) fun _ member => member

end

namespace Value

/-- An object has each of its names once, and so has every object in it. -/
inductive Distinct : Value → Prop where
  | undefined : Distinct .undefined
  | null : Distinct .null
  | bool (b : Bool) : Distinct (.bool b)
  | number (x : Float) : Distinct (.number x)
  | text (s : String) : Distinct (.text s)
  | builtin (b : Builtin) : Distinct (.builtin b)
  | array {items : List Value} : (∀ item ∈ items, Distinct item) → Distinct (.array items)
  | object {fields : List (String × Value)} : (fields.map Prod.fst).Nodup → (∀ field ∈ fields, Distinct field.2) →
      Distinct (.object fields)

theorem distinct_add (left right : Value) : (left.add right).Distinct := by
  rw [add]
  split
  next => exact .text _
  next => exact .text _
  next => exact .number _

theorem Distinct.style {value : Value} (distinct : value.Distinct) : (Markup.style value).Distinct := by
  cases distinct with
  | object => exact .text _
  | undefined | null | bool | number | text | builtin | array => constructor <;> assumption

theorem Distinct.property {subject key value : Value} (distinct : subject.Distinct)
    (found : subject.property key = .ok value) : value.Distinct := by
  cases distinct with
  | undefined | null | bool | number | builtin => cases found
  | text s =>
    simp only [Value.property] at found
    split at found
    next =>
      cases found
      exact .number _
    next =>
      split at found
      next =>
        cases found
        exact .undefined
      next place _ =>
        split at found
        next => cases found
        next =>
          cases found
          cases s.toList[place]? with
          | none => exact .undefined
          | some c => exact .text _
  | array each =>
    simp only [Value.property] at found
    split at found
    next =>
      cases found
      exact .number _
    next =>
      cases found
      cases reached : (index? key.toText).bind _ with
      | none => exact .undefined
      | some item =>
        obtain ⟨place, _, inside⟩ := Option.bind_eq_some_iff.mp reached
        exact each item (List.mem_of_getElem? inside)
  | object _ each =>
    simp only [Value.property] at found
    cases found
    cases reached : List.lookup key.toText _ with
    | none => exact .undefined
    | some item =>
      obtain ⟨before, behind, rfl, _⟩ := List.lookup_eq_some_iff.mp reached
      exact each (key.toText, item) (by simp)

theorem Distinct.call {function value : Value} {arguments : List Value} (distinct : ∀ item ∈ arguments, item.Distinct)
    (called : function.call arguments = .ok value) : value.Distinct := by
  cases function with
  | undefined | null | bool | number | text | array | object => cases called
  | builtin b =>
    cases b with
    | escape | joinClasses | attr =>
      cases called
      exact .text _
    | style =>
      cases called
      apply Distinct.style
      rw [Builtin.argument]
      cases first : arguments[0]? with
      | none => exact .undefined
      | some item => exact distinct item (List.mem_of_getElem? first)
    | classes =>
      simp only [Value.call, Builtin.call] at called
      split at called
      next =>
        cases called
        exact .text _
      next => cases called

end Value

theorem Environment.distinct_standard {name : String} {value : Value} (found : standard.find? name = some value) :
    value.Distinct := by
  have functions : (Value.object markup).Distinct := by
    refine .object (by decide) ?_
    intro field member
    obtain ⟨b, _, rfl⟩ := List.mem_map.mp member
    exact .builtin b
  obtain ⟨before, behind, listed, _⟩ := List.lookup_eq_some_iff.mp found
  have member : (name, value) ∈ standard.bindings := listed ▸ by simp
  simp only [standard, List.mem_cons, Prod.mk.injEq, List.not_mem_nil, or_false] at member
  rcases member with ⟨-, rfl⟩ | ⟨-, rfl⟩ | ⟨-, rfl⟩ | ⟨-, rfl⟩ | ⟨-, rfl⟩ | ⟨-, rfl⟩ | ⟨-, rfl⟩ | ⟨-, rfl⟩
  · exact functions
  all_goals constructor

namespace Expr

open Environment (standard)
open Value (Distinct)

mutual

theorem eval_distinct (expr : Expr) {value : Value} (evaluated : expr.eval standard = .ok value) : value.Distinct := by
  match expr with
  | number x =>
    cases evaluated
    exact .number x
  | text s =>
    cases evaluated
    exact .text s
  | name s =>
    rw [eval, Environment.get] at evaluated
    split at evaluated
    next found =>
      cases evaluated
      exact Environment.distinct_standard found
    next => cases evaluated
  | array items =>
    obtain ⟨values, done, ⟨⟩⟩ := bind_eq_ok evaluated
    exact .array (evalItems_distinct items done)
  | object fields =>
    obtain ⟨values, done, ⟨⟩⟩ := bind_eq_ok evaluated
    have collected := collectFields_spec values
    exact .object collected.1 fun field member => evalFields_distinct fields done field (collected.2 field member)
  | unary op operand =>
    obtain ⟨value, _, ⟨⟩⟩ := bind_eq_ok evaluated
    cases op <;> constructor
  | binary op left right =>
    obtain ⟨first, _, evaluated⟩ := bind_eq_ok evaluated
    obtain ⟨second, _, ⟨⟩⟩ := bind_eq_ok evaluated
    cases op with
    | add => exact Value.distinct_add first second
    | subtract | multiply | divide | remainder => exact .number _
    | strictEq | strictNe | eq | ne | lt | gt | le | ge => exact .bool _
  | logical op left right =>
    obtain ⟨first, done, evaluated⟩ := bind_eq_ok evaluated
    split at evaluated
    next =>
      cases evaluated
      exact eval_distinct left done
    next => exact eval_distinct right evaluated
  | conditional condition whenTrue whenFalse =>
    obtain ⟨first, _, evaluated⟩ := bind_eq_ok evaluated
    split at evaluated
    next => exact eval_distinct whenTrue evaluated
    next => exact eval_distinct whenFalse evaluated
  | member subject key =>
    obtain ⟨holder, done, evaluated⟩ := bind_eq_ok evaluated
    obtain ⟨named, _, evaluated⟩ := bind_eq_ok evaluated
    exact (eval_distinct subject done).property evaluated
  | call function arguments =>
    obtain ⟨callee, _, evaluated⟩ := bind_eq_ok evaluated
    obtain ⟨values, done, evaluated⟩ := bind_eq_ok evaluated
    exact Distinct.call (evalItems_distinct arguments done) evaluated
termination_by structural expr

theorem evalItems_distinct (items : List Expr) {values : List Value} (evaluated : evalItems standard items = .ok values) :
    ∀ value ∈ values, value.Distinct := by
  match items with
  | [] =>
    cases evaluated
    simp
  | item :: rest =>
    obtain ⟨value, first, evaluated⟩ := bind_eq_ok evaluated
    obtain ⟨others, done, ⟨⟩⟩ := bind_eq_ok evaluated
    exact List.forall_mem_cons.mpr ⟨eval_distinct item first, evalItems_distinct rest done⟩
termination_by structural items

theorem evalFields_distinct (fields : List (String × Expr)) {values : List (String × Value)}
    (evaluated : evalFields standard fields = .ok values) : ∀ field ∈ values, field.2.Distinct := by
  match fields with
  | [] =>
    cases evaluated
    simp
  | (key, item) :: rest =>
    obtain ⟨value, first, evaluated⟩ := bind_eq_ok evaluated
    obtain ⟨others, done, ⟨⟩⟩ := bind_eq_ok evaluated
    exact List.forall_mem_cons.mpr ⟨eval_distinct item first, evalFields_distinct rest done⟩
termination_by structural fields

end

end Expr

theorem constant?_distinct {source : String} {value : Value} (constant : constant? source = some value) : value.Distinct := by
  have evaluated := eq_ok_of_toOption constant
  obtain ⟨expr, _, evaluated⟩ := bind_eq_ok evaluated
  split at evaluated
  next => cases evaluated
  next => exact expr.eval_distinct evaluated

end NimTemplate
