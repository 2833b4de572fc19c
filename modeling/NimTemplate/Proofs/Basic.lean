import Mathlib.Data.List.Induction
import NimTemplate.Text.Basic

/-! Lemmas for all parts of the compiler: computations that can fail, taken apart where they end, and
texts, taken apart where the kind of their characters changes. -/

namespace NimTemplate

variable {ε α β : Type}

theorem bind_eq_ok {first : Except ε α} {next : α → Except ε β} {result : β}
    (done : first >>= next = .ok result) : ∃ value, first = .ok value ∧ next value = .ok result := by
  cases first with
  | error error => cases done
  | ok value => exact ⟨value, rfl, done⟩

theorem bind_eq_error {first : Except ε α} {next : α → Except ε β} {error : ε}
    (failed : first >>= next = .error error) :
    first = .error error ∨ ∃ value, first = .ok value ∧ next value = .error error := by
  cases first with
  | error cause =>
    cases failed
    exact .inl rfl
  | ok value => exact .inr ⟨value, rfl, failed⟩

theorem eq_ok_of_toOption {result : Except ε α} {value : α} (same : result.toOption = some value) :
    result = .ok value := by
  cases result with
  | error error => cases same
  | ok other => exact congrArg Except.ok (Option.some.inj same)

namespace Text

section

variable {p : Char → Bool} {run rest : List Char} (inside : ∀ c ∈ run, p c) (ends : ∀ c ∈ rest.head?, p c = false)

include inside ends

/-- A run ends where the kind of the characters changes. -/
theorem takeWhile_run : (run ++ rest).takeWhile p = run := by
  rw [List.takeWhile_append_of_pos inside]
  cases rest with
  | nil => simp
  | cons c rest => simp [ends c rfl]

theorem dropWhile_run : (run ++ rest).dropWhile p = rest := by
  rw [List.dropWhile_append_of_pos inside]
  cases rest with
  | nil => rfl
  | cons c rest => simp [ends c rfl]

end

/-- Every text starts with a run of the kind, which may be empty. -/
theorem exists_run (p : Char → Bool) (text : List Char) :
    ∃ run rest, text = run ++ rest ∧ (∀ c ∈ run, p c) ∧ ∀ c ∈ rest.head?, p c = false := by
  refine ⟨text.takeWhile p, text.dropWhile p, List.takeWhile_append_dropWhile.symm, ?_, ?_⟩
  · exact List.all_eq_true.mp List.all_takeWhile
  · intro c first
    have outside := List.head?_dropWhile_not p text
    rw [Option.mem_def.mp first] at outside
    simpa using outside

/-- Whether a text starts with a mark does not depend on what follows it, if the mark lacks the
character that does. -/
theorem isPrefixOf_append {mark rest : List Char} (apart : ∀ c ∈ mark, c ∉ rest.head?) (text : List Char) :
    mark.isPrefixOf (text ++ rest) = mark.isPrefixOf text := by
  induction mark generalizing text with
  | nil => simp
  | cons m mark ih =>
    obtain ⟨first, others⟩ := List.forall_mem_cons.mp apart
    cases text with
    | cons c text => simp only [List.cons_append, List.isPrefixOf_cons_cons, ih others]
    | nil =>
      cases rest with
      | nil => rfl
      | cons c rest =>
        have other : m ≠ c := by
          rintro rfl
          exact first rfl
        simp [List.isPrefixOf, other]

end Text

end NimTemplate
