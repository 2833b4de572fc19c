import Mathlib.Data.List.TakeWhile
import NimTemplate.Nim.Draft
import NimTemplate.Nim.Statement

/-! How deep a line stands. Every statement starts with a character that shows, so the spaces
before it are those of its level. -/

namespace NimTemplate.Nim

/-- The spaces that a line starts with. -/
def depth (line : String) : Nat := (line.toList.takeWhile (· == ' ')).length

/-- A line with nothing to see on it. -/
def isBlankLine (line : String) : Bool := line.toList.all Text.isBlank

def startsFlush (text : List Char) : Bool := text.head?.all fun c => !Text.isBlank c

/-- A statement has no blanks before it. It may be empty. -/
def isFlush (statement : String) : Bool := startsFlush statement.toList

theorem isFlush_append {first : String} (rest : String) (shown : first ≠ "") (flush : isFlush first) :
    isFlush (first ++ rest) := by
  unfold isFlush at *
  rw [String.toList_append]
  cases seen : first.toList with
  | nil => exact absurd (String.toList_eq_nil_iff.mp seen) shown
  | cons c others => simpa [startsFlush, seen] using flush

@[simp] theorem toList_indentation (level : Nat) :
    (indentation level).toList = List.replicate (2 * level) ' ' := by
  simp [indentation]

theorem isBlank_space : Text.isBlank ' ' = true := by decide

/-- A statement stands at the depth of its level. -/
theorem depth_indented (level : Nat) {statement : String} (flush : isFlush statement) :
    depth (indentation level ++ statement) = 2 * level := by
  have spaces : ∀ c ∈ List.replicate (2 * level) ' ', (c == ' ') = true := by simp
  rw [depth, String.toList_append, toList_indentation, List.takeWhile_append_of_pos spaces]
  have ends : statement.toList.takeWhile (· == ' ') = [] := by
    unfold isFlush startsFlush at flush
    cases seen : statement.toList with
    | nil => rfl
    | cons c others =>
      have visible : Text.isBlank c = false := by simpa [seen] using flush
      have other : c ≠ ' ' := by
        rintro rfl
        rw [isBlank_space] at visible
        cases visible
      simp [other]
  rw [ends]
  simp

/-- A line that starts with the indentation of a level is at least that deep. -/
theorem depth_of_prefix {level : Nat} {line : String} (starts : (indentation level).toList <+: line.toList) :
    2 * level ≤ depth line := by
  obtain ⟨rest, same⟩ := starts
  have spaces : ∀ c ∈ List.replicate (2 * level) ' ', (c == ' ') = true := by simp
  rw [depth, ← same, toList_indentation, List.takeWhile_append_of_pos spaces]
  simp

theorem indentation_prefix_of_le {level other : Nat} (deeper : level ≤ other) (rest : String) :
    (indentation level).toList <+: (indentation other ++ rest).toList := by
  rw [String.toList_append, toList_indentation, toList_indentation]
  have longer : 2 * other = 2 * level + 2 * (other - level) := by omega
  rw [longer, ← List.replicate_append_replicate, List.append_assoc]
  exact List.prefix_append _ _

/-! Statements of a template start flush. -/

private theorem startsFlush_requote (text : List Char) (flush : startsFlush text) : startsFlush (requote text) := by
  cases text with
  | nil => rw [requote]; rfl
  | cons c rest =>
    rw [requote]
    split
    · split
      · rfl
      · exact flush
    · exact flush

/-- What is dropped stands at the end, so a text that is left starts as before. -/
private theorem startsFlush_dropTerminator (text : List Char) (flush : startsFlush text) :
    startsFlush (dropTerminator text) := by
  unfold dropTerminator
  split
  next rest ended =>
    have kept : rest.reverse <+: text := by
      have suffix : rest <:+ text.reverse := by
        have dropped := List.dropWhile_suffix (l := text.reverse) isSpace
        rw [ended] at dropped
        exact (List.suffix_cons ';' rest).trans dropped
      simpa using List.reverse_prefix.mpr suffix
    obtain ⟨dropped, same⟩ := kept
    cases left : rest.reverse with
    | nil => rfl
    | cons c others =>
      rw [left] at same
      simpa [startsFlush, ← same] using flush
  next => exact flush

private theorem startsFlush_head {word : String} (shown : word ≠ "") (flush : isFlush word) (condition rest : List Char) :
    startsFlush (head word condition rest) := by
  unfold isFlush at flush
  unfold head
  cases seen : word.toList with
  | nil => exact absurd (String.toList_eq_nil_iff.mp seen) shown
  | cons c others => simpa [startsFlush, seen] using flush

private theorem startsFlush_controlHead (text : List Char) (flush : startsFlush text) :
    startsFlush (controlHead text) := by
  unfold controlHead
  cases whiles : whileHead? text with
  | some found =>
    obtain ⟨rest, _, rfl⟩ := Option.map_eq_some_iff.mp whiles
    exact startsFlush_head (by decide) (by decide) _ _
  | none =>
    cases ifs : ifHead? text with
    | some found =>
      simp only [ifHead?, Option.bind_eq_bind, Option.bind_eq_some_iff] at ifs
      obtain ⟨_, _, _, _, ⟨condition, rest⟩, _, same⟩ := ifs
      cases same
      exact startsFlush_head (by decide) (by decide) _ _
    | none =>
      cases elifs : elifHead? text with
      | some found =>
        simp only [elifHead?, Option.bind_eq_bind, Option.bind_eq_some_iff] at elifs
        obtain ⟨_, _, _, _, _, _, ⟨condition, rest⟩, _, same⟩ := elifs
        cases same
        exact startsFlush_head (by decide) (by decide) _ _
      | none =>
        cases elses : elseHead? text with
        | some found =>
          simp only [elseHead?, Option.bind_eq_bind, Option.bind_eq_some_iff] at elses
          obtain ⟨rest, _, accepted⟩ := elses
          split at accepted
          · cases accepted
            rfl
          · cases accepted
        | none => exact flush

private theorem startsFlush_negateFirst (text : List Char) (flush : startsFlush text) :
    startsFlush (negateFirst text) := by
  cases text with
  | nil => rfl
  | cons c rest =>
    rw [negateFirst]
    split
    · rfl
    · exact flush

theorem isFlush_statement (source : String) : isFlush (statement source) := by
  have trimmed : startsFlush (Text.trimStart source.toList) := by
    have first := List.head?_dropWhile_not Text.isBlank source.toList
    unfold startsFlush Text.trimStart
    split at first
    next c seen => simp [seen, first]
    next none => simp [none]
  unfold isFlush statement
  rw [String.toList_ofList]
  apply startsFlush_negateFirst
  apply startsFlush_controlHead
  apply startsFlush_dropTerminator
  exact startsFlush_requote _ trimmed

end NimTemplate.Nim
