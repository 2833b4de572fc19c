import NimTemplate.Nim.Draft

/-! The lines of a draft under each operation. Code only grows: a finished line is never changed
again, and only the open statement behind the finished lines may still be. -/

namespace NimTemplate.Nim

theorem Span.contains_iff {span : Span} {index : Nat} :
    span.contains index ↔ span.start ≤ index ∧ index < span.stop := by
  rw [Span.contains, Bool.and_eq_true, decide_eq_true_iff, decide_eq_true_iff]

end NimTemplate.Nim

namespace NimTemplate.Nim.Draft

theorem size_eq_length (draft : Draft) : draft.size = draft.lines.length := by
  cases seen : draft.last <;> simp [size, lines, seen]

@[simp] theorem lines_indent (draft : Draft) : draft.indent.lines = draft.lines := rfl

@[simp] theorem lines_dedent (draft : Draft) : draft.dedent.lines = draft.lines := rfl

@[simp] theorem last_close (draft : Draft) : draft.close.last = none := by
  unfold close
  split
  next none => exact none
  next => rfl

@[simp] theorem level_close (draft : Draft) : draft.close.level = draft.level := by
  unfold close
  split <;> rfl

/-- Closing makes every line a finished one. -/
theorem finished_close (draft : Draft) : draft.close.finished.toList = draft.lines := by
  unfold close
  split
  next none => simp [lines, none]
  next statement opened => simp [lines, opened]

theorem finished_push (draft : Draft) (line : String) :
    (draft.push line).finished.toList = draft.lines ++ [line] := by
  simp [push, finished_close]

@[simp] theorem last_push (draft : Draft) (line : String) : (draft.push line).last = none := by
  simp [push]

@[simp] theorem level_push (draft : Draft) (line : String) : (draft.push line).level = draft.level := by
  simp [push]

/-- Without an open statement all lines are finished. -/
theorem lines_of_closed {draft : Draft} (closed : draft.last = none) :
    draft.lines = draft.finished.toList := by
  simp [lines, closed]

theorem lines_push (draft : Draft) (line : String) : (draft.push line).lines = draft.lines ++ [line] := by
  rw [lines_of_closed (last_push draft line), finished_push]

@[simp] theorem level_append (draft : Draft) (piece : Piece) : (draft.append piece).level = draft.level := by
  unfold append
  split
  next => split <;> simp
  next => rfl

@[simp] theorem level_appendText (draft : Draft) (text : String) :
    (draft.appendText text).level = draft.level := by
  unfold appendText
  split <;> simp

/-- One draft comes from another by adding to it. -/
structure Grows (before after : Draft) : Prop where
  kept : before.finished.toList <+: after.finished.toList
  size : before.size ≤ after.size

namespace Grows

theorem refl (draft : Draft) : Grows draft draft := ⟨List.prefix_rfl, Nat.le_refl _⟩

theorem trans {before between after : Draft} (first : Grows before between) (second : Grows between after) :
    Grows before after :=
  ⟨first.kept.trans second.kept, Nat.le_trans first.size second.size⟩

theorem indent (draft : Draft) : Grows draft draft.indent := ⟨List.prefix_rfl, Nat.le_refl _⟩

theorem dedent (draft : Draft) : Grows draft draft.dedent := ⟨List.prefix_rfl, Nat.le_refl _⟩

end Grows

theorem finished_prefix_lines (draft : Draft) : draft.finished.toList <+: draft.lines :=
  List.prefix_append _ _

theorem size_push (draft : Draft) (line : String) : (draft.push line).size = draft.size + 1 := by
  simp [size_eq_length, lines_push]

/-- A new line settles all lines before it. -/
theorem lines_prefix_push (draft : Draft) (line : String) : draft.lines <+: (draft.push line).finished.toList := by
  rw [finished_push]
  exact List.prefix_append _ _

theorem Grows.push (draft : Draft) (line : String) : Grows draft (draft.push line) := by
  refine ⟨draft.finished_prefix_lines.trans (draft.lines_prefix_push line), ?_⟩
  rw [size_push]
  exact Nat.le_succ _

theorem Grows.append (draft : Draft) (piece : Piece) : Grows draft (draft.append piece) := by
  unfold Draft.append
  split
  next statement opened =>
    split
    · exact ⟨List.prefix_rfl, by simp [Draft.size, opened]⟩
    · refine ⟨?_, ?_⟩
      · rw [finished_close]
        exact draft.finished_prefix_lines
      · have closed : draft.close.finished.size = draft.size := by
          rw [← Array.length_toList, finished_close, size_eq_length]
        simp [Draft.size, closed]
  next none => exact ⟨List.prefix_rfl, by simp [Draft.size, none]⟩

theorem Grows.appendText (draft : Draft) (text : String) : Grows draft (draft.appendText text) := by
  unfold Draft.appendText
  split
  · exact .refl draft
  · exact .append draft _

/-- What is settled in a draft stays as it is when the draft grows. -/
theorem Grows.lines_of_closed {before after : Draft} (grows : Grows before after) (closed : before.last = none) :
    before.lines <+: after.lines := by
  rw [Draft.lines_of_closed closed]
  exact grows.kept.trans after.finished_prefix_lines

private theorem line_hide (statement : Append) (hide : Bool) :
    (if hide then { statement with hidden := true } else statement).line = if hide then "" else statement.line := by
  cases hide <;> rfl

theorem lines_erase (draft : Draft) (span : Span) :
    (draft.erase span).lines = draft.lines.mapIdx fun index line => if span.contains index then "" else line := by
  cases seen : draft.last with
  | none => simp [erase, lines, seen]
  | some statement => simp [erase, lines, seen, List.mapIdx_append, line_hide]

/-- Erasing spans empties the lines they hold and keeps every other. -/
theorem lines_foldl_erase (spans : List Span) (draft : Draft) :
    (spans.foldl erase draft).lines =
      draft.lines.mapIdx fun index line => if spans.any (·.contains index) then "" else line := by
  induction spans generalizing draft with
  | nil => exact (List.mapIdx_eq_iff.mpr fun index => by simp).symm
  | cons span spans ih =>
    rw [List.foldl_cons, ih, lines_erase, List.mapIdx_mapIdx]
    congr 1
    funext index line
    cases within : span.contains index <;> simp [within]

end NimTemplate.Nim.Draft
