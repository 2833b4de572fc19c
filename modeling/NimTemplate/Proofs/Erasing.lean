import NimTemplate.Proofs.Coalescing

/-! How long an erased line stays empty. A finished line does for good. The open statement is only
hidden: the next operand at its level goes on with it, and all of it is shown again. -/

namespace NimTemplate.Nim

inductive Edit where
  | perform (operation : Operation)
  | erase (span : Span)
deriving DecidableEq, Repr

namespace Edit

def apply (draft : Draft) : Edit → Draft
  | perform operation => operation.apply draft
  | erase span => draft.erase span

def operation? : Edit → Option Operation
  | perform operation => some operation
  | erase _ => none

def erases (index : Nat) : Edit → Bool
  | perform _ => false
  | erase span => span.contains index

/-- Whether an edit adds an operand. Empty text is none. -/
def appends : Edit → Bool
  | perform (.text content) => content != ""
  | perform (.expr _) => true
  | _ => false

end Edit

def OnlyAppendAt (statement level : Nat) (edits : List Edit) : Prop :=
  ∀ entry ∈ entriesFrom level (edits.filterMap Edit.operation?), ∃ piece, entry = .append statement piece

/-- Edits that bring a line back. The line is that of the open statement, an edit adds an operand
to the statement before any other line is begun, and no later edit erases the line. -/
def Draft.IsRestored (draft : Draft) (index : Nat) (edits : List Edit) : Prop :=
  ∃ statement, draft.last = some statement ∧ index = draft.finished.size ∧
    ∃ before edit after, edits = before ++ edit :: after ∧ edit.appends ∧
      OnlyAppendAt statement.level draft.level (before ++ [edit]) ∧ ∀ later ∈ after, later.erases index = false

/-! One edit. -/

namespace Edit

/-- Entries of an edit leave a statement open if they are operands at its level. -/
def Continues (edit : Edit) (statement level : Nat) : Prop :=
  ∀ operation ∈ edit.operation?, ∀ entry ∈ operation.entries level, ∃ piece, entry = .append statement piece

theorem grows_perform (draft : Draft) (operation : Operation) : draft.Grows (operation.apply draft) := by
  cases operation with
  | indent => exact .indent draft
  | dedent => exact .dedent draft
  | line statement => exact .push draft _
  | blank => exact .push draft _
  | text content => exact .appendText draft content
  | expr source => exact .append draft _

theorem finished_apply {draft : Draft} {index : Nat} {line : String} (edit : Edit)
    (settled : draft.finished[index]? = some line) :
    (edit.apply draft).finished[index]? = some (if edit.erases index then "" else line) := by
  cases edit with
  | perform operation =>
    obtain ⟨more, kept⟩ := (grows_perform draft operation).kept
    have inside : index < draft.finished.toList.length := by
      simpa using (Array.getElem?_eq_some_iff.mp settled).1
    change (operation.apply draft).finished[index]? = some line
    rw [← Array.getElem?_toList, ← kept, List.getElem?_append_left inside, Array.getElem?_toList, settled]
  | erase span =>
    change (draft.finished.mapIdx _)[index]? = _
    rw [Array.getElem?_mapIdx, settled]
    rfl

private theorem append_continues {draft : Draft} {statement : Append} (piece : Piece)
    (opened : draft.last = some statement) (same : statement.level = draft.level) :
    draft.append piece = { draft with last := some ⟨statement.level, addPiece statement.pieces piece, false⟩ } := by
  simp only [Draft.append, opened, same, if_true]

private theorem append_finishes {draft : Draft} {statement : Append} (piece : Piece)
    (opened : draft.last = some statement) (apart : statement.level ≠ draft.level) :
    (draft.append piece).finished = draft.finished.push statement.line := by
  simp only [Draft.append, opened, apart, if_false, Draft.close]

theorem apply_continues {draft : Draft} {statement : Append} (edit : Edit) (opened : draft.last = some statement)
    (continues : edit.Continues statement.level draft.level) :
    (edit.apply draft).finished.size = draft.finished.size ∧
      ∃ pieces, (edit.apply draft).last = some ⟨statement.level, pieces,
        !edit.appends && (statement.hidden || edit.erases draft.finished.size)⟩ := by
  have unchanged : draft.last = some ⟨statement.level, statement.pieces, !false && (statement.hidden || false)⟩ := by
    rw [opened, Bool.or_false]
    rfl
  have appended : ∀ piece, statement.level = draft.level → (draft.append piece).finished.size = draft.finished.size ∧
      ∃ pieces, (draft.append piece).last = some ⟨statement.level, pieces, false⟩ := by
    intro piece same
    rw [append_continues piece opened same]
    exact ⟨rfl, _, rfl⟩
  cases edit with
  | erase span =>
    refine ⟨Array.size_mapIdx .., statement.pieces, ?_⟩
    simp only [apply, Draft.erase, opened, appends, erases, Option.map_some]
    cases span.contains draft.finished.size <;> simp
  | perform operation =>
    have entries := continues operation rfl
    cases operation with
    | indent | dedent => exact ⟨rfl, statement.pieces, unchanged⟩
    | line content | blank =>
      obtain ⟨_, other⟩ := entries _ (List.mem_singleton_self _)
      cases other
    | text content =>
      by_cases empty : content = ""
      · subst empty
        exact ⟨rfl, statement.pieces, unchanged⟩
      · simp only [Operation.entries, empty, if_false, List.mem_singleton, forall_eq] at entries
        obtain ⟨_, same⟩ := entries
        have adds : appends (perform (.text content)) = true := bne_iff_ne.mpr empty
        rw [adds, apply, Operation.apply, Draft.appendText, if_neg empty]
        exact appended (.text content) (Entry.append.inj same).1.symm
    | expr source =>
      obtain ⟨_, same⟩ := entries _ (List.mem_singleton_self _)
      exact appended (.expr source) (Entry.append.inj same).1.symm

theorem apply_finishes {draft : Draft} {statement : Append} (edit : Edit) (opened : draft.last = some statement)
    (ends : ¬ edit.Continues statement.level draft.level) :
    (edit.apply draft).finished[draft.finished.size]? = some statement.line := by
  have pushed : ∀ line, (draft.push line).finished[draft.finished.size]? = some statement.line := by
    intro line
    rw [← Array.getElem?_toList, Draft.finished_push, Draft.lines, opened, List.append_assoc, ← Array.length_toList,
      List.getElem?_append_right (Nat.le_refl _), Nat.sub_self]
    rfl
  have appended : ∀ piece, (¬ ∃ other, Entry.append draft.level piece = .append statement.level other) →
      (draft.append piece).finished[draft.finished.size]? = some statement.line := by
    intro piece apart
    have other : statement.level ≠ draft.level := by
      intro same
      exact apart ⟨piece, by rw [same]⟩
    simp [append_finishes piece opened other]
  cases edit with
  | erase span => simp [Continues, operation?] at ends
  | perform operation =>
    cases operation with
    | indent | dedent => simp [Continues, operation?, Operation.entries] at ends
    | line content | blank => exact pushed _
    | text content =>
      by_cases empty : content = ""
      · simp [Continues, operation?, Operation.entries, empty] at ends
      · simp only [Continues, operation?, Operation.entries, empty, if_false, Option.mem_some_iff, forall_eq',
          List.mem_singleton, forall_eq] at ends
        simpa [apply, Operation.apply, Draft.appendText, empty] using appended (.text content) ends
    | expr source =>
      simp only [Continues, operation?, Operation.entries, Option.mem_some_iff, forall_eq', List.mem_singleton,
        forall_eq] at ends
      exact appended (.expr source) ends

end Edit

/-! All edits. -/

private theorem entriesFrom_append (level : Nat) (first rest : List Operation) :
    entriesFrom level (first ++ rest) =
      entriesFrom level first ++
        entriesFrom (first.foldl (fun level operation => operation.level level) level) rest := by
  induction first generalizing level with
  | nil => rfl
  | cons operation first ih => simp [entriesFrom, ih]

theorem level_edits (edits : List Edit) (draft : Draft) :
    (edits.foldl Edit.apply draft).level =
      (edits.filterMap Edit.operation?).foldl (fun level operation => operation.level level) draft.level := by
  induction edits generalizing draft with
  | nil => rfl
  | cons edit edits ih =>
    cases edit with
    | perform operation =>
      change (edits.foldl Edit.apply (operation.apply draft)).level = _
      rw [ih, level_apply]
      rfl
    | erase span => exact ih (draft.erase span)

theorem onlyAppendAt_concat (statement : Nat) (draft : Draft) (edits : List Edit) (edit : Edit) :
    OnlyAppendAt statement draft.level (edits ++ [edit]) ↔
      OnlyAppendAt statement draft.level edits ∧ edit.Continues statement (edits.foldl Edit.apply draft).level := by
  unfold OnlyAppendAt Edit.Continues
  rw [List.filterMap_append, entriesFrom_append, List.forall_mem_append, level_edits]
  cases edit with
  | perform operation => simp [Edit.operation?, entriesFrom]
  | erase span => simp [Edit.operation?, entriesFrom, List.filterMap_cons]

theorem isRestored_concat {draft : Draft} {statement : Append} (opened : draft.last = some statement)
    (edits : List Edit) (edit : Edit) :
    draft.IsRestored draft.finished.size (edits ++ [edit]) ↔
      (draft.IsRestored draft.finished.size edits ∧ edit.erases draft.finished.size = false) ∨
        (edit.appends ∧ OnlyAppendAt statement.level draft.level (edits ++ [edit])) := by
  constructor
  · rintro ⟨other, last, _, before, adding, after, whole, appends, only, kept⟩
    obtain rfl := Option.some.inj (opened.symm.trans last)
    rcases List.eq_nil_or_concat after with rfl | ⟨between, final, rfl⟩
    · obtain ⟨rfl, same⟩ := List.append_inj' whole rfl
      cases same
      exact .inr ⟨appends, only⟩
    · rw [List.concat_eq_append, ← List.cons_append, ← List.append_assoc] at whole
      obtain ⟨rfl, same⟩ := List.append_inj' whole rfl
      cases same
      refine .inl ⟨⟨statement, opened, rfl, before, adding, between, rfl, appends, only, ?_⟩, ?_⟩
      · intro later member
        exact kept later (by simp [member])
      · exact kept edit (by simp)
  · rintro (⟨⟨other, last, place, before, adding, after, rfl, appends, only, kept⟩, spared⟩ | ⟨appends, only⟩)
    · refine ⟨other, last, place, before, adding, after ++ [edit], by simp, appends, only, ?_⟩
      intro later member
      rcases List.mem_append.mp member with earlier | same
      · exact kept later earlier
      · obtain rfl := List.mem_singleton.mp same
        exact spared
    · exact ⟨statement, opened, rfl, edits, edit, [], rfl, appends, only, by simp⟩

theorem Append.line_eq_empty_iff (statement : Append) : statement.line = "" ↔ statement.hidden = true := by
  unfold Append.line
  cases statement.hidden with
  | true => simp
  | false => simp [String.append_eq_empty_iff]

/-- How the line of a statement that was once open stands in a draft. -/
inductive Stands (draft : Draft) (index level : Nat) (isOpen shown : Prop) : Prop where
  | opened {statement : Append} (still : isOpen) (place : draft.finished.size = index)
      (last : draft.last = some statement) (same : statement.level = level) (hidden : statement.hidden ↔ ¬ shown)
  | finished {line : String} (ended : ¬ isOpen) (place : draft.finished[index]? = some line)
      (empty : line = "" ↔ ¬ shown)

theorem Stands.line_eq_empty_iff {draft : Draft} {index level : Nat} {isOpen shown : Prop}
    (stands : Stands draft index level isOpen shown) : draft.lines[index]? = some "" ↔ ¬ shown := by
  cases stands with
  | @opened statement still place last same hidden =>
    have here : draft.lines[index]? = some statement.line := by
      simp [Draft.lines, last, ← place]
    rw [here, Option.some_inj, statement.line_eq_empty_iff]
    exact hidden
  | @finished line ended place empty =>
    have here : draft.lines[index]? = some line := by
      have inside : index < draft.finished.toList.length := by
        simpa using (Array.getElem?_eq_some_iff.mp place).1
      rw [Draft.lines, List.getElem?_append_left inside, Array.getElem?_toList, place]
    rw [here, Option.some_inj]
    exact empty

/-- A hidden statement, behind edits. By induction from the right: the last edit meets the statement
open, or finished as it stood when the first other line was begun. -/
theorem hidden_stands {draft : Draft} {statement : Append} (opened : draft.last = some statement)
    (hidden : statement.hidden) (edits : List Edit) :
    Stands (edits.foldl Edit.apply draft) draft.finished.size statement.level
      (OnlyAppendAt statement.level draft.level edits) (draft.IsRestored draft.finished.size edits) := by
  induction edits using List.reverseRecOn with
  | nil =>
    refine .opened (by simp [OnlyAppendAt, entriesFrom]) rfl opened rfl ?_
    simp [hidden, Draft.IsRestored]
  | append_singleton edits edit ih =>
    have restored := isRestored_concat opened edits edit
    have still := onlyAppendAt_concat statement.level draft edits edit
    rw [List.foldl_append]
    cases ih with
    | @opened now only place last same shown =>
      by_cases continues : edit.Continues now.level (edits.foldl Edit.apply draft).level
      · obtain ⟨size, pieces, further⟩ := edit.apply_continues last continues
        rw [place] at size further
        have goesOn : OnlyAppendAt statement.level draft.level (edits ++ [edit]) := still.mpr ⟨only, same ▸ continues⟩
        refine .opened goesOn size further same ?_
        rw [restored, Bool.and_eq_true, Bool.or_eq_true, shown]
        cases edit.appends <;> cases edit.erases draft.finished.size <;> simp [goesOn]
      · have closed : ¬ OnlyAppendAt statement.level draft.level (edits ++ [edit]) := by
          rw [same] at continues
          exact fun only => continues (still.mp only).2
        have kept := edit.apply_finishes last continues
        rw [place] at kept
        have spared : edit.erases draft.finished.size = false := by
          cases edit with
          | perform operation => rfl
          | erase span => simp [Edit.Continues, Edit.operation?] at continues
        refine .finished closed kept ?_
        rw [now.line_eq_empty_iff, shown, restored]
        simp [spared, closed]
    | @finished line ended place empty =>
      have closed : ¬ OnlyAppendAt statement.level draft.level (edits ++ [edit]) := fun only => ended (still.mp only).1
      refine .finished closed (edit.finished_apply place) ?_
      rw [restored]
      cases erased : edit.erases draft.finished.size <;> simp [closed, empty]

theorem finished_edits {index : Nat} (edits : List Edit) {draft : Draft} (settled : draft.finished[index]? = some "") :
    (edits.foldl Edit.apply draft).finished[index]? = some "" := by
  induction edits generalizing draft with
  | nil => exact settled
  | cons edit edits ih =>
    apply ih
    rw [edit.finished_apply settled, ite_self]

theorem last_erase {draft : Draft} {span : Span} {statement : Append} (opened : draft.last = some statement)
    (within : span.contains draft.finished.size) :
    (draft.erase span).last = some { statement with hidden := true } := by
  simp [Draft.erase, opened, within]

theorem Draft.size_finished_erase (draft : Draft) (span : Span) :
    (draft.erase span).finished.size = draft.finished.size := Array.size_mapIdx ..

/-- Erasing changes no line outside its span and not the number of lines. A line that it empties is empty
behind any further edits unless they restore it. -/
theorem erased_line_is_empty_iff (draft : Draft) (span : Span) :
    (draft.erase span).size = draft.size ∧
      (∀ index, span.contains index = false → (draft.erase span).lines[index]? = draft.lines[index]?) ∧
      ∀ index < draft.size, span.contains index → ∀ edits : List Edit,
        ((edits.foldl Edit.apply (draft.erase span)).lines[index]? = some "" ↔ ¬ draft.IsRestored index edits) := by
  refine ⟨?_, ?_, ?_⟩
  · simp [Draft.size_eq_length, Draft.lines_erase]
  · intro index outside
    rw [Draft.lines_erase, List.getElem?_mapIdx, outside]
    simp
  · intro index inside within edits
    rcases Nat.lt_or_ge index draft.finished.size with before | behind
    · have emptied : (draft.erase span).finished[index]? = some "" := by
        simp [Draft.erase, before, within]
      have stands : Stands (edits.foldl Edit.apply (draft.erase span)) index 0 False
          (draft.IsRestored index edits) := by
        refine .finished not_false (finished_edits edits emptied) ?_
        have apart : ¬ draft.IsRestored index edits := by
          rintro ⟨_, _, place, _⟩
          exact absurd place (Nat.ne_of_lt before)
        simp [apart]
      exact stands.line_eq_empty_iff
    · cases opened : draft.last with
      | none => simp [Draft.size, opened] at inside; omega
      | some statement =>
        obtain rfl : index = draft.finished.size := by simp [Draft.size, opened] at inside; omega
        have stands := hidden_stands (last_erase opened within) rfl edits
        have same : (draft.erase span).IsRestored draft.finished.size edits ↔
            draft.IsRestored draft.finished.size edits := by
          simp only [Draft.IsRestored, last_erase opened within, opened, Draft.size_finished_erase, Option.some.injEq,
            exists_eq_left']
          rfl
        rw [Draft.size_finished_erase] at stands
        rw [← same]
        exact stands.line_eq_empty_iff

/-- Text one level deeper begins a line of its own, and the erased one stays empty. -/
theorem deeper_text_restores_nothing :
    let draft := draftOf [.line "a", .text "b"]
    let edits : List Edit := [.perform .indent, .perform (.text "c"), .perform .dedent, .perform (.text "d")]
    1 < draft.size ∧ (Span.mk 0 2).contains 1 ∧
      (edits.foldl Edit.apply (draft.erase ⟨0, 2⟩)).lines[1]? = some "" ∧ ¬ draft.IsRestored 1 edits := by
  intro draft edits
  have inside : 1 < draft.size := by decide
  have empty : (edits.foldl Edit.apply (draft.erase ⟨0, 2⟩)).lines[1]? = some "" := by decide
  exact ⟨inside, by decide, empty, ((erased_line_is_empty_iff draft ⟨0, 2⟩).2.2 1 inside (by decide) edits).mp empty⟩

/-- Text at the same level brings the erased text back. -/
theorem erased_text_comes_back :
    let draft := draftOf [.text "a"]
    (Span.mk 0 1).contains 0 ∧ draft.lines = ["  jade_buf.add(\"a\")"] ∧ (draft.erase ⟨0, 1⟩).lines = [""] ∧
      ([Edit.perform (.text "b")].foldl Edit.apply (draft.erase ⟨0, 1⟩)).lines = ["  jade_buf.add(\"ab\")"] := by
  decide

end NimTemplate.Nim
