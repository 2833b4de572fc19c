import Mathlib.Data.List.SplitBy
import NimTemplate.Proofs.Lines
import NimTemplate.Proofs.Pieces

/-! Appends share statements. A plain list says what each operation adds: a line of its own, or
an operand at the level it was added at. Cut into the longest runs of operands at one level,
that list has one line for each run, and these are the lines of the draft. -/

namespace NimTemplate.Nim

inductive Operation where
  | indent
  | dedent
  | line (statement : String)
  | blank
  | text (content : String)
  | expr (source : String)
deriving DecidableEq, Repr

def Operation.apply (draft : Draft) : Operation → Draft
  | indent => draft.indent
  | dedent => draft.dedent
  | line statement => draft.pushLine statement
  | blank => draft.pushBlank
  | text content => draft.appendText content
  | expr source => draft.appendExpr source

def draftOf (operations : List Operation) : Draft := operations.foldl Operation.apply .empty

def spaces (count : Nat) : String := String.ofList (List.replicate count ' ')

/-- What an operation adds to the code. -/
inductive Entry where
  | line (content : String)
  | append (level : Nat) (piece : Piece)
deriving DecidableEq, Repr

namespace Entry

def piece? : Entry → Option Piece
  | line _ => none
  | append _ piece => some piece

def shares : Entry → Entry → Bool
  | append level _, append other _ => level == other
  | _, _ => false

/-- The code of entries that share a line, which are operands at one level or a line alone. Texts are
joined before they are written. -/
def code : List Entry → String
  | [] => ""
  | line content :: _ => content
  | append level piece :: rest =>
    spaces (2 * level) ++ "jade_buf.add(" ++
      " & ".intercalate ((joinTexts (piece :: rest.filterMap piece?)).map Piece.written) ++ ")"

end Entry

namespace Operation

def level : Operation → Nat → Nat
  | indent, level => level + 1
  | dedent, level => max (level - 1) 1
  | _, level => level

def entries : Operation → Nat → List Entry
  | line statement, level => [.line (spaces (2 * level) ++ statement)]
  | blank, _ => [.line ""]
  | text content, level => if content = "" then [] else [.append level (.text content)]
  | expr source, level => [.append level (.expr source)]
  | _, _ => []

end Operation

def entriesFrom : Nat → List Operation → List Entry
  | _, [] => []
  | level, operation :: rest => operation.entries level ++ entriesFrom (operation.level level) rest

/-- The code of a list of entries, one line for each longest run of entries that share it. -/
def linesOf (entries : List Entry) : List String := (entries.splitBy Entry.shares).map Entry.code

/-- The open statement of a draft holds the operands of a run; without one the run is empty. -/
inductive Holds (draft : Draft) : List Entry → Prop where
  | closed (last : draft.last = none) : Holds draft []
  | opened {level : Nat} {first : Piece} {rest : List Piece}
      (last : draft.last = some ⟨level, joinTexts (first :: rest), false⟩) :
      Holds draft ((first :: rest).map (.append level))

private theorem run_chain (level : Nat) (pieces : List Piece) :
    (pieces.map (Entry.append level)).IsChain (fun first second => Entry.shares first second) := by
  induction pieces with
  | nil => simp
  | cons piece rest ih =>
    cases rest with
    | nil => simp
    | cons next others => exact List.isChain_cons_cons.mpr ⟨by simp [Entry.shares], ih⟩

private theorem run_pieces (level : Nat) (pieces : List Piece) :
    (pieces.map (Entry.append level)).filterMap Entry.piece? = pieces := by
  simp [List.filterMap_map, Function.comp_def, Entry.piece?]

theorem linesOf_run (level : Nat) (first : Piece) (rest : List Piece) :
    linesOf ((first :: rest).map (.append level)) = [(⟨level, joinTexts (first :: rest), false⟩ : Append).line] := by
  rw [linesOf, List.splitBy_of_isChain (by simp) (run_chain level (first :: rest))]
  simp only [List.map_cons, List.map_nil, Entry.code, run_pieces, ← funext Piece.render_eq_written]
  rfl

theorem linesOf_append {run rest : List Entry}
    (apart : ∀ last ∈ run.getLast?, ∀ next ∈ rest.head?, Entry.shares last next = false) :
    linesOf (run ++ rest) = linesOf run ++ linesOf rest := by
  simp only [linesOf, List.splitBy_append apart, List.map_append]

theorem linesOf_line (content : String) (rest : List Entry) :
    linesOf (.line content :: rest) = content :: linesOf rest := by
  rw [show Entry.line content :: rest = [.line content] ++ rest from rfl, linesOf_append]
  · rfl
  · intro last member next _
    simp only [List.getLast?_singleton, Option.mem_some_iff] at member
    subst member
    cases next <;> rfl

theorem Holds.lines {draft : Draft} {run : List Entry} (holds : Holds draft run) :
    draft.lines = draft.finished.toList ++ linesOf run := by
  cases holds with
  | closed last => simp [Draft.lines, last, linesOf]
  | opened last => rw [linesOf_run]; simp [Draft.lines, last]

private theorem Holds.push {draft : Draft} {run : List Entry} (holds : Holds draft run) (content : String) :
    Holds (draft.push content) [] ∧ ∀ rest,
      (draft.push content).finished.toList ++ linesOf rest =
        draft.finished.toList ++ linesOf (run ++ .line content :: rest) := by
  refine ⟨.closed (Draft.last_push draft content), fun rest => ?_⟩
  rw [Draft.finished_push, holds.lines, linesOf_append, linesOf_line]
  · simp
  · intro last _ next member
    simp only [List.head?_cons, Option.mem_some_iff] at member
    subst member
    cases last <;> rfl

/-- An operand stays in the run at its level, and starts a new one at any other. -/
private theorem Holds.append {draft : Draft} {run : List Entry} (holds : Holds draft run) (piece : Piece) :
    ∃ next, Holds (draft.append piece) next ∧ ∀ rest,
      (draft.append piece).finished.toList ++ linesOf (next ++ rest) =
        draft.finished.toList ++ linesOf (run ++ .append draft.level piece :: rest) := by
  cases holds with
  | closed last =>
    refine ⟨[.append draft.level piece], ?_, fun rest => ?_⟩
    · exact @Holds.opened _ draft.level piece [] (by cases piece <;> simp [Draft.append, last, joinTexts, consPiece])
    · simp [Draft.append, last]
  | @opened level first rest last =>
    by_cases same : level = draft.level
    · refine ⟨(first :: (rest ++ [piece])).map (.append level), .opened ?_, fun more => ?_⟩
      · simp only [Draft.append, last, same, if_true]
        rw [addPiece_joinTexts, List.cons_append]
      · simp [Draft.append, last, same]
    · refine ⟨[.append draft.level piece], ?_, fun more => ?_⟩
      · refine @Holds.opened _ draft.level piece [] ?_
        cases piece <;> simp [Draft.append, last, same, joinTexts, consPiece]
      · have apart : linesOf ((first :: rest).map (.append level) ++ .append draft.level piece :: more) =
            linesOf ((first :: rest).map (.append level)) ++ linesOf (.append draft.level piece :: more) := by
          apply linesOf_append
          intro entry member next head
          simp only [List.head?_cons, Option.mem_some_iff] at head
          obtain ⟨operand, _, rfl⟩ := List.mem_map.mp (List.mem_of_mem_getLast? member)
          subst head
          simpa [Entry.shares] using same
        have closed : (draft.append piece).finished.toList = draft.lines := by
          rw [← Draft.finished_close]
          simp [Draft.append, last, same]
        rw [apart, closed, (Holds.opened last).lines, List.append_assoc]
        rfl

/-- One operation adds its entries to the run or ends it. -/
theorem Holds.step {draft : Draft} {run : List Entry} (holds : Holds draft run) (operation : Operation) :
    ∃ next, Holds (operation.apply draft) next ∧ ∀ rest,
      (operation.apply draft).finished.toList ++ linesOf (next ++ rest) =
        draft.finished.toList ++ linesOf (run ++ (operation.entries draft.level ++ rest)) := by
  cases operation with
  | indent => exact ⟨run, by cases holds <;> constructor <;> assumption, fun _ => rfl⟩
  | dedent => exact ⟨run, by cases holds <;> constructor <;> assumption, fun _ => rfl⟩
  | line statement => exact ⟨[], holds.push _⟩
  | blank => exact ⟨[], holds.push _⟩
  | text content =>
    by_cases empty : content = ""
    · exact ⟨run, by simpa [Operation.apply, Draft.appendText, empty] using holds,
        by simp [Operation.apply, Operation.entries, Draft.appendText, empty]⟩
    · simpa [Operation.apply, Operation.entries, Draft.appendText, empty] using holds.append (.text content)
  | expr source => exact holds.append (.expr source)

theorem level_apply (operation : Operation) (draft : Draft) :
    (operation.apply draft).level = operation.level draft.level := by
  cases operation with
  | text content => exact Draft.level_appendText draft content
  | expr source => exact Draft.level_append draft _
  | line statement => exact Draft.level_push _ _
  | blank => exact Draft.level_push _ _
  | indent => rfl
  | dedent => rfl

/-- From any draft on, operations show the run that is open and then their own entries. -/
theorem Holds.run {draft : Draft} {run : List Entry} (holds : Holds draft run) (operations : List Operation) :
    (operations.foldl Operation.apply draft).lines =
      draft.finished.toList ++ linesOf (run ++ entriesFrom draft.level operations) := by
  induction operations generalizing draft run with
  | nil => simpa [entriesFrom] using holds.lines
  | cons operation rest ih =>
    obtain ⟨next, kept, shown⟩ := holds.step operation
    rw [List.foldl_cons, ih kept, shown, level_apply, entriesFrom]

theorem lines_draftOf (operations : List Operation) :
    (draftOf operations).lines = linesOf (entriesFrom 1 operations) := by
  have started : Holds Draft.empty [] := .closed rfl
  simpa [draftOf, Draft.empty] using started.run operations

end NimTemplate.Nim
