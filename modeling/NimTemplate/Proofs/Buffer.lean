import NimTemplate.Proofs.Erasing

/-! A buffer that stores every line and changes the last one in place. What it needs for that it
keeps aside: the statement it wrote last, with the texts already escaped, and the number of its
line. The statement goes on only while that line is the last one and the level is the same. A
draft, which has the open statement apart from the finished lines, describes such a buffer: they
agree on all lines behind any edits. -/

namespace NimTemplate.Nim

/-- An operand whose text is escaped already. -/
def Piece.enclosed : Piece → String
  | text s => "\"" ++ s ++ "\""
  | expr source => "$(" ++ source ++ ")"

def Piece.escaped : Piece → Piece
  | text s => .text (Text.Quoted.escape s)
  | expr source => .expr source

structure Fragment where
  line : Nat
  level : Nat
  pieces : List Piece
deriving DecidableEq, Repr

namespace Fragment

def code (fragment : Fragment) : String :=
  indentation fragment.level ++ "jade_buf.add(" ++ " & ".intercalate (fragment.pieces.map Piece.enclosed) ++ ")"

/-- Text is put behind the last operand if that is text too. -/
def add (fragment : Fragment) (piece : Piece) : Fragment :=
  { fragment with
    pieces := match fragment.pieces.getLast?, piece with
      | some (.text s), .text more => fragment.pieces.dropLast ++ [.text (s ++ more)]
      | _, _ => fragment.pieces ++ [piece] }

end Fragment

structure Buffer where
  lines : Array String
  level : Nat
  pending : Option Fragment
deriving DecidableEq, Repr

namespace Buffer

def empty : Buffer := ⟨#[], 1, none⟩

def indent (buffer : Buffer) : Buffer := { buffer with level := buffer.level + 1 }

def dedent (buffer : Buffer) : Buffer := { buffer with level := max (buffer.level - 1) 1 }

def push (buffer : Buffer) (line : String) : Buffer := { buffer with lines := buffer.lines.push line }

/-- The pending statement, if it is the last line and was begun at the current level. -/
def live? (buffer : Buffer) : Option Fragment :=
  buffer.pending.filter fun fragment => fragment.line + 1 = buffer.lines.size && fragment.level = buffer.level

def append (buffer : Buffer) (piece : Piece) : Buffer :=
  match buffer.live? with
  | some fragment =>
    let longer := fragment.add piece
    { buffer with lines := buffer.lines.setIfInBounds fragment.line longer.code, pending := some longer }
  | none =>
    let fragment : Fragment := ⟨buffer.lines.size, buffer.level, [piece]⟩
    { buffer with lines := buffer.lines.push fragment.code, pending := some fragment }

def erase (buffer : Buffer) (span : Span) : Buffer :=
  { buffer with lines := buffer.lines.mapIdx fun index line => if span.contains index then "" else line }

def source (buffer : Buffer) : String := "\n".intercalate buffer.lines.toList

end Buffer

def Operation.write (buffer : Buffer) : Operation → Buffer
  | indent => buffer.indent
  | dedent => buffer.dedent
  | line statement => buffer.push (indentation buffer.level ++ statement)
  | blank => buffer.push ""
  | text content => if content = "" then buffer else buffer.append (.text (Text.Quoted.escape content))
  | expr source => buffer.append (.expr source)

def Edit.write (buffer : Buffer) : Edit → Buffer
  | perform operation => operation.write buffer
  | erase span => buffer.erase span

def bufferOf (operations : List Operation) : Buffer := operations.foldl Operation.write .empty

/-! Operands that are escaped when they are added. -/

theorem Piece.enclosed_escaped (piece : Piece) : piece.escaped.enclosed = piece.render := by
  cases piece <;> rfl

theorem Fragment.code_escaped (line level : Nat) (pieces : List Piece) :
    (⟨line, level, pieces.map Piece.escaped⟩ : Fragment).code = (⟨level, pieces, false⟩ : Append).line := by
  simp only [code, Append.line, List.map_map, Function.comp_def, Piece.enclosed_escaped]
  rfl

private theorem addPiece_concat (pieces : List Piece) (last piece : Piece) :
    addPiece (pieces ++ [last]) piece = pieces ++ addPiece [last] piece := by
  induction pieces with
  | nil => rfl
  | cons first rest ih => cases rest <;> cases first <;> cases piece <;> simp_all [addPiece]

/-- Escaping may come before or after joining. -/
theorem Fragment.add_escaped (line level : Nat) (pieces : List Piece) (piece : Piece) :
    (⟨line, level, pieces.map Piece.escaped⟩ : Fragment).add piece.escaped =
      ⟨line, level, (addPiece pieces piece).map Piece.escaped⟩ := by
  rcases List.eq_nil_or_concat pieces with rfl | ⟨before, last, rfl⟩
  · rfl
  · rw [List.concat_eq_append, addPiece_concat]
    cases last <;> cases piece <;> simp [add, addPiece, Piece.escaped, Text.Quoted.escape_append]

/-- A buffer that a draft describes. -/
structure Buffer.Stores (buffer : Buffer) (draft : Draft) : Prop where
  lines : buffer.lines.toList = draft.lines
  level : buffer.level = draft.level
  opened : ∀ statement, draft.last = some statement →
    buffer.pending = some ⟨draft.finished.size, statement.level, statement.pieces.map Piece.escaped⟩
  closed : draft.last = none → ∀ fragment, buffer.pending = some fragment → fragment.line + 1 < buffer.lines.size

namespace Buffer.Stores

variable {buffer : Buffer} {draft : Draft}

theorem size (stores : buffer.Stores draft) : buffer.lines.size = draft.size := by
  rw [Draft.size_eq_length, ← stores.lines, Array.length_toList]

theorem empty : Buffer.empty.Stores Draft.empty where
  lines := rfl
  level := rfl
  opened := by
    intro statement last
    cases last
  closed := by
    intro _ fragment pending
    cases pending

theorem indent (stores : buffer.Stores draft) : buffer.indent.Stores draft.indent :=
  ⟨stores.lines, congrArg (· + 1) stores.level, stores.opened, stores.closed⟩

theorem dedent (stores : buffer.Stores draft) : buffer.dedent.Stores draft.dedent :=
  ⟨stores.lines, congrArg (fun level => max (level - 1) 1) stores.level, stores.opened, stores.closed⟩

/-- The pending statement stands on one of the lines. -/
theorem pending_lt (stores : buffer.Stores draft) {fragment : Fragment} (pending : buffer.pending = some fragment) :
    fragment.line < buffer.lines.size := by
  cases last : draft.last with
  | none => exact Nat.lt_of_succ_lt (stores.closed last fragment pending)
  | some statement =>
    obtain rfl := Option.some.inj (pending.symm.trans (stores.opened statement last))
    rw [stores.size, Draft.size, last]
    exact Nat.lt_succ_self _

theorem push (stores : buffer.Stores draft) (line : String) : (buffer.push line).Stores (draft.push line) where
  lines := by rw [Draft.lines_push, ← stores.lines, Buffer.push, Array.toList_push]
  level := by rw [Draft.level_push, ← stores.level, Buffer.push]
  opened := by
    intro statement last
    rw [Draft.last_push] at last
    cases last
  closed := by
    intro _ fragment pending
    rw [Buffer.push, Array.size_push]
    exact Nat.succ_lt_succ (stores.pending_lt pending)

theorem live?_eq (stores : buffer.Stores draft) :
    buffer.live? = (draft.last.filter (·.level = draft.level)).map fun statement =>
      ⟨draft.finished.size, statement.level, statement.pieces.map Piece.escaped⟩ := by
  cases last : draft.last with
  | none =>
    cases pending : buffer.pending with
    | none => simp [live?, pending]
    | some fragment =>
      have before := stores.closed last fragment pending
      simp [live?, pending, Nat.ne_of_lt before]
  | some statement =>
    have size : buffer.lines.size = draft.finished.size + 1 := by rw [stores.size, Draft.size, last]; rfl
    simp only [live?, stores.opened statement last, size, stores.level]
    by_cases same : statement.level = draft.level <;> simp [Option.filter_some, same]

/-- A statement that is begun stands behind all lines. -/
private theorem begins (stores : buffer.Stores draft) (piece : Piece) (dead : buffer.live? = none) :
    (buffer.append piece.escaped).Stores { draft.close with last := some ⟨draft.level, [piece], false⟩ } := by
  have size : buffer.lines.size = draft.close.finished.size := by
    rw [← Array.length_toList, ← Array.length_toList, Draft.finished_close, stores.lines]
  have code := Fragment.code_escaped buffer.lines.size draft.level [piece]
  simp only [Buffer.append, dead, stores.level]
  constructor
  · change (buffer.lines.push _).toList = draft.close.finished.toList ++ [_]
    rw [Array.toList_push, stores.lines, Draft.finished_close, ← code]
    rfl
  · exact (Draft.level_close draft).symm
  · intro statement last
    cases last
    rw [← size]
    rfl
  · intro last
    cases last

/-- A statement that goes on stays on its line. -/
private theorem continues {statement : Append} (stores : buffer.Stores draft) (piece : Piece)
    (last : draft.last = some statement) (same : statement.level = draft.level) :
    (buffer.append piece.escaped).Stores
      { draft with last := some ⟨draft.level, addPiece statement.pieces piece, false⟩ } := by
  have live : buffer.live? = some ⟨draft.finished.size, draft.level, statement.pieces.map Piece.escaped⟩ := by
    simp [stores.live?_eq, last, same, Option.filter_some]
  have code := Fragment.code_escaped draft.finished.size draft.level (addPiece statement.pieces piece)
  simp only [Buffer.append, live, Fragment.add_escaped]
  constructor
  · rw [Array.toList_setIfInBounds, stores.lines, code]
    simp [Draft.lines, last]
  · exact stores.level
  · intro other opened
    cases opened
    rfl
  · intro none
    cases none

theorem append (stores : buffer.Stores draft) (piece : Piece) :
    (buffer.append piece.escaped).Stores (draft.append piece) := by
  unfold Draft.append
  split
  next statement last =>
    split
    next same => exact stores.continues piece last same
    next other =>
      have dead : buffer.live? = none := by simp [stores.live?_eq, last, other, Option.filter_some]
      simpa only [Draft.level_close] using stores.begins piece dead
  next last =>
    have dead : buffer.live? = none := by simp [stores.live?_eq, last]
    have closed : draft.close = draft := by simp [Draft.close, last]
    simpa only [closed] using stores.begins piece dead

theorem erase (stores : buffer.Stores draft) (span : Span) : (buffer.erase span).Stores (draft.erase span) where
  lines := by rw [Draft.lines_erase, ← stores.lines, Buffer.erase, Array.toList_mapIdx]
  level := stores.level
  opened := by
    intro statement last
    obtain ⟨before, opened, rfl⟩ := Option.map_eq_some_iff.mp last
    rw [Draft.size_finished_erase]
    split <;> exact stores.opened before opened
  closed := by
    intro last fragment pending
    have before : draft.last = none := Option.map_eq_none_iff.mp last
    rw [Buffer.erase, Array.size_mapIdx]
    exact stores.closed before fragment pending

/-- What one edit does to the buffer, it does to the draft. -/
theorem step (stores : buffer.Stores draft) (edit : Edit) : (edit.write buffer).Stores (edit.apply draft) := by
  cases edit with
  | erase span => exact stores.erase span
  | perform operation =>
    cases operation with
    | indent => exact stores.indent
    | dedent => exact stores.dedent
    | blank => exact stores.push ""
    | expr source => exact stores.append (.expr source)
    | line statement =>
      have pushed := stores.push (indentation buffer.level ++ statement)
      rw [stores.level] at pushed
      rw [Edit.write, Operation.write, stores.level]
      exact pushed
    | text content =>
      rw [Edit.write, Edit.apply, Operation.write, Operation.apply, Draft.appendText]
      split
      · exact stores
      · exact stores.append (.text content)

theorem run (stores : buffer.Stores draft) (edits : List Edit) :
    (edits.foldl Edit.write buffer).Stores (edits.foldl Edit.apply draft) := by
  induction edits generalizing buffer draft with
  | nil => exact stores
  | cons edit edits ih => exact ih (stores.step edit)

end Buffer.Stores

theorem stores_operations (operations : List Operation) : (bufferOf operations).Stores (draftOf operations) := by
  have stores := Buffer.Stores.empty.run (operations.map .perform)
  rwa [List.foldl_map, List.foldl_map] at stores

/-- Appends share statements in the stored lines: for any operations, what the buffer holds is one line
for each entry of its own and one for each longest run of operands at one level. -/
theorem appends_share_statements (operations : List Operation) :
    (bufferOf operations).lines.toList = linesOf (entriesFrom 1 operations) ∧
      (draftOf operations).lines = linesOf (entriesFrom 1 operations) :=
  ⟨(stores_operations operations).lines.trans (lines_draftOf operations), lines_draftOf operations⟩

end NimTemplate.Nim
