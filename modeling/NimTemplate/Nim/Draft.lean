import NimTemplate.Text.Basic

/-! The Nim code under construction. Text and expressions are added to the rendered output by
append statements, and neighbouring appends share one statement: the last line stays open
until another line follows it or the indentation it was started at is left. -/

namespace NimTemplate.Nim

/-- One operand of an append statement. -/
inductive Piece where
  | text (s : String)
  | expr (source : String)
deriving DecidableEq, Repr

def Piece.render : Piece → String
  | text s => Text.Quoted.literal s
  | expr source => "$(" ++ source ++ ")"

/-- Adds an operand at the end; text joins the text before it. -/
def addPiece : List Piece → Piece → List Piece
  | [], piece => [piece]
  | [.text s], .text more => [.text (s ++ more)]
  | first :: rest, piece => first :: addPiece rest piece

def indentation (level : Nat) : String := String.ofList (List.replicate (2 * level) ' ')

/-- The append statement on the last line. Once hidden its line is empty, and the next
operand brings all of it back. -/
structure Append where
  level : Nat
  pieces : List Piece
  hidden : Bool
deriving DecidableEq, Repr

def Append.line (statement : Append) : String :=
  if statement.hidden then ""
  else indentation statement.level ++ "jade_buf.add(" ++
    " & ".intercalate (statement.pieces.map Piece.render) ++ ")"

/-- The lines from `start` up to, and without, `stop`. -/
structure Span where
  start : Nat
  stop : Nat
deriving DecidableEq, Repr

def Span.contains (span : Span) (index : Nat) : Bool := span.start ≤ index && index < span.stop

/-- Finished lines, the open append statement behind them, and the current indentation. -/
structure Draft where
  finished : Array String
  last : Option Append
  level : Nat
deriving DecidableEq, Repr

namespace Draft

/-- The code is the body of a procedure, hence the first level. -/
def empty : Draft := ⟨#[], none, 1⟩

def lines (draft : Draft) : List String :=
  draft.finished.toList ++ (draft.last.map Append.line).toList

def size (draft : Draft) : Nat := draft.finished.size + draft.last.toList.length

def indent (draft : Draft) : Draft := { draft with level := draft.level + 1 }

/-- Leaves a level; the first one is never left. -/
def dedent (draft : Draft) : Draft := { draft with level := max (draft.level - 1) 1 }

/-- Ends the open statement. -/
def close (draft : Draft) : Draft :=
  match draft.last with
  | none => draft
  | some statement => { draft with finished := draft.finished.push statement.line, last := none }

def push (draft : Draft) (line : String) : Draft :=
  { draft.close with finished := draft.close.finished.push line }

def pushLine (draft : Draft) (statement : String) : Draft :=
  draft.push (indentation draft.level ++ statement)

def pushBlank (draft : Draft) : Draft := draft.push ""

def append (draft : Draft) (piece : Piece) : Draft :=
  match draft.last with
  | some statement =>
    if statement.level = draft.level then
      { draft with last := some ⟨draft.level, addPiece statement.pieces piece, false⟩ }
    else { draft.close with last := some ⟨draft.level, [piece], false⟩ }
  | none => { draft with last := some ⟨draft.level, [piece], false⟩ }

def appendText (draft : Draft) (text : String) : Draft :=
  if text = "" then draft else draft.append (.text text)

def appendExpr (draft : Draft) (source : String) : Draft := draft.append (.expr source)

/-- Empties the lines of a span and keeps all others where they are. -/
def erase (draft : Draft) (span : Span) : Draft :=
  { draft with
    finished := draft.finished.mapIdx fun index line => if span.contains index then "" else line
    last := draft.last.map fun statement =>
      if span.contains draft.finished.size then { statement with hidden := true } else statement }

def source (draft : Draft) : String := "\n".intercalate draft.lines

end Draft

end NimTemplate.Nim
