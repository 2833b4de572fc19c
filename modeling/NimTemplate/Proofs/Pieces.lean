import Mathlib.Data.List.Induction
import NimTemplate.Nim.Draft

/-! Operands of an append statement. The statement takes them one by one at its end; a list of
operands has the same result read from the front, as the texts that stand next to each other
made one. What is written for a text does not depend on whether it was joined before or after. -/

namespace NimTemplate

namespace Text.Quoted

theorem escape_append (first rest : String) : escape (first ++ rest) = escape first ++ escape rest := by
  simp [escape]

/-- The characters that have a letter of their own behind a backslash. -/
def shortForms : List (Char × Char) :=
  [('"', '"'), ('\\', '\\'), ('\x08', 'b'), ('\t', 't'), ('\n', 'n'), ('\x0c', 'f'), ('\r', 'r')]

/-- What stands for a character inside a literal: its short form, the four digits of its code
point if it is a control character, or the character itself. -/
def spelling (c : Char) : List Char :=
  match shortForms.lookup c with
  | some letter => ['\\', letter]
  | none => if c.toNat < 0x20 then '\\' :: 'u' :: (Nat.toDigits 16 c.toNat).leftpad 4 '0' else [c]

private theorem leftpad_toDigits : ∀ n < 0x20,
    (Nat.toDigits 16 n).leftpad 4 '0' = ['0', '0', Nat.digitChar (n / 16), Nat.digitChar (n % 16)] := by
  decide

theorem escapeChar_eq_spelling (c : Char) : escapeChar c = spelling c := by
  unfold escapeChar spelling
  by_cases short : c ∈ shortForms.map Prod.fst
  · simp only [shortForms, List.map_cons, List.map_nil, List.mem_cons, List.not_mem_nil, or_false] at short
    rcases short with rfl | rfl | rfl | rfl | rfl | rfl | rfl <;> rfl
  · have missing : shortForms.lookup c = none := by
      rw [List.lookup_eq_none_iff]
      intro pair member
      exact bne_iff_ne.mpr fun same => short (List.mem_map.mpr ⟨pair, member, same.symm⟩)
    simp only [shortForms, List.map_cons, List.map_nil, List.mem_cons, List.not_mem_nil, or_false, not_or] at short
    simp only [missing, short, if_false]
    split
    next control => rw [leftpad_toDigits _ control]
    next => rfl

end Text.Quoted

namespace Nim

def Piece.isText : Piece → Bool
  | text _ => true
  | expr _ => false

/-- An operand as it is written in an append statement. -/
def Piece.written : Piece → String
  | text s => "\"" ++ String.ofList (s.toList.flatMap Text.Quoted.spelling) ++ "\""
  | expr source => "$(" ++ source ++ ")"

theorem Piece.render_eq_written (piece : Piece) : piece.render = piece.written := by
  cases piece with
  | expr source => rfl
  | text s =>
    rw [render, written, Text.Quoted.literal, Text.Quoted.escape, funext Text.Quoted.escapeChar_eq_spelling]

/-- Puts an operand before others; text joins the text behind it. -/
def consPiece : Piece → List Piece → List Piece
  | .text s, .text more :: rest => .text (s ++ more) :: rest
  | piece, rest => piece :: rest

def joinTexts (pieces : List Piece) : List Piece := pieces.foldr consPiece []

/-- The operands that are left when empty texts are dropped and neighbouring texts joined. -/
def condensed (pieces : List Piece) : List Piece := joinTexts (pieces.filter (· ≠ .text ""))

private theorem addPiece_consPiece (first last : Piece) (pieces : List Piece) :
    addPiece (consPiece first pieces) last = consPiece first (addPiece pieces last) := by
  cases pieces with
  | nil => cases first <;> cases last <;> simp [consPiece, addPiece]
  | cons next rest =>
    cases first with
    | expr source => cases last <;> simp [consPiece, addPiece]
    | text s =>
      cases next with
      | expr source => cases last <;> simp [consPiece, addPiece]
      | text more =>
        -- The three texts meet only where nothing stands between the second and the last.
        cases rest <;> cases last <;> simp [consPiece, addPiece, String.append_assoc]

/-- Adding at the end is what joining makes of one more operand. -/
theorem addPiece_joinTexts (pieces : List Piece) (piece : Piece) :
    addPiece (joinTexts pieces) piece = joinTexts (pieces ++ [piece]) := by
  induction pieces with
  | nil => simp [joinTexts, addPiece, consPiece]
  | cons first rest ih =>
    simp only [joinTexts, List.foldr_cons, List.cons_append] at ih ⊢
    rw [addPiece_consPiece, ih]

/-- Two neighbours that are both text. -/
def Touching (first second : Piece) : Prop := first.isText ∧ second.isText

private theorem consPiece_separate (piece : Piece) {pieces : List Piece}
    (separate : pieces.IsChain (¬ Touching · ·)) : (consPiece piece pieces).IsChain (¬ Touching · ·) := by
  cases pieces with
  | nil => cases piece <;> simp [consPiece]
  | cons next rest =>
    cases piece with
    | expr source => exact List.isChain_cons_cons.mpr ⟨by simp [Touching, Piece.isText], separate⟩
    | text s =>
      cases next with
      | expr source => exact List.isChain_cons_cons.mpr ⟨by simp [Touching, Piece.isText], separate⟩
      | text more =>
        cases rest with
        | nil => simp [consPiece]
        | cons last others => simpa [consPiece, Touching, Piece.isText] using separate

theorem joinTexts_separate (pieces : List Piece) : (joinTexts pieces).IsChain (¬ Touching · ·) := by
  induction pieces with
  | nil => simp [joinTexts]
  | cons piece rest ih => exact consPiece_separate piece ih

private theorem consPiece_notMem_empty {piece : Piece} {pieces : List Piece} (full : piece ≠ .text "")
    (absent : Piece.text "" ∉ pieces) : Piece.text "" ∉ consPiece piece pieces := by
  unfold consPiece
  split
  next s more rest =>
    simp only [List.mem_cons, not_or, ne_eq, Piece.text.injEq] at full absent ⊢
    refine ⟨fun empty => full ?_, absent.2⟩
    exact (String.append_eq_empty_iff.mp empty.symm).1
  next => simpa [eq_comm, full] using absent

theorem joinTexts_notMem_empty {pieces : List Piece} (absent : Piece.text "" ∉ pieces) :
    Piece.text "" ∉ joinTexts pieces := by
  induction pieces with
  | nil => simp [joinTexts]
  | cons piece rest ih =>
    simp only [List.mem_cons, not_or] at absent
    exact consPiece_notMem_empty (Ne.symm absent.1) (ih absent.2)

theorem condensed_separate (pieces : List Piece) : (condensed pieces).IsChain (¬ Touching · ·) :=
  joinTexts_separate _

theorem condensed_notMem_empty (pieces : List Piece) : Piece.text "" ∉ condensed pieces :=
  joinTexts_notMem_empty (by simp)

/-- Adds an operand to the code. Empty text adds nothing. -/
def Draft.put (draft : Draft) : Piece → Draft
  | .text content => draft.appendText content
  | .expr source => draft.appendExpr source

/-- The code that consists of one statement with the given operands, if there are any. -/
def oneStatement (pieces : List Piece) : Draft :=
  ⟨#[], if pieces.isEmpty then none else some ⟨1, pieces, false⟩, 1⟩

theorem condensed_append (pieces : List Piece) (piece : Piece) :
    condensed (pieces ++ [piece]) =
      if piece = .text "" then condensed pieces else addPiece (condensed pieces) piece := by
  by_cases empty : piece = .text ""
  · simp [condensed, empty]
  · simp [condensed, empty, addPiece_joinTexts]

private theorem oneStatement_append (pieces : List Piece) (piece : Piece) :
    (oneStatement pieces).append piece = oneStatement (addPiece pieces piece) := by
  cases pieces with
  | nil => simp [oneStatement, Draft.append, addPiece]
  | cons first rest =>
    have filled : (addPiece (first :: rest) piece).isEmpty = false := by
      unfold addPiece
      split <;> simp_all
    simp [oneStatement, Draft.append, filled]

private theorem oneStatement_put (pieces : List Piece) (piece : Piece) :
    (oneStatement pieces).put piece =
      oneStatement (if piece = .text "" then pieces else addPiece pieces piece) := by
  cases piece with
  | expr source => exact oneStatement_append pieces (.expr source)
  | text content =>
    by_cases empty : content = ""
    · simp [Draft.put, Draft.appendText, empty]
    · simpa [Draft.put, Draft.appendText, empty] using oneStatement_append pieces (.text content)

theorem foldl_put (pieces : List Piece) : pieces.foldl Draft.put .empty = oneStatement (condensed pieces) := by
  induction pieces using List.reverseRecOn with
  | nil => rfl
  | append_singleton pieces piece ih =>
    rw [List.foldl_append, List.foldl_cons, List.foldl_nil, ih, oneStatement_put, condensed_append]

theorem lines_oneStatement (pieces : List Piece) :
    (oneStatement pieces).lines =
      if pieces.isEmpty then []
      else ["  jade_buf.add(" ++ " & ".intercalate (pieces.map Piece.written) ++ ")"] := by
  rw [← funext Piece.render_eq_written]
  cases pieces with
  | nil => rfl
  | cons first rest => rfl

end Nim

end NimTemplate
