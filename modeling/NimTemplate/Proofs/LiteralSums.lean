import NimTemplate.Proofs.Constancy
import NimTemplate.Proofs.Literals
import NimTemplate.Proofs.Nesting

/-! Sums of string literals are constant up to the limit on nesting. Each literal and each pair of
parentheses takes one from the nesting, so what counts is the number of both together. -/

namespace NimTemplate.Expr

/-- The nesting from which on the tokens are read as the expression, whatever ends them. Below it
the nesting is too deep. -/
def NeedsNesting (bound : Nat) (tokens : List Token) (expr : Expr) : Prop :=
  ∀ nesting rest, Stops 7 rest → readExpr nesting (tokens ++ rest) =
    if bound ≤ nesting then .ok (expr, rest) else .error (.unsupported .nesting)

/-! Parentheses. -/

def groupTokens : (pairs : Nat) → List Token → List Token
  | 0, tokens => tokens
  | pairs + 1, tokens => .punct .openParen :: groupTokens pairs tokens ++ [.punct .closeParen]

theorem NeedsNesting.group {bound : Nat} {tokens : List Token} {expr : Expr} (needs : NeedsNesting bound tokens expr) :
    NeedsNesting (bound + 1) (.punct .openParen :: tokens ++ [.punct .closeParen]) expr := by
  intro nesting rest stops
  have ends : Stops 7 (.punct .closeParen :: rest) := stops_cons_iff.mpr (by decide)
  simp only [List.append_assoc, List.cons_append, List.nil_append]
  cases nesting with
  | zero =>
    rw [readExpr, if_neg (by omega)]
  | succ nesting =>
    have inner := needs nesting _ ends
    by_cases enough : bound ≤ nesting
    · have operand : readOperand nesting (.punct .openParen :: (tokens ++ .punct .closeParen :: rest)) =
          .ok (expr, rest) := by
        rw [readOperand_group, inner, if_pos enough]
        rfl
      rw [if_pos (by omega)]
      exact readExpr_of_operand rfl operand stops
    · rw [if_neg (by omega)]
      apply readExpr_of_operand_error rfl
      rw [readOperand_group, inner, if_neg enough]
      rfl

theorem NeedsNesting.groups {bound : Nat} {tokens : List Token} {expr : Expr} (needs : NeedsNesting bound tokens expr)
    (pairs : Nat) : NeedsNesting (bound + pairs) (groupTokens pairs tokens) expr := by
  induction pairs with
  | zero => exact needs
  | succ pairs ih => exact ih.group

theorem NeedsNesting.ofTokens_eq {bound : Nat} {tokens : List Token} {expr : Expr}
    (needs : NeedsNesting bound tokens expr) : ofTokens tokens =
      if bound ≤ maxNesting then .ok expr else .error (.unsupported .nesting) := by
  have read := needs maxNesting [] (Stops.nil 7)
  rw [List.append_nil] at read
  rw [ofTokens, read]
  by_cases enough : bound ≤ maxNesting
  · simp only [if_pos enough]
    rfl
  · simp only [if_neg enough]
    rfl

/-! Sums. -/

def plusText (left : Expr) (s : String) : Expr := .binary .add left (.text s)

/-- What stands behind the first literal of a sum. -/
def addends (texts : List String) : List Token := texts.flatMap fun s => [.punct .plus, .text s]

theorem stops_addends (texts : List String) {rest : List Token} (stops : Stops 1 rest) : Stops 1 (addends texts ++ rest) := by
  cases texts with
  | nil => exact stops
  | cons s texts => exact stops_cons_iff.mpr (by decide)

theorem readChain_text (nesting : Nat) (s : String) {rest : List Token} {l : Nat} (stops : Stops l rest) :
    readChain nesting l (.text s :: rest) = .ok (.text s, rest) :=
  readChain_of_applied rfl (readApplied_of_operand (readOperand_text s) (stops.mono l.zero_le)) stops

/-- Each addend takes one from the nesting and none gives it back. -/
theorem readConnected_addends (texts : List String) (left : Expr) (nesting : Nat) {rest : List Token}
    (stops : Stops 2 rest) : readConnected nesting 1 left (addends texts ++ rest) =
      if texts.length ≤ nesting then .ok (texts.foldl plusText left, rest) else .error (.unsupported .nesting) := by
  induction texts generalizing left nesting with
  | nil =>
    rw [List.length_nil, if_pos nesting.zero_le]
    exact readConnected_of_stops stops nesting left
  | cons s texts ih =>
    have found : Connective.ofPunct? 2 .plus = some (.binary .add) := rfl
    cases nesting with
    | zero =>
      rw [List.length_cons, if_neg (by omega)]
      exact readConnected_zero found
    | succ nesting =>
      have right := readChain_text nesting s (stops_addends texts (stops.mono (by omega)))
      have further := ih (plusText left s) nesting
      change readConnected (nesting + 1) 1 left (.punct .plus :: .text s :: (addends texts ++ rest)) = _
      rw [readConnected_cons found, right]
      apply further.trans
      simp

theorem needsNesting_sum (s : String) (texts : List String) :
    NeedsNesting (texts.length + 1) (.text s :: addends texts) (texts.foldl plusText (.text s)) := by
  intro nesting rest stops
  have sum : ∀ nesting, readChain nesting 2 (.text s :: (addends texts ++ rest)) =
      if texts.length ≤ nesting then .ok (texts.foldl plusText (.text s), rest) else .error (.unsupported .nesting) := by
    intro nesting
    rw [readChain, readChain_text nesting s (stops_addends texts (stops.mono (by omega)))]
    exact readConnected_addends texts (.text s) nesting (stops.mono (by omega))
  cases nesting with
  | zero =>
    rw [readExpr, if_neg (by omega)]
  | succ nesting =>
    have chain := sum nesting
    rw [List.cons_append, readExpr]
    by_cases enough : texts.length ≤ nesting
    · rw [if_pos enough] at chain
      rw [if_pos (by omega)]
      exact readConditional_of_stops stops (readChain_looser chain 4 (stops.mono (by omega)))
    · rw [if_neg enough] at chain
      rw [if_neg (by omega)]
      exact readConditional_error (readChain_error chain 4)

theorem eval_sum (environment : Environment) (texts : List String) {left : Expr} {s : String}
    (first : left.eval environment = .ok (.text s)) :
    (texts.foldl plusText left).eval environment = .ok (.text (s ++ String.join texts)) := by
  induction texts generalizing left s with
  | nil => simpa using first
  | cons next texts ih =>
    have joined : (plusText left next).eval environment = .ok (.text (s ++ next)) := by
      rw [plusText, eval, first]
      rfl
    simpa [String.append_assoc] using ih joined

theorem freeNames_sum (texts : List String) {left : Expr} (closed : left.freeNames = []) :
    (texts.foldl plusText left).freeNames = [] := by
  induction texts generalizing left with
  | nil => exact closed
  | cons next texts ih =>
    apply ih
    simp [plusText, freeNames, closed]

end NimTemplate.Expr

namespace NimTemplate

open Token (Lexes Marks)

/-- String literals with a plus sign between each two. -/
def sumText (texts : List String) : String := " + ".intercalate (texts.map Text.Quoted.literal)

def groupText : (pairs : Nat) → String → String
  | 0, text => text
  | pairs + 1, text => "(" ++ groupText pairs text ++ ")"

theorem lexes_sumText (s : String) (texts : List String) :
    Lexes (sumText (s :: texts)).toList (.text s :: Expr.addends texts) := by
  induction texts generalizing s with
  | nil => simpa [sumText, Expr.addends] using Token.lexes_literal s
  | cons next texts ih =>
    have behind := ((ih next).blank (c := ' ') rfl).cons .plus |>.blank (c := ' ') rfl
    have whole := (Token.lexes_literal s).append (fun _ _ => Token.separate_blank _) behind
    simpa [sumText, Expr.addends] using whole

theorem lexes_groupText {text : String} {tokens : List Token} (lexes : Lexes text.toList tokens) (pairs : Nat) :
    Lexes (groupText pairs text).toList (Expr.groupTokens pairs tokens) := by
  induction pairs with
  | zero => exact lexes
  | succ pairs ih =>
    have closed := ih.append (fun _ _ => Marks.closeParen.separate _) (Lexes.nil.cons .closeParen)
    simpa [groupText, Expr.groupTokens] using closed.cons .openParen

/-- The tree of a sum, or that it nests too deep. -/
theorem parse_groupText_sumText (s : String) (texts : List String) (pairs : Nat) :
    Expr.parse (groupText pairs (sumText (s :: texts))) =
      if (s :: texts).length + pairs ≤ 256 then .ok (texts.foldl Expr.plusText (.text s))
      else .error (.unsupported .nesting) := by
  have lexes := lexes_groupText (lexes_sumText s texts) pairs
  have needs := (Expr.needsNesting_sum s texts).groups pairs
  rw [Expr.parse, lexes.all_eq]
  exact needs.ofTokens_eq

/-- Literals that are added up, within any parentheses, are a constant text as long as their number
and that of the parentheses come to at most 256. Beyond that the sum is not read. -/
theorem literal_sums_fold {texts : List String} (filled : texts ≠ []) (pairs : Nat) :
    (texts.length + pairs ≤ 256 →
      constant? (groupText pairs (sumText texts)) = some (.text (String.join texts))) ∧
    (256 < texts.length + pairs →
      Expr.parse (groupText pairs (sumText texts)) = .error (.unsupported .nesting) ∧
      constant? (groupText pairs (sumText texts)) = none) := by
  obtain ⟨s, texts, rfl⟩ := List.exists_cons_of_ne_nil filled
  have parsed := parse_groupText_sumText s texts pairs
  constructor
  · intro enough
    rw [if_pos enough] at parsed
    have closed : (texts.foldl Expr.plusText (.text s)).freeNames = [] := Expr.freeNames_sum texts rfl
    rw [constant?, Environment.evaluate_of_known parsed (by simp [closed]), Expr.eval_sum _ texts rfl, String.join_cons]
    rfl
  · intro deep
    rw [if_neg (by omega)] at parsed
    refine ⟨parsed, ?_⟩
    rw [constant?, Environment.evaluate, parsed]
    rfl

/-- Two literals take 254 pairs of parentheses and no more. -/
theorem quoted_pair_folds : ["a\"", "b\n"] ≠ [] ∧
    constant? (groupText 254 (sumText ["a\"", "b\n"])) = some (.text "a\"b\n") ∧
    constant? (groupText 255 (sumText ["a\"", "b\n"])) = none := by
  have filled : ["a\"", "b\n"] ≠ [] := List.cons_ne_nil _ _
  exact ⟨filled, (literal_sums_fold filled 254).1 (by decide), ((literal_sums_fold filled 255).2 (by decide)).2⟩

end NimTemplate
