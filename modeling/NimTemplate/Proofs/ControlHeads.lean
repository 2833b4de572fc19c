import Mathlib.Data.List.TakeWhile
import NimTemplate.Nim.Statement
import NimTemplate.Proofs.Requoting

/-! Heads of control flow. Each rule for a head looks at the words that the text starts with, and what
it makes of a text starts with no word of a later rule. So at most one of them changes a text, and
a condition in parentheses is taken as a whole, whatever stands in it. -/

namespace NimTemplate.Nim

/-- The rules for heads, in the order in which they are tried. -/
def headRules : List (List Char → Option (List Char)) := [whileHead?, ifHead?, elifHead?, elseHead?]

/-- All rules one after the other, each on what the one before it left. -/
def rewriteInTurn (text : List Char) : List Char := headRules.foldl (fun text rule => (rule text).getD text) text

/-- One text is another with a word for its first exclamation mark, if it has one. -/
inductive NegatesFirst : String → String → Prop where
  | absent {text : String} (absent : '!' ∉ text.toList) : NegatesFirst text text
  | first {before : String} (rest : String) (absent : '!' ∉ before.toList) :
      NegatesFirst (before ++ "!" ++ rest) (before ++ "not " ++ rest)

/-! What a rule makes of a text starts with another word than any later rule looks for. -/

private theorem head_starts (word : String) (condition rest : List Char) :
    ∃ left, head word condition rest = word.toList ++ left :=
  ⟨_, by simp only [head, List.append_assoc]; rfl⟩

private theorem while_starts {text made : List Char} (rewritten : whileHead? text = some made) :
    ∃ left, made = "while".toList ++ left := by
  obtain ⟨rest, _, rfl⟩ := Option.map_eq_some_iff.mp rewritten
  exact head_starts ..

private theorem if_starts {text made : List Char} (rewritten : ifHead? text = some made) :
    ∃ left, made = "if".toList ++ left := by
  obtain ⟨_, _, rewritten⟩ := Option.bind_eq_some_iff.mp rewritten
  obtain ⟨_, _, rewritten⟩ := Option.bind_eq_some_iff.mp rewritten
  obtain ⟨_, _, same⟩ := Option.bind_eq_some_iff.mp rewritten
  cases same
  exact head_starts ..

private theorem elif_starts {text made : List Char} (rewritten : elifHead? text = some made) :
    ∃ left, made = "elif".toList ++ left := by
  obtain ⟨_, _, rewritten⟩ := Option.bind_eq_some_iff.mp rewritten
  obtain ⟨_, _, rewritten⟩ := Option.bind_eq_some_iff.mp rewritten
  obtain ⟨_, _, rewritten⟩ := Option.bind_eq_some_iff.mp rewritten
  obtain ⟨_, _, same⟩ := Option.bind_eq_some_iff.mp rewritten
  cases same
  exact head_starts ..

/-- The rules do not interfere: tried in turn they do what the first that applies does alone. -/
theorem rewriteInTurn_eq (text : List Char) : rewriteInTurn text = controlHead text := by
  simp only [rewriteInTurn, headRules, List.foldl_cons, List.foldl_nil, controlHead]
  cases first : whileHead? text with
  | some made =>
    obtain ⟨left, rfl⟩ := while_starts first
    rfl
  | none =>
    simp only [Option.getD_none]
    cases second : ifHead? text with
    | some made =>
      obtain ⟨left, rfl⟩ := if_starts second
      rfl
    | none =>
      simp only [Option.getD_none]
      cases third : elifHead? text with
      | some made =>
        obtain ⟨left, rfl⟩ := elif_starts third
        rfl
      | none => rfl

/-! A condition in parentheses. -/

theorem splitLast?_append {mark : Char} (before : List Char) {rest : List Char} (absent : mark ∉ rest) :
    splitLast? mark some (before ++ mark :: rest) = some (before, rest) := by
  have none : ∀ rest : List Char, mark ∉ rest → splitLast? mark some rest = none := by
    intro rest absent
    induction rest with
    | nil => rfl
    | cons c rest ih =>
      rw [List.mem_cons, not_or] at absent
      rw [splitLast?, ih absent.2]
      exact if_neg (Ne.symm absent.1)
  induction before with
  | nil => simp [splitLast?, none rest absent]
  | cons c before ih => simp [splitLast?, ih]

theorem firstLine_of_line {text : List Char} (line : '\n' ∉ text) : firstLine text = (text, []) := by
  have every : ∀ c ∈ text, decide (c ≠ '\n') = true := by
    intro c member
    exact decide_eq_true (ne_of_mem_of_not_mem member line)
  rw [firstLine, List.takeWhile_eq_self_iff.mpr every, List.dropWhile_eq_nil_iff.mpr every]

/-- A condition ends at the last parenthesis, whatever others it holds. -/
theorem condition?_parenthesized {condition : List Char} (line : '\n' ∉ condition) :
    condition? ('(' :: (condition ++ [')'])) = some (condition, []) := by
  have whole : '\n' ∉ condition ++ [')'] := by simpa using line
  rw [condition?, firstLine_of_line whole, splitLast?_append condition List.not_mem_nil]
  rfl

theorem controlHead_while {text : List Char} (line : '\n' ∉ text) :
    controlHead ("while ".toList ++ text) = "while truthiness(".toList ++ (text ++ "):".toList) := by
  have found : whileHead? ("while ".toList ++ text) = some (head "while" text []) := by
    rw [whileHead?, behind?, if_pos (by simp), List.drop_left, Option.map_some, firstLine_of_line line]
  rw [controlHead, found]
  simp [head]

theorem controlHead_if {condition : List Char} (line : '\n' ∉ condition) :
    controlHead ("if (".toList ++ (condition ++ [')'])) =
      "if truthiness(".toList ++ (condition ++ "):".toList) := by
  have passed : whileHead? ("if (".toList ++ (condition ++ [')'])) = none := rfl
  have found : ifHead? ("if (".toList ++ (condition ++ [')'])) = some (head "if" condition []) := by
    change (condition? ('(' :: (condition ++ [')'])) >>= fun found => pure (head "if" found.1 found.2)) = _
    rw [condition?_parenthesized line]
    rfl
  rw [controlHead, passed, found]
  simp [head]

theorem controlHead_elif {condition : List Char} (line : '\n' ∉ condition) :
    controlHead ("else if (".toList ++ (condition ++ [')'])) =
      "elif truthiness(".toList ++ (condition ++ "):".toList) := by
  have passed : whileHead? ("else if (".toList ++ (condition ++ [')'])) = none := rfl
  have passedToo : ifHead? ("else if (".toList ++ (condition ++ [')'])) = none := rfl
  have found : elifHead? ("else if (".toList ++ (condition ++ [')'])) = some (head "elif" condition []) := by
    change (condition? ('(' :: (condition ++ [')'])) >>= fun found => pure (head "elif" found.1 found.2)) = _
    rw [condition?_parenthesized line]
    rfl
  rw [controlHead, passed, passedToo, found]
  simp [head]

/-! What is done before and behind the rules. -/

theorem requote_of_plain {text : List Char} (plain : ∀ c ∈ text, ¬ (c = '"' ∨ c = '\'')) : requote text = text := by
  have whole := requote_append plain []
  rwa [requote_nil, List.append_nil] at whole

theorem dropTerminator_append (text : List Char) {spaces : List Char} (blank : ∀ c ∈ spaces, c = ' ') :
    dropTerminator (text ++ ';' :: spaces) = text := by
  have every : ∀ c ∈ spaces.reverse, isSpace c = true := by
    intro c member
    exact beq_iff_eq.mpr (blank c (List.mem_reverse.mp member))
  have dropped : (text ++ ';' :: spaces).reverse.dropWhile isSpace = ';' :: text.reverse := by
    rw [List.reverse_append, List.reverse_cons, List.append_assoc, List.dropWhile_append_of_pos every]
    rfl
  rw [dropTerminator, dropped]
  exact List.reverse_reverse text

theorem dropTerminator_parenthesis (text : List Char) : dropTerminator (text ++ [')']) = text ++ [')'] := by
  have kept : (text ++ [')']).reverse.dropWhile isSpace = ')' :: text.reverse := by
    rw [List.reverse_append]
    rfl
  rw [dropTerminator, kept]
  rfl

theorem negateFirst_append {text : List Char} (absent : '!' ∉ text) (rest : List Char) :
    negateFirst (text ++ rest) = text ++ negateFirst rest := by
  induction text with
  | nil => rfl
  | cons c text ih =>
    rw [List.mem_cons, not_or] at absent
    rw [List.cons_append, negateFirst, if_neg (Ne.symm absent.1), ih absent.2]
    rfl

/-- The first exclamation mark of a text is also that of the text with more behind it that has none. -/
theorem exists_negatesFirst (text : String) :
    ∃ negated, NegatesFirst text negated ∧
      ∀ rest : List Char, '!' ∉ rest → negateFirst (text.toList ++ rest) = negated.toList ++ rest := by
  by_cases present : '!' ∈ text.toList
  · obtain ⟨before, behind, whole, first⟩ := List.eq_append_cons_of_mem present
    obtain rfl : text = String.ofList before ++ "!" ++ String.ofList behind := by
      rw [← String.toList_inj, whole]
      simp
    refine ⟨_, .first (String.ofList behind) (by simpa using first), fun rest _ => ?_⟩
    rw [whole, List.append_assoc, negateFirst_append first, List.cons_append, negateFirst, if_pos rfl]
    simp
  · refine ⟨text, .absent present, fun rest absent => ?_⟩
    have unchanged := negateFirst_append absent []
    rw [List.append_nil] at unchanged
    rw [negateFirst_append present, unchanged]
    simp [negateFirst]

/-- What may stand behind a head: nothing, or a semicolon and spaces. -/
def IsTerminator (tail : String) : Prop :=
  tail = "" ∨ ∃ spaces : String, (∀ c ∈ spaces.toList, c = ' ') ∧ tail = ";" ++ spaces

theorem IsTerminator.plain {tail : String} (ends : IsTerminator tail) : ∀ c ∈ tail.toList, ¬ (c = '"' ∨ c = '\'') := by
  rcases ends with rfl | ⟨spaces, only, rfl⟩
  · simp
  · rw [String.toList_append, List.forall_mem_append]
    refine ⟨by simp, ?_⟩
    intro c member
    rw [only c member]
    decide

theorem IsTerminator.dropped {tail : String} (ends : IsTerminator tail) (text : List Char) :
    dropTerminator (text ++ ')' :: tail.toList) = text ++ [')'] := by
  rcases ends with rfl | ⟨spaces, only, rfl⟩
  · exact dropTerminator_parenthesis text
  · simpa using dropTerminator_append (text ++ [')']) only

theorem statement_head {blanks opening condition tail : String} (blank : ∀ c ∈ blanks.toList, Text.isBlank c)
    (starts : opening.toList.head?.any (!Text.isBlank ·)) (word : ∀ c ∈ opening.toList, ¬ (c = '"' ∨ c = '\''))
    (plain : ∀ c ∈ condition.toList, ¬ (c = '"' ∨ c = '\'')) (ends : IsTerminator tail) :
    statement (blanks ++ opening ++ condition ++ ")" ++ tail) =
      String.ofList (negateFirst (controlHead (opening.toList ++ (condition.toList ++ [')'])))) := by
  let text := opening.toList ++ condition.toList
  have trimmed : Text.trimStart (blanks ++ opening ++ condition ++ ")" ++ tail).toList =
      text ++ ')' :: tail.toList := by
    rw [Text.trimStart]
    simp only [String.toList_append, List.append_assoc]
    rw [List.dropWhile_append_of_pos blank]
    cases seen : opening.toList with
    | nil => simp [seen] at starts
    | cons first others =>
      have visible : Text.isBlank first = false := by simpa [seen] using starts
      simp [visible, text, seen]
  have unquoted : requote (text ++ ')' :: tail.toList) = text ++ ')' :: tail.toList := by
    apply requote_of_plain
    simp only [text, List.forall_mem_append, List.forall_mem_cons]
    exact ⟨⟨word, plain⟩, by decide, ends.plain⟩
  rw [statement, trimmed, unquoted, ends.dropped, List.append_assoc]

/-- The rules for heads do not interfere, and a head with a condition in parentheses becomes the Nim head
with this condition, in which only the first exclamation mark is replaced. -/
theorem control_heads_are_translated :
    (∀ text, rewriteInTurn text = controlHead text) ∧
      ∀ blanks condition tail : String, (∀ c ∈ blanks.toList, Text.isBlank c) →
        (∀ c ∈ condition.toList, c ≠ '"' ∧ c ≠ '\'' ∧ c ≠ '\n') → IsTerminator tail →
        ∃ negated, NegatesFirst condition negated ∧
          statement (blanks ++ "if (" ++ condition ++ ")" ++ tail) = "if truthiness(" ++ negated ++ "):" ∧
          statement (blanks ++ "else if (" ++ condition ++ ")" ++ tail) = "elif truthiness(" ++ negated ++ "):" ∧
          statement (blanks ++ "while (" ++ condition ++ ")" ++ tail) = "while truthiness((" ++ negated ++ ")):" := by
  refine ⟨rewriteInTurn_eq, ?_⟩
  intro blanks condition tail blank plain ends
  have unquoted : ∀ c ∈ condition.toList, ¬ (c = '"' ∨ c = '\'') := by
    intro c member
    rw [not_or]
    exact ⟨(plain c member).1, (plain c member).2.1⟩
  have line : '\n' ∉ condition.toList := fun member => (plain _ member).2.2 rfl
  obtain ⟨negated, negates, whole⟩ := exists_negatesFirst condition
  -- The words of a head hold no exclamation mark, so the first one is that of the condition.
  have finish : ∀ {opening made close : String}, opening.toList.head?.any (!Text.isBlank ·) →
      (∀ c ∈ opening.toList, ¬ (c = '"' ∨ c = '\'')) → '!' ∉ made.toList → '!' ∉ close.toList →
      controlHead (opening.toList ++ (condition.toList ++ [')'])) = made.toList ++ (condition.toList ++ close.toList) →
      statement (blanks ++ opening ++ condition ++ ")" ++ tail) = made ++ negated ++ close := by
    intro opening made close starts word before behind rewritten
    rw [statement_head blank starts word unquoted ends, rewritten, negateFirst_append before, whole _ behind]
    simp [String.append_assoc]
  refine ⟨negated, negates, ?_, ?_, ?_⟩
  · exact finish (by decide) (by simp) (by simp) (by simp) (controlHead_if line)
  · exact finish (by decide) (by simp) (by simp) (by simp) (controlHead_elif line)
  · refine finish (by decide) (by simp) (by simp) (by simp) ?_
    have bracketed : '\n' ∉ '(' :: (condition.toList ++ [')']) := by simpa using line
    simpa using controlHead_while bracketed

/-- Parentheses, semicolons and words of other heads may stand in a condition. -/
theorem crowded_condition_is_translated :
    (∀ c ∈ "\t ".toList, Text.isBlank c) ∧
      (∀ c ∈ "if) !a; (!b else".toList, c ≠ '"' ∧ c ≠ '\'' ∧ c ≠ '\n') ∧ IsTerminator ";  " ∧
      ∃ negated, NegatesFirst "if) !a; (!b else" negated ∧
        statement ("\t " ++ "else if (" ++ "if) !a; (!b else" ++ ")" ++ ";  ") =
          "elif truthiness(" ++ negated ++ "):" := by
  have blank : ∀ c ∈ "\t ".toList, Text.isBlank c :=
    List.forall_mem_cons.mpr ⟨by decide, List.forall_mem_cons.mpr ⟨by decide, by simp⟩⟩
  have plain : ∀ c ∈ "if) !a; (!b else".toList, c ≠ '"' ∧ c ≠ '\'' ∧ c ≠ '\n' := by simp
  have ends : IsTerminator ";  " := .inr ⟨"  ", by simp, rfl⟩
  obtain ⟨negated, negates, _, translated, _⟩ := control_heads_are_translated.2 _ _ _ blank plain ends
  exact ⟨blank, plain, ends, negated, negates, translated⟩

end NimTemplate.Nim
