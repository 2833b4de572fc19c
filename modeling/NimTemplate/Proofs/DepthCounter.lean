import Mathlib.Data.List.Basic
import NimTemplate.Proofs.Counting
import NimTemplate.Proofs.Parsing

/-! Counted reading ends, and finds what the readers find that are told how deep they may nest. The
count comes back to where it was and the position goes on; so it does from every place among the
tokens that is not too deep, and the items of a list can be as many as they like. -/

namespace NimTemplate.Expr

/-! Where a cursor may start, and where it comes to. -/

/-- A cursor from which so much nesting is left. -/
structure Fits (tokens : List Token) (nesting : Nat) (cursor : Cursor) : Prop where
  inside : cursor.position ≤ tokens.length
  left : cursor.depth + nesting = maxNesting
  shallow : cursor.deepest ≤ maxNesting

/-- A cursor that has not gone back, has stayed among the tokens and was never too deep. -/
structure Passes (tokens : List Token) (before after : Cursor) : Prop where
  onward : before.position ≤ after.position
  inside : after.position ≤ tokens.length
  deepens : before.deepest ≤ after.deepest
  shallow : after.deepest ≤ maxNesting

/-- A cursor that has gone on, and is as deep as it was. -/
structure Moves (tokens : List Token) (before after : Cursor) : Prop extends Passes tokens before after where
  progress : before.position < after.position
  restored : after.depth = before.depth

section

variable {tokens : List Token} {nesting : Nat} {cursor before between after : Cursor}

theorem Passes.refl (fits : Fits tokens nesting cursor) : Passes tokens cursor cursor :=
  ⟨Nat.le_refl _, fits.inside, Nat.le_refl _, fits.shallow⟩

theorem Passes.trans (first : Passes tokens before between) (second : Passes tokens between after) :
    Passes tokens before after where
  onward := Nat.le_trans first.onward second.onward
  inside := second.inside
  deepens := Nat.le_trans first.deepens second.deepens
  shallow := second.shallow

theorem Moves.trans (first : Moves tokens before between) (second : Moves tokens between after) :
    Moves tokens before after where
  toPasses := first.toPasses.trans second.toPasses
  progress := Nat.lt_trans first.progress second.progress
  restored := second.restored.trans first.restored

/-- A loop that is left at the depth it was entered with. -/
theorem Moves.loop (first : Moves tokens before between) (rest : Passes tokens between after) :
    Moves tokens before (after.atDepth between.depth) where
  toPasses := first.toPasses.trans ⟨rest.onward, rest.inside, rest.deepens, rest.shallow⟩
  progress := Nat.lt_of_lt_of_le first.progress rest.onward
  restored := first.restored

theorem Fits.moves {token : Token} (fits : Fits tokens nesting cursor) (found : tokens[cursor.position]? = some token) :
    Moves tokens cursor cursor.forward where
  onward := Nat.le_succ _
  inside := (List.getElem?_eq_some_iff.mp found).1
  deepens := Nat.le_refl _
  shallow := fits.shallow
  progress := Nat.lt_succ_self _
  restored := rfl

theorem Fits.behind (fits : Fits tokens nesting before) (moves : Moves tokens before after) :
    Fits tokens nesting after where
  inside := moves.inside
  left := by rw [moves.restored, fits.left]
  shallow := moves.shallow

theorem Fits.deeper (fits : Fits tokens (nesting + 1) cursor) : Fits tokens nesting cursor.deeper := by
  have left := fits.left
  refine ⟨fits.inside, ?_, Nat.max_le.mpr ⟨fits.shallow, ?_⟩⟩
  · simp only [Cursor.deeper]
    omega
  · omega

theorem Fits.passes_deeper (fits : Fits tokens (nesting + 1) cursor) : Passes tokens cursor cursor.deeper :=
  ⟨Nat.le_refl _, fits.inside, Nat.le_max_left _ _, fits.deeper.shallow⟩

/-- What is nested ends one level up. -/
theorem Moves.nested (fits : Fits tokens (nesting + 1) before) (inside : Moves tokens before.deeper after) :
    Moves tokens before (after.atDepth (after.depth - 1)) where
  toPasses := fits.passes_deeper.trans ⟨inside.onward, inside.inside, inside.deepens, inside.shallow⟩
  progress := inside.progress
  restored := by
    rw [Cursor.atDepth, inside.restored]
    rfl

end

/-! How counted reading ends, given what the reader returns that is told the nesting. -/

/-- From some number of calls on, there is the given outcome. -/
def Settles {β : Type} (counted : Nat → Option β) (outcome : β) : Prop :=
  ∃ enough, ∀ calls, enough ≤ calls → counted calls = some outcome

namespace Settles

theorem now {β : Type} (outcome : β) : Settles (fun _ => some outcome) outcome := ⟨0, fun _ _ => rfl⟩

theorem unique {β : Type} {counted : Nat → Option β} {one other : β} (first : Settles counted one)
    (second : Settles counted other) : one = other := by
  obtain ⟨a, first⟩ := first
  obtain ⟨b, second⟩ := second
  have same := (first (max a b) (Nat.le_max_left a b)).symm.trans (second (max a b) (Nat.le_max_right a b))
  exact Option.some.inj same

theorem call {β : Type} {counted : Nat → Option β} {outcome : β}
    (settles : Settles (fun calls => counted (calls + 1)) outcome) : Settles counted outcome := by
  obtain ⟨enough, settled⟩ := settles
  refine ⟨enough + 1, fun calls more => ?_⟩
  obtain ⟨before, rfl⟩ : ∃ before, calls = before + 1 := ⟨calls - 1, by omega⟩
  exact settled before (by omega)

variable {α β : Type} {count : Nat → Counted α} {next : Nat → α → Counted β} {cursor after : Cursor} {value : α}

theorem bind_error {error : EvalError} (settles : Settles (fun calls => (count calls).run cursor) (.error error)) :
    Settles (fun calls => (count calls >>= next calls).run cursor) (.error error) := by
  obtain ⟨enough, settled⟩ := settles
  refine ⟨enough, fun calls more => ?_⟩
  have failed : (count calls).run cursor = some (.error error) := settled calls more
  change ExceptT.run ((count calls).run cursor >>= fun (value, after) => (next calls value).run after) = _
  rw [failed]
  rfl

theorem bind {outcome : Except EvalError (β × Cursor)}
    (first : Settles (fun calls => (count calls).run cursor) (.ok (value, after)))
    (second : Settles (fun calls => (next calls value).run after) outcome) :
    Settles (fun calls => (count calls >>= next calls).run cursor) outcome := by
  obtain ⟨enough, settled⟩ := first
  obtain ⟨others, behind⟩ := second
  refine ⟨max enough others, fun calls more => ?_⟩
  have read : (count calls).run cursor = some (.ok (value, after)) := settled calls (by omega)
  change ExceptT.run ((count calls).run cursor >>= fun (value, after) => (next calls value).run after) = _
  rw [read, ← behind calls (by omega)]
  rfl

end Settles

/-- Two outcomes that are alike: the same error, or the same result and the cursor before the tokens
that are left. -/
inductive Alike {α : Type} (tokens : List Token) (wanted : Cursor → Prop) :
    Except EvalError (α × List Token) → Except EvalError (α × Cursor) → Prop where
  | error (error : EvalError) : Alike tokens wanted (.error error) (.error error)
  | ok (value : α) {cursor : Cursor} (reached : wanted cursor) :
    Alike tokens wanted (.ok (value, tokens.drop cursor.position)) (.ok (value, cursor))

/-- Given enough calls, reading with counters ends like the reader. -/
def Ends {α : Type} (tokens : List Token) (wanted : Cursor → Prop) (result : Except EvalError (α × List Token))
    (counted : Nat → Option (Except EvalError (α × Cursor))) : Prop :=
  ∃ outcome, Alike tokens wanted result outcome ∧ Settles counted outcome

namespace Ends

open Counted

variable {α β : Type} {tokens : List Token} {wanted further : Cursor → Prop} {cursor : Cursor}
  {result : Except EvalError (α × List Token)} {counted : Nat → Option (Except EvalError (α × Cursor))}

theorem fail (error : EvalError) :
    Ends tokens wanted (.error error : Except _ (α × List Token)) fun _ => some (.error error) :=
  ⟨_, .error error, .now _⟩

theorem done (value : α) (reached : wanted cursor) :
    Ends tokens wanted (.ok (value, tokens.drop cursor.position)) fun _ => some (.ok (value, cursor)) :=
  ⟨_, .ok value reached, .now _⟩

theorem call (ends : Ends tokens wanted result fun calls => counted (calls + 1)) :
    Ends tokens wanted result counted := by
  obtain ⟨outcome, alike, settles⟩ := ends
  exact ⟨outcome, alike, settles.call⟩

theorem mono (ends : Ends tokens wanted result counted) (weaken : ∀ after, wanted after → further after) :
    Ends tokens further result counted := by
  obtain ⟨outcome, alike, settles⟩ := ends
  refine ⟨outcome, ?_, settles⟩
  cases alike with
  | error error => exact .error error
  | ok value reached => exact .ok value (weaken _ reached)

theorem exists_of_ok {value : α} {rest : List Token} (ends : Ends tokens wanted (.ok (value, rest)) counted) :
    ∃ last, Settles counted (.ok (value, last)) ∧ wanted last ∧ tokens.drop last.position = rest := by
  obtain ⟨outcome, alike, settles⟩ := ends
  generalize same : Except.ok (value, rest) = result at alike
  cases alike with
  | error error => cases same
  | ok value reached =>
    cases same
    exact ⟨_, settles, reached, rfl⟩

theorem bind {count : Nat → Counted α} {more : α × List Token → Except EvalError (β × List Token)}
    {next : Nat → α → Counted β} (first : Ends tokens wanted result fun calls => (count calls).run cursor)
    (rest : ∀ value after, wanted after →
      Ends tokens further (more (value, tokens.drop after.position)) fun calls => (next calls value).run after) :
    Ends tokens further (result >>= more) fun calls => (count calls >>= next calls).run cursor := by
  obtain ⟨outcome, alike, settles⟩ := first
  cases alike with
  | error error => exact ⟨.error error, .error error, settles.bind_error⟩
  | ok value reached =>
    obtain ⟨last, behind, later⟩ := rest value _ reached
    exact ⟨last, behind, settles.bind later⟩

theorem require {p : Punct} {more : List Token → Except EvalError (β × List Token)} {next : Nat → Unit → Counted β}
    (met : tokens[cursor.position]? = some (.punct p) →
      Ends tokens wanted (more (tokens.drop cursor.forward.position)) fun calls => (next calls ()).run cursor.forward) :
    Ends tokens wanted (expect p (tokens.drop cursor.position) >>= more)
      fun calls => (Counted.require tokens p >>= next calls).run cursor := by
  simp only [expect_eq, List.head?_drop, List.tail_drop, run_require]
  split
  next found => exact met found
  next => exact .fail _

/-- Where no nesting is left both fail, and else one is taken from it. -/
theorem descend {nesting : Nat} {read : Nat → Except EvalError (β × List Token)} {next : Nat → Unit → Counted β}
    (fits : Fits tokens nesting cursor)
    (inside : ∀ n, nesting = n + 1 → Fits tokens (n + 1) cursor →
      Ends tokens wanted (read n) fun calls => (next calls ()).run cursor.deeper) :
    Ends tokens wanted
      (match nesting with
        | 0 => .error (.unsupported .nesting)
        | n + 1 => read n)
      fun calls => (Counted.descend >>= next calls).run cursor := by
  have left := fits.left
  simp only [run_descend]
  cases nesting with
  | zero =>
    simp only [if_neg (by omega : ¬ cursor.depth < maxNesting)]
    exact .fail _
  | succ n =>
    simp only [if_pos (by omega : cursor.depth < maxNesting)]
    exact inside n rfl fits

theorem loop {before between : Cursor} {count : Nat → Counted α} (moved : Moves tokens before between)
    (ends : Ends tokens (Passes tokens between) result fun calls => (count calls).run between) :
    Ends tokens (Moves tokens before) result fun calls =>
      StateT.run (do
        let entry := (← get).depth
        let value ← count calls
        returnTo entry
        return value) between := by
  rw [← bind_pure result]
  change Ends _ _ _ fun calls =>
    (count calls >>= fun value => returnTo between.depth >>= fun _ => pure value).run between
  refine ends.bind fun value last passes => ?_
  exact .done value (Moves.loop moved passes)

end Ends

/-- A counted reader does what the reader does that may nest so deep, and restores the depth. -/
def Agrees {α : Type} (tokens : List Token) (nesting : Nat) (read : List Token → Except EvalError (α × List Token))
    (count : Nat → Counted α) : Prop :=
  ∀ {cursor}, Fits tokens nesting cursor →
    Ends tokens (Moves tokens cursor) (read (tokens.drop cursor.position)) fun calls => (count calls).run cursor

/-- The same for a loop, which may read nothing, and leaves the depth to be restored behind it. -/
def AgreesInLoop {α : Type} (tokens : List Token) (nesting : Nat)
    (read : List Token → Except EvalError (α × List Token)) (count : Nat → Counted α) : Prop :=
  ∀ {cursor}, Fits tokens nesting cursor →
    Ends tokens (Passes tokens cursor) (read (tokens.drop cursor.position)) fun calls => (count calls).run cursor

structure AllAgree (tokens : List Token) (nesting : Nat) : Prop where
  conditional : Agrees tokens nesting (readConditional nesting) (countConditional tokens)
  expr : Agrees tokens nesting (readExpr nesting) (countExpr tokens)
  chain : ∀ looseness, Agrees tokens nesting (readChain nesting looseness) fun calls =>
    countChain tokens calls looseness
  connected : ∀ looseness left,
    AgreesInLoop tokens nesting (readConnected nesting looseness left) fun calls =>
      countConnected tokens calls looseness left
  unary : Agrees tokens nesting (readUnary nesting) (countUnary tokens)
  applied : Agrees tokens nesting (readApplied nesting) (countApplied tokens)
  suffixes : ∀ subject, AgreesInLoop tokens nesting (readSuffixes nesting subject) fun calls =>
    countSuffixes tokens calls subject
  operand : Agrees tokens nesting (readOperand nesting) (countOperand tokens)
  items : ∀ close, Agrees tokens nesting (readItems nesting close) fun calls => countItems tokens calls close
  fields : Agrees tokens nesting (readFields nesting) (countFields tokens)

section

open Counted

variable {tokens : List Token} {nesting : Nat}

theorem tail_drop_position (cursor : Cursor) :
    (tokens.drop cursor.position).tail = tokens.drop cursor.forward.position := List.tail_drop

/-- What is left gets shorter when the cursor moves. -/
theorem Moves.shorter {before after : Cursor} (moves : Moves tokens before after) :
    tokens.length - after.position < tokens.length - before.position := by
  have progress := moves.progress
  have inside := moves.inside
  omega

private theorem items_agree (expr : Agrees tokens nesting (readExpr nesting) (countExpr tokens)) (close : Punct)
    {cursor : Cursor} (fits : Fits tokens nesting cursor) :
    Ends tokens (Moves tokens cursor) (readItems nesting close (tokens.drop cursor.position))
      fun calls => (countItems tokens calls close).run cursor := by
  refine .call ?_
  simp only [countItems, run_eat]
  rw [readItems_eq, List.head?_drop, tail_drop_position]
  split
  next found => exact .done _ (fits.moves found)
  next =>
    refine (expr fits).bind fun item after moved => ?_
    simp only [run_eat]
    rw [List.head?_drop, tail_drop_position]
    split
    next comma =>
      -- The reader goes on only if what is left is shorter, which it is.
      have further := moved.trans ((fits.behind moved).moves comma)
      have shorter := further.shorter
      rw [List.length_drop, List.length_drop, if_pos shorter]
      exact (items_agree expr close (fits.behind further)).bind fun items last again => .done _ (further.trans again)
    next => exact .require fun found => .done _ (moved.trans ((fits.behind moved).moves found))
termination_by tokens.length - cursor.position

private theorem fields_agree (expr : Agrees tokens nesting (readExpr nesting) (countExpr tokens)) {cursor : Cursor}
    (fits : Fits tokens nesting cursor) :
    Ends tokens (Moves tokens cursor) (readFields nesting (tokens.drop cursor.position))
      fun calls => (countFields tokens calls).run cursor := by
  refine .call ?_
  simp only [countFields, run_eat]
  rw [readFields_eq, List.head?_drop, tail_drop_position]
  split
  next found => exact .done _ (fits.moves found)
  next =>
    rw [readKey_eq, List.head?_drop, tail_drop_position]
    simp only [if_neg Bool.false_ne_true, run_advance]
    cases named : (tokens[cursor.position]?).bind key? with
    | none => exact .fail _
    | some key =>
      obtain ⟨token, found, _⟩ := Option.bind_eq_some_iff.mp named
      have first := fits.moves found
      refine .require fun colon => ?_
      have second := first.trans ((fits.behind first).moves colon)
      refine (expr (fits.behind second)).bind fun value after inside => ?_
      have moved := second.trans inside
      simp only [run_eat]
      rw [List.head?_drop, tail_drop_position]
      split
      next comma =>
        have further := moved.trans ((fits.behind moved).moves comma)
        have shorter := further.shorter
        rw [List.length_drop, List.length_drop, if_pos shorter]
        exact (fields_agree expr (fits.behind further)).bind fun fields last again => .done _ (further.trans again)
      next => exact .require fun found => .done _ (moved.trans ((fits.behind moved).moves found))
termination_by tokens.length - cursor.position

private theorem operand_agrees (expr : Agrees tokens nesting (readExpr nesting) (countExpr tokens)) :
    Agrees tokens nesting (readOperand nesting) (countOperand tokens) := by
  intro cursor fits
  refine .call ?_
  simp only [countOperand, run_advance]
  rw [readOperand_eq, List.head?_drop, tail_drop_position]
  cases found : tokens[cursor.position]? with
  | none => exact .fail _
  | some token =>
    have first := fits.moves found
    cases token with
    | number x => exact .done _ first
    | text s => exact .done _ first
    | name s =>
      dsimp only
      split
      next => exact .fail _
      next => exact .done _ first
    | punct p =>
      cases p with
      | openParen =>
        refine (expr (fits.behind first)).bind fun inner after inside => .require fun closed => ?_
        have moved := first.trans inside
        exact .done _ (moved.trans ((fits.behind moved).moves closed))
      | openBracket =>
        exact (items_agree expr _ (fits.behind first)).bind fun items after inside => .done _ (first.trans inside)
      | openBrace =>
        exact (fields_agree expr (fits.behind first)).bind fun fields after inside => .done _ (first.trans inside)
      | _ => exact .fail _

-- One level deeper everything is known.
variable (below : ∀ n, nesting = n + 1 → AllAgree tokens n)

include below

private theorem expr_agrees : Agrees tokens nesting (readExpr nesting) (countExpr tokens) := by
  intro cursor fits
  refine .call ?_
  simp only [countExpr]
  rw [readExpr_eq]
  refine .descend fits fun n same fits => ?_
  rw [← bind_pure (readConditional n _)]
  exact ((below n same).conditional fits.deeper).bind fun expr after inside => .done expr (Moves.nested fits inside)

private theorem suffixes_onward {n : Nat} {cursor last : Cursor} (same : nesting = n + 1)
    (fits : Fits tokens (n + 1) cursor) (moved : Moves tokens cursor.deeper last) (next : Expr) :
    Ends tokens (Passes tokens cursor) (readSuffixes n next (tokens.drop last.position))
      fun calls => (countSuffixes tokens calls next).run last :=
  ((below n same).suffixes next (fits.deeper.behind moved)).mono fun _ passes =>
    fits.passes_deeper.trans (moved.toPasses.trans passes)

private theorem suffixes_agree (subject : Expr) :
    AgreesInLoop tokens nesting (readSuffixes nesting subject) fun calls =>
      countSuffixes tokens calls subject := by
  intro cursor fits
  refine .call ?_
  simp only [countSuffixes, run_peek]
  rw [readSuffixes_eq, List.head?_drop, tail_drop_position, List.head?_drop, tail_drop_position]
  cases found : tokens[cursor.position]? with
  | none => exact .done _ (.refl fits)
  | some token =>
    cases token with
    | punct p =>
      cases p with
      | dot =>
        refine .descend fits fun n same fits => ?_
        have first := fits.deeper.moves found
        have position : cursor.deeper.forward.position = cursor.forward.position := rfl
        simp only [run_skip, run_advance, position]
        cases named : tokens[cursor.forward.position]? with
        | none => exact .fail _
        | some token =>
          cases token with
          | name s =>
            have moved := first.trans ((fits.deeper.behind first).moves named)
            exact suffixes_onward below same fits moved _
          | _ => exact .fail _
      | openBracket =>
        refine .descend fits fun n same fits => ?_
        have first := fits.deeper.moves found
        simp only [run_skip]
        refine ((below n same).expr (fits.deeper.behind first)).bind fun property after inside => ?_
        have moved := first.trans inside
        refine .require fun closed => ?_
        exact suffixes_onward below same fits (moved.trans ((fits.deeper.behind moved).moves closed)) _
      | openParen =>
        refine .descend fits fun n same fits => ?_
        have first := fits.deeper.moves found
        simp only [run_skip]
        refine ((below n same).items _ (fits.deeper.behind first)).bind fun arguments after inside => ?_
        exact suffixes_onward below same fits (first.trans inside) _
      | _ => exact .done _ (.refl fits)
    | _ => exact .done _ (.refl fits)

private theorem applied_agrees : Agrees tokens nesting (readApplied nesting) (countApplied tokens) := by
  intro cursor fits
  refine .call ?_
  simp only [countApplied]
  rw [readApplied]
  refine (operand_agrees (expr_agrees below) fits).bind fun operand between moved => ?_
  exact .loop moved (suffixes_agree below operand (fits.behind moved))

private theorem unary_agrees : Agrees tokens nesting (readUnary nesting) (countUnary tokens) := by
  intro cursor fits
  refine .call ?_
  simp only [countUnary, run_peek]
  rw [readUnary_eq, List.head?_drop, tail_drop_position]
  cases signed : (tokens[cursor.position]?).bind UnaryOp.ofToken? with
  | none => exact applied_agrees below fits
  | some op =>
    obtain ⟨token, found, _⟩ := Option.bind_eq_some_iff.mp signed
    have first := fits.moves found
    simp only [run_skip]
    refine .descend (fits.behind first) fun n same inner => ?_
    exact ((below n same).unary inner.deeper).bind fun operand last inside =>
      .done _ (first.trans (Moves.nested inner inside))

private theorem connected_agrees (looseness : Nat) (left : Expr) :
    AgreesInLoop tokens nesting (readConnected nesting looseness left) fun calls =>
      countConnected tokens calls looseness left := by
  intro cursor fits
  refine .call ?_
  simp only [countConnected, run_peek]
  rw [readConnected_eq, List.head?_drop, tail_drop_position]
  cases joined : (tokens[cursor.position]?).bind (connective? looseness) with
  | none => exact .done _ (.refl fits)
  | some connective =>
    obtain ⟨token, found, _⟩ := Option.bind_eq_some_iff.mp joined
    have first := fits.moves found
    simp only [run_skip]
    refine .descend (fits.behind first) fun n same inner => ?_
    refine ((below n same).chain looseness inner.deeper).bind fun right after moved => ?_
    refine ((below n same).connected looseness _ (inner.deeper.behind moved)).mono fun _ passes => ?_
    exact first.toPasses.trans (inner.passes_deeper.trans (moved.toPasses.trans passes))

private theorem chain_agrees (looseness : Nat) :
    Agrees tokens nesting (readChain nesting looseness) fun calls => countChain tokens calls looseness := by
  induction looseness with
  | zero =>
    intro cursor fits
    refine .call ?_
    simp only [countChain]
    rw [readChain]
    exact unary_agrees below fits
  | succ looseness ih =>
    intro cursor fits
    refine .call ?_
    simp only [countChain]
    rw [readChain]
    refine (ih fits).bind fun left between moved => ?_
    exact .loop moved (connected_agrees below looseness left (fits.behind moved))

private theorem conditional_agrees : Agrees tokens nesting (readConditional nesting) (countConditional tokens) := by
  intro cursor fits
  refine .call ?_
  simp only [countConditional]
  rw [readConditional_eq]
  refine (chain_agrees below 6 fits).bind fun condition between moved => ?_
  simp only [run_eat]
  rw [List.head?_drop, tail_drop_position]
  split
  next question =>
    have first := moved.trans ((fits.behind moved).moves question)
    refine (expr_agrees below (fits.behind first)).bind fun whenTrue after inside => .require fun colon => ?_
    have second := first.trans inside
    have third := second.trans ((fits.behind second).moves colon)
    exact (expr_agrees below (fits.behind third)).bind fun whenFalse last other => .done _ (third.trans other)
  next => exact .done _ moved

private theorem allAgree_of_below : AllAgree tokens nesting where
  conditional := conditional_agrees below
  expr := expr_agrees below
  chain := chain_agrees below
  connected := connected_agrees below
  unary := unary_agrees below
  applied := applied_agrees below
  suffixes := suffixes_agree below
  operand := operand_agrees (expr_agrees below)
  items := fun close => items_agree (expr_agrees below) close
  fields := fields_agree (expr_agrees below)

end

theorem allAgree (tokens : List Token) (nesting : Nat) : AllAgree tokens nesting := by
  induction nesting with
  | zero => exact allAgree_of_below fun n deeper => absurd deeper (by omega)
  | succ nesting ih =>
    apply allAgree_of_below
    intro n deeper
    obtain rfl : n = nesting := by omega
    exact ih

/-! Lists and their items. -/

/-- An item of a list starts at the given tokens: all items before it can be read, each at the same
nesting. -/
inductive ItemAt (nesting : Nat) (close : Punct) : List Token → List Token → Prop where
  | first {tokens : List Token} (more : tokens.head? ≠ some (.punct close)) : ItemAt nesting close tokens tokens
  | next {tokens others start : List Token} {item : Expr} (more : tokens.head? ≠ some (.punct close))
      (read : readExpr nesting tokens = .ok (item, .punct .comma :: others))
      (later : ItemAt nesting close others start) :
      ItemAt nesting close tokens start

theorem length_lt_of_readExpr {nesting : Nat} {tokens rest : List Token} {expr : Expr}
    (read : readExpr nesting tokens = .ok (expr, rest)) : rest.length < tokens.length := by
  obtain ⟨taken, rfl, derived⟩ := (sound nesting).expr read
  obtain ⟨token, more, rfl, _⟩ := derived.starts rfl
  simp only [List.cons_append, List.length_cons, List.length_append]
  omega

theorem ItemAt.too_deep {nesting : Nat} {close : Punct} {tokens start : List Token}
    (item : ItemAt nesting close tokens start) (failed : readExpr nesting start = .error (.unsupported .nesting)) :
    readItems nesting close tokens = .error (.unsupported .nesting) := by
  induction item with
  | first more => exact readItems_error more failed
  | next more read _ ih =>
    have shorter := length_lt_of_readExpr read
    rw [List.length_cons] at shorter
    rw [readItems_comma more (by omega) read, ih failed]
    rfl

theorem exists_itemAt {nesting : Nat} {close : Punct} {tokens : List Token}
    (failed : readItems nesting close tokens = .error (.unsupported .nesting)) :
    ∃ start, ItemAt nesting close tokens start ∧ readExpr nesting start = .error (.unsupported .nesting) := by
  rw [readItems_eq] at failed
  split at failed
  next => cases failed
  next more =>
    rcases bind_eq_error failed with here | ⟨⟨item, rest⟩, read, failed⟩
    · exact ⟨tokens, .first more, here⟩
    · dsimp only at failed
      split at failed
      next comma =>
        obtain ⟨others, rfl⟩ := List.head?_eq_some_iff.mp comma
        split at failed
        next shorter =>
          rw [List.tail_cons] at failed shorter
          rcases bind_eq_error failed with later | ⟨_, _, failed⟩
          · obtain ⟨start, item, deep⟩ := exists_itemAt later
            exact ⟨start, .next more read item, deep⟩
          · cases failed
        next => cases failed
      next =>
        rw [expect_eq] at failed
        split at failed
        all_goals cases failed
termination_by tokens.length

/-- A list nests too deep if and only if one of its items does. -/
theorem readItems_too_deep_iff {nesting : Nat} {close : Punct} {tokens : List Token} :
    readItems nesting close tokens = .error (.unsupported .nesting) ↔
      ∃ start, ItemAt nesting close tokens start ∧ readExpr nesting start = .error (.unsupported .nesting) := by
  constructor
  · exact exists_itemAt
  · intro found
    obtain ⟨start, item, failed⟩ := found
    exact item.too_deep failed

theorem readItems_of_derives {nesting : Nat} {close : Punct} {exprs : List Expr} {list : List Token}
    (derived : Derives (.items exprs) list) (closing : close ∈ [Punct.closeParen, .closeBracket]) (behind : List Token)
    (shallow : ∀ start, ItemAt nesting close (list ++ .punct close :: behind) start →
      readExpr nesting start ≠ .error (.unsupported .nesting)) :
    readItems nesting close (list ++ .punct close :: behind) = .ok (exprs, behind) := by
  rcases (derived.finds close closing behind).only nesting with read | failed
  · exact read
  · obtain ⟨start, item, deep⟩ := exists_itemAt failed
    exact absurd deep (shallow start item)

/-- All tokens are taken up if and only if the cursor comes to their end. -/
theorem ofTokens_eq_ok_iff {tokens : List Token} {expr : Expr} :
    ofTokens tokens = .ok expr ↔
      ∃ last, Settles (fun calls => (countExpr tokens calls).run ⟨0, 0, 0⟩) (.ok (expr, last)) ∧
        last.position = tokens.length := by
  have fits : Fits tokens maxNesting ⟨0, 0, 0⟩ := ⟨Nat.zero_le _, Nat.zero_add _, Nat.zero_le _⟩
  have ends : Ends tokens (Moves tokens ⟨0, 0, 0⟩) (readExpr maxNesting tokens)
      fun calls => (countExpr tokens calls).run ⟨0, 0, 0⟩ := (allAgree tokens maxNesting).expr fits
  obtain ⟨outcome, alike, settles⟩ := ends
  rw [ofTokens]
  generalize readExpr maxNesting tokens = read at alike ⊢
  cases alike with
  | error error =>
    constructor
    · intro failed
      cases failed
    · rintro ⟨last, finished, _⟩
      cases settles.unique finished
  | @ok value last moved =>
    have inside := moved.inside
    have whole : (tokens.drop last.position).isEmpty ↔ last.position = tokens.length := by
      rw [List.isEmpty_iff, List.drop_eq_nil_iff]
      omega
    change (if (tokens.drop last.position).isEmpty then Except.ok value
      else .error (EvalError.malformed .trailing)) = _ ↔ _
    constructor
    · intro done
      split at done
      next empty =>
        cases done
        exact ⟨last, settles, whole.mp empty⟩
      next => cases done
    · rintro ⟨last, finished, ended⟩
      cases settles.unique finished
      rw [if_pos (whole.mpr ended)]

/-- Reading with counters from any place among the tokens that is not too deep: every reader comes to
an end, with the error or the result of the reader that is told the nesting that is left. With a
result, the cursor has gone on, at most to the end of the tokens, it is as deep as it was, and it was
never too deep on the way. A list nests too deep if and only if one of its items does, so one that
is well formed is read whatever its length. -/
theorem readers_move_on_and_restore_depth (tokens : List Token) (start : Cursor)
    (inside : start.position ≤ tokens.length) (shallow : start.depth ≤ maxNesting)
    (recorded : start.deepest ≤ maxNesting) :
    let nesting := maxNesting - start.depth
    let rest := tokens.drop start.position
    (Ends tokens (Moves tokens start) (readExpr nesting rest)
      fun calls => (countExpr tokens calls).run start) ∧
    (Ends tokens (Moves tokens start) (readConditional nesting rest)
      fun calls => (countConditional tokens calls).run start) ∧
    (∀ looseness, Ends tokens (Moves tokens start) (readChain nesting looseness rest)
      fun calls => (countChain tokens calls looseness).run start) ∧
    (Ends tokens (Moves tokens start) (readUnary nesting rest)
      fun calls => (countUnary tokens calls).run start) ∧
    (Ends tokens (Moves tokens start) (readApplied nesting rest)
      fun calls => (countApplied tokens calls).run start) ∧
    (Ends tokens (Moves tokens start) (readOperand nesting rest)
      fun calls => (countOperand tokens calls).run start) ∧
    (∀ close, Ends tokens (Moves tokens start) (readItems nesting close rest)
      fun calls => (countItems tokens calls close).run start) ∧
    (Ends tokens (Moves tokens start) (readFields nesting rest)
      fun calls => (countFields tokens calls).run start) ∧
    (∀ close, readItems nesting close rest = .error (.unsupported .nesting) ↔
      ∃ item, ItemAt nesting close rest item ∧ readExpr nesting item = .error (.unsupported .nesting)) ∧
    (∀ exprs list behind, ∀ close ∈ [Punct.closeParen, .closeBracket], Derives (.items exprs) list →
      rest = list ++ .punct close :: behind →
      (∀ item, ItemAt nesting close rest item → readExpr nesting item ≠ .error (.unsupported .nesting)) →
      readItems nesting close rest = .ok (exprs, behind)) ∧
    ∀ expr, ofTokens tokens = .ok expr ↔
      ∃ last, Settles (fun calls => (countExpr tokens calls).run ⟨0, 0, 0⟩) (.ok (expr, last)) ∧
        last.position = tokens.length := by
  intro nesting rest
  have fits : Fits tokens nesting start := ⟨inside, Nat.add_sub_of_le shallow, recorded⟩
  have agree := allAgree tokens nesting
  refine ⟨agree.expr fits, agree.conditional fits, fun looseness => agree.chain looseness fits, agree.unary fits,
    agree.applied fits, agree.operand fits, fun close => agree.items close fits, agree.fields fits,
    fun _ => readItems_too_deep_iff, ?_, fun _ => ofTokens_eq_ok_iff⟩
  intro exprs list behind close closing derived same items
  rw [same] at items ⊢
  exact readItems_of_derives derived closing behind items

/-- A list of two strings. -/
def textPair : List Token := [.punct .openBracket, .text "a", .punct .comma, .text "b", .punct .closeBracket]

/-- It is read where just enough nesting is left for it. -/
theorem pair_at_the_limit_restores_depth :
    ∃ last, Settles (fun calls => (countExpr textPair calls).run ⟨0, 254, 254⟩)
        (.ok (.array [.text "a", .text "b"], last)) ∧
      last.position = 5 ∧ last.depth = 254 ∧ last.deepest ≤ maxNesting := by
  have read : readExpr 2 textPair = .ok (.array [.text "a", .text "b"], []) := by cbv
  have ends := (readers_move_on_and_restore_depth textPair ⟨0, 254, 254⟩ (by decide) (by decide) (by decide)).1
  change Ends _ _ (readExpr 2 textPair) _ at ends
  rw [read] at ends
  obtain ⟨last, counted, moves, behind⟩ := ends.exists_of_ok
  have inside := moves.inside
  have ended := List.drop_eq_nil_iff.mp behind
  exact ⟨last, counted, Nat.le_antisymm inside ended, moves.restored, moves.shallow⟩

end NimTemplate.Expr
