import NimTemplate.Proofs.Coalescing
import NimTemplate.Proofs.Route

/-! Where the code of planned steps stands. From a level on, steps add entries at that level and
deeper ones only, the level is the same behind them, and what they add does not begin with an
empty line. A body has at least one entry, all of them one level deeper than its head. -/

namespace NimTemplate.Nim

/-- An entry at a level or a deeper one. Empty lines stand at no level. -/
def Entry.IsWithin (floor : Nat) : Entry → Prop
  | line content => content = "" ∨ (indentation floor).toList <+: content.toList
  | append level _ => floor ≤ level

theorem Entry.IsWithin.mono {floor outer : Nat} {entry : Entry} (lower : outer ≤ floor) (within : entry.IsWithin floor) :
    entry.IsWithin outer := by
  cases entry with
  | append level piece => exact Nat.le_trans lower within
  | line content =>
    rcases within with empty | starts
    · exact .inl empty
    · refine .inr (List.IsPrefix.trans ?_ starts)
      simpa using indentation_prefix_of_le lower ""

/-- The lines of entries stand where the entries do. -/
theorem linesOf_within {floor : Nat} {entries : List Entry} (within : ∀ entry ∈ entries, entry.IsWithin floor) :
    ∀ line ∈ linesOf entries, line = "" ∨ (indentation floor).toList <+: line.toList := by
  intro line member
  obtain ⟨group, inside, rfl⟩ := List.mem_map.mp member
  have whole := List.flatten_splitBy Entry.shares entries
  cases group with
  | nil => exact absurd rfl (List.ne_nil_of_mem_splitBy inside)
  | cons first rest =>
    have here : first.IsWithin floor := by
      apply within
      rw [← whole]
      exact List.mem_flatten.mpr ⟨_, inside, List.mem_cons_self⟩
    cases first with
    | line content => exact here
    | append level piece =>
      right
      rw [Entry.code, String.append_assoc, String.append_assoc]
      exact indentation_prefix_of_le here _

/-- The first entry is not an empty line. -/
def Opens (entries : List Entry) : Prop := entries.head? ≠ some (.line "")

theorem Opens.append {first rest : List Entry} (before : Opens first) (behind : Opens rest) : Opens (first ++ rest) := by
  cases first with
  | nil => exact behind
  | cons entry others => exact before

theorem Opens.linesOf {entries : List Entry} (opens : Opens entries) (some : entries ≠ []) :
    ∃ first rest, linesOf entries = first :: rest ∧ first ≠ "" := by
  have groups : entries.splitBy Entry.shares ≠ [] := List.splitBy_ne_nil.mpr some
  have leads := List.head_head_splitBy Entry.shares some
  cases split : entries.splitBy Entry.shares with
  | nil => exact absurd split groups
  | cons group others =>
    refine ⟨Entry.code group, others.map Entry.code, by rw [Nim.linesOf, split, List.map_cons], ?_⟩
    have filled : group ≠ [] := List.ne_nil_of_mem_splitBy (split ▸ List.mem_cons_self)
    cases group with
    | nil => exact absurd rfl filled
    | cons entry more =>
      simp only [split, List.head_cons] at leads
      cases entry with
      | append level piece =>
        rw [Entry.code]
        simp
      | line content =>
        rintro rfl
        exact opens (by rw [List.head?_eq_some_head some, ← leads])

theorem Holds.of_same {draft other : Draft} {run : List Entry} (holds : Holds draft run) (last : other.last = draft.last) :
    Holds other run := by
  cases holds with
  | closed none => exact .closed (last.trans none)
  | opened here => exact .opened (last.trans here)

/-- From one draft to another by entries at its level and deeper ones. -/
structure Fills (before : Draft) (entries : List Entry) (after : Draft) : Prop where
  level : after.level = before.level
  within : ∀ entry ∈ entries, entry.IsWithin before.level
  shown : ∀ {run}, Holds before run → ∃ next, Holds after next ∧ ∀ rest,
    after.finished.toList ++ linesOf (next ++ rest) = before.finished.toList ++ linesOf (run ++ (entries ++ rest))

namespace Fills

theorem refl (draft : Draft) : Fills draft [] draft := ⟨rfl, nofun, fun holds => ⟨_, holds, fun _ => rfl⟩⟩

theorem trans {before between after : Draft} {first rest : List Entry} (here : Fills before first between)
    (later : Fills between rest after) : Fills before (first ++ rest) after where
  level := later.level.trans here.level
  within := by
    intro entry member
    rcases List.mem_append.mp member with early | late
    · exact here.within entry early
    · exact here.level ▸ later.within entry late
  shown := by
    intro run holds
    obtain ⟨next, kept, shown⟩ := here.shown holds
    obtain ⟨final, held, ended⟩ := later.shown kept
    refine ⟨final, held, fun more => ?_⟩
    rw [ended, shown, List.append_assoc]

theorem operation {draft : Draft} {operation : Operation} (still : operation.level draft.level = draft.level)
    (within : ∀ entry ∈ operation.entries draft.level, entry.IsWithin draft.level) :
    Fills draft (operation.entries draft.level) (operation.apply draft) :=
  ⟨(level_apply operation draft).trans still, within, fun holds => holds.step operation⟩

theorem line (draft : Draft) (statement : String) :
    Fills draft [.line (indentation draft.level ++ statement)] (draft.pushLine statement) := by
  refine @Fills.operation draft (.line statement) rfl ?_
  intro entry member
  rw [List.mem_singleton.mp member]
  exact .inr (indentation_prefix_of_le (Nat.le_refl _) statement)

theorem blank (draft : Draft) : Fills draft [.line ""] draft.pushBlank := by
  refine @Fills.operation draft .blank rfl ?_
  intro entry member
  rw [List.mem_singleton.mp member]
  exact .inl rfl

/-- What is filled one level deeper is filled at the level itself. -/
theorem nested {draft inside : Draft} {entries : List Entry} (deep : 1 ≤ draft.level)
    (filled : Fills draft.indent entries inside) : Fills draft entries inside.dedent where
  level := by
    have level := filled.level
    change max (inside.level - 1) 1 = draft.level
    change inside.level = draft.level + 1 at level
    omega
  within := fun entry member => (filled.within entry member).mono (Nat.le_succ _)
  shown := by
    intro run holds
    obtain ⟨next, kept, shown⟩ := filled.shown (holds.of_same rfl)
    exact ⟨next, kept.of_same rfl, shown⟩

theorem lines {before after : Draft} {entries : List Entry} (filled : Fills before entries after) {run : List Entry}
    (holds : Holds before run) : after.lines = before.finished.toList ++ linesOf (run ++ entries) := by
  obtain ⟨next, kept, shown⟩ := filled.shown holds
  rw [kept.lines]
  simpa using shown []

/-- Behind a line of its own, what is filled stands on lines of its own. -/
theorem lines_of_closed {before after : Draft} {entries : List Entry} (filled : Fills before entries after)
    (closed : before.last = none) : after.lines = before.lines ++ linesOf entries := by
  rw [filled.lines (.closed closed), Draft.lines_of_closed closed]
  rfl

end Fills

/-- A line at a level is not empty, be its statement so. -/
theorem opens_line {level : Nat} (deep : 1 ≤ level) (statement : String) (rest : List Entry) :
    Opens (.line (indentation level ++ statement) :: rest) := by
  intro empty
  have nothing : indentation level ++ statement = "" := by simpa using empty
  have spaces : indentation level = "" := (String.append_eq_empty_iff.mp nothing).1
  have none : List.replicate (2 * level) ' ' = [] := by
    rw [← toList_indentation, spaces]
    rfl
  simp only [List.replicate_eq_nil_iff] at none
  omega

/-- From one draft to another by entries of which the first is no empty line. -/
def Proceeds (before after : Draft) : Prop := ∃ entries, Fills before entries after ∧ Opens entries

namespace Proceeds

theorem level {before after : Draft} (proceeds : Proceeds before after) : after.level = before.level := by
  obtain ⟨_, filled, _⟩ := proceeds
  exact filled.level

theorem deep {before after : Draft} (proceeds : Proceeds before after) (deep : 1 ≤ before.level) : 1 ≤ after.level := by
  rw [proceeds.level]
  exact deep

theorem refl (draft : Draft) : Proceeds draft draft := ⟨[], .refl draft, nofun⟩

theorem trans {before between after : Draft} (here : Proceeds before between) (later : Proceeds between after) :
    Proceeds before after := by
  obtain ⟨first, filled, opens⟩ := here
  obtain ⟨rest, follows, also⟩ := later
  exact ⟨first ++ rest, filled.trans follows, opens.append also⟩

theorem line {draft : Draft} (deep : 1 ≤ draft.level) (statement : String) :
    Proceeds draft (draft.pushLine statement) :=
  ⟨_, .line draft statement, opens_line deep statement []⟩

theorem put (draft : Draft) (piece : Piece) : Proceeds draft (draft.put piece) := by
  have operand : ∀ piece, ∀ entry ∈ [Entry.append draft.level piece], entry.IsWithin draft.level := by
    intro piece entry member
    rw [List.mem_singleton.mp member]
    exact Nat.le_refl _
  cases piece with
  | expr source => exact ⟨_, @Fills.operation draft (.expr source) rfl (operand _), nofun⟩
  | text content =>
    by_cases empty : content = ""
    · subst empty
      exact .refl draft
    · have entries : (Operation.text content).entries draft.level = [.append draft.level (.text content)] :=
        if_neg empty
      have filled : Fills draft ((Operation.text content).entries draft.level) (draft.appendText content) :=
        .operation rfl (by rw [entries]; exact operand _)
      exact ⟨_, filled, by rw [entries]; exact nofun⟩

theorem nested {draft inside : Draft} (deep : 1 ≤ draft.level) (proceeds : Proceeds draft.indent inside) :
    Proceeds draft inside.dedent := by
  obtain ⟨entries, filled, opens⟩ := proceeds
  exact ⟨entries, filled.nested deep, opens⟩

end Proceeds

end NimTemplate.Nim

namespace NimTemplate.Compile

open Nim (Fills Opens Entry Proceeds)

/-- Ends a body: all of it is one level deeper than its head, and there is something in it. -/
theorem endBody_fills {state inside : State} (deep : 1 ≤ state.draft.level)
    (proceeds : Proceeds state.draft.indent inside.draft) :
    ∃ body, Fills state.draft body (state.endBody inside).draft ∧ Opens body ∧
      (∀ entry ∈ body, entry.IsWithin (state.draft.level + 1)) ∧ (state.draft.last = none → body ≠ []) := by
  obtain ⟨entries, filled, opens⟩ := proceeds
  unfold State.endBody
  split
  next same =>
    have discarded := filled.trans (.line inside.draft "discard")
    have deeper : 1 ≤ inside.draft.level := by
      rw [filled.level]
      exact Nat.le_succ_of_le deep
    exact ⟨_, discarded.nested deep, opens.append (Nim.opens_line deeper _ _), discarded.within, by simp⟩
  next longer =>
    refine ⟨entries, filled.nested deep, opens, filled.within, ?_⟩
    rintro closed rfl
    have same : inside.draft.lines = state.draft.lines := by
      have shown := filled.lines_of_closed closed
      simpa [Nim.linesOf] using shown
    exact longer (by rw [Nim.Draft.size_eq_length, same, Nim.Draft.size_eq_length])

theorem endBody_proceeds {state inside : State} (deep : 1 ≤ state.draft.level)
    (proceeds : Proceeds state.draft.indent inside.draft) : Proceeds state.draft (state.endBody inside).draft := by
  obtain ⟨body, filled, opens, _⟩ := endBody_fills deep proceeds
  exact ⟨body, filled, opens⟩

/-- The statement that a mixin starts with. -/
def mixinLine (mixin : Mixin Node) (name : String) : String :=
  if mixin.call then Nim.mixinName name ++ "(" ++ Nim.normalizeQuotes (parametersOf mixin) ++ "):"
  else definitionHead name (parametersOf mixin)

theorem isFlush_mixinLine (mixin : Mixin Node) (name : String) : Nim.isFlush (mixinLine mixin name) := by
  unfold mixinLine
  split
  · unfold Nim.mixinName
    split
    all_goals
      simp only [String.append_assoc]
      exact Nim.isFlush_append _ (by decide) (by decide)
  · unfold definitionHead
    simp only [String.append_assoc]
    exact Nim.isFlush_append _ (by decide) (by decide)

/-- A mixin starts with its line, and before that of a call there may be a note. -/
theorem enterMixin_eq (state : State) (context : Context) (mixin : Mixin Node) :
    ∃ called, state.enterMixin context mixin = State.line called (mixinLine mixin (resolvedName context mixin)) ∧
      (called.draft = state.draft ∨
        ∃ merged, called.draft = state.draft.pushLine ("# FIXME unported mixin attributes: " ++ merged)) := by
  rw [State.enterMixin, State.mixinHead, mixinLine]
  split
  · refine ⟨_, rfl, ?_⟩
    unfold State.callAttributes
    split
    · exact .inl (State.draft_noteComputed state mixin)
    · rw [State.attributeTable_eq, ← State.draft_noteComputed state mixin]
      exact .inr ⟨_, rfl⟩
  · exact ⟨_, rfl, .inl (State.draft_noteComputed state mixin)⟩

theorem enterMixin_proceeds (state : State) (context : Context) (mixin : Mixin Node) (deep : 1 ≤ state.draft.level) :
    Proceeds state.draft (state.enterMixin context mixin).draft := by
  obtain ⟨called, same, started⟩ := enterMixin_eq state context mixin
  have before : Proceeds state.draft called.draft := by
    rcases started with here | ⟨merged, here⟩
    · rw [here]
      exact .refl _
    · rw [here]
      exact .line deep _
  rw [same]
  exact before.trans (.line (before.deep deep) _)

theorem mixinEnd_fills (state : State) (mixin : Mixin Node) (name : String) (start : Nat) :
    ∃ entries, Fills state.draft entries (state.mixinEnd mixin name start).draft := by
  unfold State.mixinEnd
  split
  · split
    · exact ⟨_, .blank _⟩
    · exact ⟨_, .refl _⟩
  · exact ⟨_, .blank _⟩

/-- Behind a head, a body and what ends it. -/
private theorem proceeds_body {state head inside after : State} {ending : List Entry} (deep : 1 ≤ state.draft.level)
    (started : Proceeds state.draft head.draft) (closed : head.draft.last = none)
    (content : Proceeds head.draft.indent inside.draft) (ended : Fills (head.endBody inside).draft ending after.draft) :
    Proceeds state.draft after.draft := by
  obtain ⟨body, filled, opens, _, some⟩ := endBody_fills (started.deep deep) content
  refine started.trans ⟨body ++ ending, filled.trans ended, ?_⟩
  cases body with
  | nil => exact absurd rfl (some closed)
  | cons entry others => exact opens

private theorem last_line (state : State) (statement : String) : (state.line statement).draft.last = none :=
  Nim.Draft.last_push _ _

private theorem proceeds_cons {context : Context} {step : Step} {rest : List Step} {state : State}
    (deep : 1 ≤ state.draft.level) (here : Proceeds state.draft (step.run context state).draft)
    (later : ∀ state : State, 1 ≤ state.draft.level → Proceeds state.draft (runAll context rest state).draft) :
    Proceeds state.draft (runAll context (step :: rest) state).draft :=
  here.trans (later _ (here.deep deep))

/-- Steps of a plan fill the level they start at. -/
theorem Built.proceeds (context : Context) {mode : Mode} {stops : List Stop} {steps : List Step}
    (built : Built mode stops steps) (state : State) (deep : 1 ≤ state.draft.level) :
    Proceeds state.draft (runAll context steps state).draft := by
  induction built generalizing state with
  | nil => exact .refl _
  | put site _ later => exact proceeds_cons deep (.put _ _) later
  | line _ _ later => exact proceeds_cons deep (.line deep _) later
  | mode next _ later => exact proceeds_cons deep (.refl _) later
  | nested _ _ inside later => exact proceeds_cons deep (.nested deep (inside state.indent (Nat.le_add_left 1 _))) later
  | @block _ _ _ steps rest head _ _ _ inside later =>
    have content := inside (state.line head).indent (Nat.le_add_left 1 _)
    let ended := (state.line head).endBody (runAll context steps (state.line head).indent)
    have here : Proceeds state.draft ended.blank.draft :=
      proceeds_body deep (.line deep head) (last_line state head) content (.blank ended.draft)
    exact here.trans (later ended.blank (here.deep deep))
  | @mixin _ _ _ steps rest mixin _ _ _ inside later =>
    have started := enterMixin_proceeds state context mixin deep
    have content := inside (state.enterMixin context mixin).indent (Nat.le_add_left 1 _)
    obtain ⟨called, same, _⟩ := enterMixin_eq state context mixin
    obtain ⟨ending, ended⟩ := mixinEnd_fills _ mixin (resolvedName context mixin) state.draft.size
    exact proceeds_cons deep (proceeds_body deep started (by rw [same]; exact last_line called _) content ended) later
  | visit node _ _ inside later => exact proceeds_cons deep (inside state deep) later

/-! What the walk puts out proceeds, since it carries out plans. -/

theorem emitNode_proceeds {context : Context} {node : Node} {state after : State} (deep : 1 ≤ state.draft.level)
    (emitted : emitNode context node state = .ok after) : Proceeds state.draft after.draft := by
  obtain ⟨step, planned, rfl⟩ := planned_of_emitted emitted
  have surveys := planNode_surveys context node state.mode
  rw [planned] at surveys
  cases surveys with
  | ok _ leads => exact leads.built.proceeds context state deep

private theorem proceeds_of_follows {context : Context} {emit : State → Except Error State}
    {plan : Mode → Except Error (List Step)} {stops : List Stop} {state after : State} (follows : Follows context emit plan)
    (surveys : Surveys context stops (Leads state.mode stops) (plan state.mode)) (deep : 1 ≤ state.draft.level)
    (emitted : emit state = .ok after) : Proceeds state.draft after.draft := by
  rw [follows state] at emitted
  cases planned : plan state.mode with
  | error error =>
    rw [planned] at emitted
    cases emitted
  | ok steps =>
    rw [planned] at emitted surveys
    cases emitted
    cases surveys with
    | ok _ leads => exact leads.built.proceeds context state deep

theorem emitNodes_proceeds {context : Context} {nodes : List Node} {state after : State} (deep : 1 ≤ state.draft.level)
    (emitted : emitNodes context nodes state = .ok after) : Proceeds state.draft after.draft :=
  proceeds_of_follows (emitNodes_follows context nodes) (planNodes_surveys context nodes state.mode) deep emitted

theorem emitCode_proceeds {context : Context} {code : Code Node} {state after : State} (deep : 1 ≤ state.draft.level)
    (emitted : emitCode context code state = .ok after) : Proceeds state.draft after.draft :=
  proceeds_of_follows (emitCode_follows context code) (planCode_surveys context code state.mode) deep emitted

/-- A body proceeds if its content does. -/
theorem body_proceeds {content : State → Except Error State} {state after : State} (deep : 1 ≤ state.draft.level)
    (within : ∀ {done}, content state.indent = .ok done → Proceeds state.indent.draft done.draft)
    (emitted : state.body content = .ok after) : Proceeds state.draft after.draft := by
  obtain ⟨done, inside, same⟩ := bind_eq_ok emitted
  cases same
  exact endBody_proceeds deep (within inside)

theorem emitBody_proceeds {context : Context} {block : Option (Block Node)} {state after : State}
    (deep : 1 ≤ state.draft.level) (emitted : emitBody context block state = .ok after) :
    Proceeds state.draft after.draft := by
  cases block with
  | none =>
    refine body_proceeds deep ?_ emitted
    rintro done ⟨⟩
    exact .refl _
  | some block => exact body_proceeds deep (emitNodes_proceeds (Nat.le_add_left 1 _)) emitted

theorem text_proceeds (state : State) (content : String) : Proceeds state.draft (state.text content).draft :=
  .put state.draft (.text content)

theorem code_proceeds (state : State) (context : Context) (code : Code Node) (deep : 1 ≤ state.draft.level) :
    Proceeds state.draft (state.code context code).draft := by
  rw [State.code_eq, codeStep]
  split
  · exact .put _ _
  · exact .line deep _

theorem startTag_proceeds (state : State) (context : Context) (tag : Tag Node) (deep : 1 ≤ state.draft.level) :
    Proceeds state.draft ((((state.enterTag tag.name).text "<").tagName context tag).attributes context
      tag.attributes tag.location).draft := by
  have entered : Proceeds state.draft (state.enterTag tag.name).draft := by
    rw [State.enterTag_eq state context]
    exact (Built.enter state.mode tag.name).proceeds context state deep
  rw [State.startTag_eq, ← runAll_put]
  exact entered.trans ((Built.puts state.mode _).proceeds context _ (entered.deep deep))

end NimTemplate.Compile
