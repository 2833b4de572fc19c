import Mathlib.Data.List.Pairwise
import NimTemplate.Proofs.Lines
import NimTemplate.Proofs.Walk

/-! The nodes that a walk visits, each with the state before and behind it. Visits come in the
order in which they begin. Of two of them the later one either lies within the earlier or begins
when the earlier is over. -/

namespace NimTemplate.Compile

structure Visit where
  node : Node
  before : State
  after : State

/-- The lines that are there behind a visit and were not there before it. -/
def Visit.span (visit : Visit) : Nim.Span := ⟨visit.before.draft.size, visit.after.draft.size⟩

mutual

def Step.visits (context : Context) : Step → State → List Visit
  | .nested steps, state | .body steps, state => visitsAll context steps state.indent
  | .mixin mixin steps, state =>
    ⟨.mixin mixin, state, (Step.mixin mixin steps).run context state⟩ ::
      visitsAll context steps (state.enterMixin context mixin).indent
  | .visit node steps, state => ⟨node, state, runAll context steps state⟩ :: visitsAll context steps state
  | _, _ => []

def visitsAll (context : Context) : List Step → State → List Visit
  | [], _ => []
  | step :: rest, state => step.visits context state ++ visitsAll context rest (step.run context state)

end

def visitsOf (context : Context) (root : Node) : Except Error (List Visit) :=
  (·.visits context (.initial context.options)) <$> planNode context root (.initial context.options)

/-! Every step that stands for a node is the plan of that node. -/

mutual

def Step.IsPlanned (context : Context) : Step → Mode → Prop
  | .nested steps, mode | .body steps, mode => ArePlanned context steps mode
  | .mixin mixin steps, mode =>
    planNode context (.mixin mixin) mode = .ok (.mixin mixin steps) ∧ ArePlanned context steps mode
  | .visit node steps, mode =>
    planNode context node mode = .ok (.visit node steps) ∧ ArePlanned context steps mode
  | _, _ => True

def ArePlanned (context : Context) : List Step → Mode → Prop
  | [], _ => True
  | step :: rest, mode => step.IsPlanned context mode ∧ ArePlanned context rest (step.modeAfter mode)

end

theorem arePlanned_append {context : Context} {first rest : List Step} {mode : Mode}
    (before : ArePlanned context first mode) (behind : ArePlanned context rest (modeAfterAll first mode)) :
    ArePlanned context (first ++ rest) mode := by
  induction first generalizing mode with
  | nil => exact behind
  | cons step steps ih => exact ⟨before.1, ih before.2 behind⟩

theorem arePlanned_put (context : Context) (sites : List Site) (mode : Mode) :
    ArePlanned context (sites.map .put) mode := by
  induction sites with
  | nil => trivial
  | cons site sites ih => exact ⟨trivial, ih⟩

private theorem arePlanned_start (context : Context) (tag : Tag Node) (mode : Mode) (terse : Bool) :
    ArePlanned context (enterSteps mode tag.name ++ (startTag tag terse).map .put) mode := by
  refine arePlanned_append ?_ (arePlanned_put context _ _)
  unfold enterSteps
  split
  · exact ⟨trivial, trivial, trivial, trivial⟩
  · exact ⟨trivial, trivial⟩

private theorem modeAfterAll_start (tag : Tag Node) (mode : Mode) (terse : Bool) :
    modeAfterAll (enterSteps mode tag.name ++ (startTag tag terse).map .put) mode = mode.enterTag tag.name := by
  rw [modeAfterAll_append, modeAfterAll_put, modeAfterAll_enterSteps]

private theorem arePlanned_body {context : Context} {steps rest : List Step} {mode : Mode} (head : String)
    (inside : ArePlanned context steps mode) (behind : ArePlanned context rest (modeAfterAll steps mode)) :
    ArePlanned context (.line head :: .body steps :: .blank :: rest) mode :=
  ⟨trivial, inside, trivial, behind⟩

private theorem branch_arePlanned {context : Context} {label : String} {block : Option (Block Node)}
    {location : Location} {rest : List Node} {labels : List String} {hasDefault : Bool} {mode : Mode} {steps : List Step}
    (body : ∀ {mode steps}, planBody context block mode = .ok steps → ArePlanned context steps mode)
    (later : ∀ {labels hasDefault mode steps}, planBranches context rest labels hasDefault mode = .ok steps →
      ArePlanned context steps mode)
    (planned : planBranches context (.branch ⟨label, block, location⟩ :: rest) labels hasDefault mode = .ok steps) :
    ArePlanned context steps mode := by
  rw [planBranches] at planned
  split at planned
  · obtain ⟨inside, content, planned⟩ := bind_eq_ok planned
    obtain ⟨more, others, same⟩ := bind_eq_ok planned
    cases same
    exact arePlanned_body _ (body content) (later others)
  · cases block with
    | none => exact later planned
    | some block =>
      obtain ⟨inside, content, planned⟩ := bind_eq_ok planned
      obtain ⟨more, others, same⟩ := bind_eq_ok planned
      cases same
      exact arePlanned_body _ (body content) (later others)

private theorem other_arePlanned {context : Context} {node : Node} {rest : List Node} {labels : List String}
    {hasDefault : Bool} {mode : Mode} {steps : List Step} (other : ∀ branch, node ≠ .branch branch)
    (here : ∀ {mode step}, planNode context node mode = .ok step → step.IsPlanned context mode)
    (later : ∀ {labels hasDefault mode steps}, planBranches context rest labels hasDefault mode = .ok steps →
      ArePlanned context steps mode)
    (planned : planBranches context (node :: rest) labels hasDefault mode = .ok steps) :
    ArePlanned context steps mode := by
  rw [planBranches] at planned
  · obtain ⟨step, visited, planned⟩ := bind_eq_ok planned
    obtain ⟨more, others, same⟩ := bind_eq_ok planned
    cases same
    exact ⟨here visited, later others⟩
  · intro label block location same
    exact other _ same

mutual

theorem planNode_isPlanned {context : Context} (node : Node) {mode : Mode} {step : Step}
    (planned : planNode context node mode = .ok step) : step.IsPlanned context mode := by
  have made := planned
  match node with
  | .block ⟨nodes, place⟩ =>
    rw [planNode] at made
    obtain ⟨steps, inside, same⟩ := bind_eq_ok made
    cases same
    exact ⟨planned, planNodes_arePlanned nodes inside⟩
  | .tag ⟨name, attributes, ⟨nodes, place⟩, code, selfClosing, computed, location⟩ =>
    let tag : Tag Node := ⟨name, attributes, ⟨nodes, place⟩, code, selfClosing, computed, location⟩
    rw [planNode] at made
    have start := arePlanned_start context tag mode (mode.enterTag name).dialect.terse
    have between := modeAfterAll_start tag mode (mode.enterTag name).dialect.terse
    cases isVoid : selfClosing || (mode.enterTag name).dialect.isVoid name with
    | true =>
      simp only [isVoid, if_true] at made
      split at made
      · cases made
      · cases made
        exact ⟨planned, arePlanned_append start ⟨trivial, trivial⟩⟩
    | false =>
      simp only [isVoid, Bool.false_eq_true, if_false] at made
      obtain ⟨first, planFirst, made⟩ := bind_eq_ok made
      obtain ⟨rest, planRest, same⟩ := bind_eq_ok made
      cases same
      refine ⟨planned, arePlanned_append start ⟨trivial, ?_⟩⟩
      rw [between]
      have content := planNodes_arePlanned nodes planRest
      exact arePlanned_append (planFirst_arePlanned code planFirst)
        (arePlanned_append content (arePlanned_put context _ _))
  | .text content location =>
    rw [planNode] at made
    obtain ⟨sites, interpolated, same⟩ := bind_eq_ok made
    cases same
    exact ⟨planned, arePlanned_put context sites mode⟩
  | .code code =>
    rw [planNode] at made
    obtain ⟨steps, inside, same⟩ := bind_eq_ok made
    cases same
    exact ⟨planned, planCode_arePlanned code inside⟩
  | .each ⟨collection, item, key, ⟨nodes, place⟩, alternative, location⟩ =>
    rw [planNode] at made
    obtain ⟨steps, inside, made⟩ := bind_eq_ok made
    have loop := planNodes_arePlanned nodes inside
    match alternative with
    | none =>
      cases made
      exact ⟨planned, trivial, arePlanned_body _ loop trivial⟩
    | some ⟨others, elsewhere⟩ =>
      obtain ⟨rest, alternatively, same⟩ := bind_eq_ok made
      cases same
      have otherwise := planNodes_arePlanned others alternatively
      exact ⟨planned, trivial, trivial, arePlanned_body _ loop trivial, arePlanned_body _ otherwise trivial⟩
  | .selection ⟨subject, ⟨nodes, place⟩, location⟩ =>
    rw [planNode] at made
    obtain ⟨steps, inside, same⟩ := bind_eq_ok made
    cases same
    exact ⟨planned, trivial, planBranches_arePlanned nodes inside⟩
  | .branch ⟨label, block, location⟩ =>
    rw [planNode] at made
    obtain ⟨steps, inside, same⟩ := bind_eq_ok made
    cases same
    exact ⟨planned, arePlanned_body _ (planBody_arePlanned block inside) trivial⟩
  | .mixin ⟨name, parameters, block, attributes, call, location⟩ =>
    rw [planNode] at made
    obtain ⟨resolved, named, made⟩ := bind_eq_ok made
    obtain ⟨steps, inside, same⟩ := bind_eq_ok made
    cases same
    exact ⟨planned, planBody_arePlanned block inside⟩
  | .mixinBlock location =>
    cases made
    exact ⟨planned, trivial, trivial⟩
  | .doctype name location =>
    cases made
    exact ⟨planned, trivial, trivial, trivial⟩
  | .comment content buffered location =>
    cases made
    cases buffered
    · exact ⟨planned, trivial⟩
    · exact ⟨planned, trivial, trivial⟩
  | .blockComment ⟨content, ⟨nodes, place⟩, buffered, location⟩ =>
    rw [planNode] at made
    cases buffered with
    | false =>
      cases made
      exact ⟨planned, trivial⟩
    | true =>
      simp only [if_true] at made
      obtain ⟨steps, inside, same⟩ := bind_eq_ok made
      cases same
      exact ⟨planned, trivial, arePlanned_append (planNodes_arePlanned nodes inside) ⟨trivial, trivial⟩⟩
  | .filter filter =>
    rw [planNode] at made
    obtain ⟨sites, output, same⟩ := bind_eq_ok made
    cases same
    exact ⟨planned, arePlanned_put context sites mode⟩
  | .literal content location =>
    cases made
    exact ⟨planned, trivial, trivial⟩
termination_by structural node

theorem planNodes_arePlanned {context : Context} (nodes : List Node) {mode : Mode} {steps : List Step}
    (planned : planNodes context nodes mode = .ok steps) : ArePlanned context steps mode := by
  match nodes with
  | [] =>
    cases planned
    trivial
  | node :: rest =>
    rw [planNodes] at planned
    obtain ⟨step, here, planned⟩ := bind_eq_ok planned
    obtain ⟨more, later, same⟩ := bind_eq_ok planned
    cases same
    refine ⟨planNode_isPlanned node here, ?_⟩
    split
    · exact ⟨trivial, planNodes_arePlanned rest later⟩
    · exact planNodes_arePlanned rest later
termination_by structural nodes

theorem planCode_arePlanned {context : Context} (code : Code Node) {mode : Mode} {steps : List Step}
    (planned : planCode context code mode = .ok steps) : ArePlanned context steps mode := by
  match code with
  | ⟨source, buffered, escaped, block, location⟩ =>
    match block with
    | none =>
      cases planned
      cases buffered <;> exact ⟨trivial, trivial⟩
    | some ⟨nodes, place⟩ =>
      obtain ⟨inner, inside, same⟩ := bind_eq_ok planned
      have content := planNodes_arePlanned nodes inside
      cases buffered with
      | true =>
        cases same
        exact ⟨trivial, content, trivial⟩
      | false =>
        cases same
        exact arePlanned_body _ content trivial
termination_by structural code

theorem planFirst_arePlanned {context : Context} (code : Option (Code Node)) {mode : Mode} {steps : List Step}
    (planned : planFirst context code mode = .ok steps) : ArePlanned context steps mode := by
  match code with
  | none =>
    cases planned
    trivial
  | some code => exact planCode_arePlanned code planned
termination_by structural code

theorem planBody_arePlanned {context : Context} (block : Option (Block Node)) {mode : Mode} {steps : List Step}
    (planned : planBody context block mode = .ok steps) : ArePlanned context steps mode := by
  match block with
  | none =>
    cases planned
    trivial
  | some ⟨nodes, place⟩ => exact planNodes_arePlanned nodes planned
termination_by structural block

theorem planBranches_arePlanned {context : Context} (nodes : List Node) {labels : List String} {hasDefault : Bool}
    {mode : Mode} {steps : List Step} (planned : planBranches context nodes labels hasDefault mode = .ok steps) :
    ArePlanned context steps mode := by
  match nodes with
  | [] =>
    cases planned
    cases labels <;> cases hasDefault <;> simp [ArePlanned, Step.IsPlanned]
  | node :: rest =>
    have here := @planNode_isPlanned context node
    have later := @planBranches_arePlanned context rest
    cases node with
    | branch branch =>
      obtain ⟨label, block, location⟩ := branch
      exact branch_arePlanned (planBody_arePlanned block) later planned
    | _ => exact other_arePlanned (by simp) here later planned
termination_by structural nodes

end

mutual

/-- Each visit is a run of the walk over its node. -/
theorem visits_emit {context : Context} (step : Step) {state : State} (planned : step.IsPlanned context state.mode) :
    ∀ visit ∈ step.visits context state, emitNode context visit.node visit.before = .ok visit.after := by
  match step with
  | .put _ | .line _ | .blank | .mode _ => exact fun _ member => nomatch member
  | .nested steps | .body steps =>
    have inside : ArePlanned context steps state.indent.mode := planned
    exact visitsAll_emit steps inside
  | .mixin mixin steps =>
    have entered : ((state.enterMixin context mixin).indent).mode = state.mode := State.mode_enterMixin _ _ _
    rintro visit (_ | ⟨_, member⟩)
    · exact emitNode_of_planned planned.1
    · exact visitsAll_emit steps (by rw [entered]; exact planned.2) visit member
  | .visit node steps =>
    rintro visit (_ | ⟨_, member⟩)
    · exact emitNode_of_planned planned.1
    · exact visitsAll_emit steps planned.2 visit member
termination_by structural step

theorem visitsAll_emit {context : Context} (steps : List Step) {state : State}
    (planned : ArePlanned context steps state.mode) :
    ∀ visit ∈ visitsAll context steps state, emitNode context visit.node visit.before = .ok visit.after := by
  match steps with
  | [] => exact fun _ member => nomatch member
  | step :: rest =>
    intro visit member
    rcases List.mem_append.mp member with here | later
    · exact visits_emit step planned.1 visit here
    · exact visitsAll_emit rest (by rw [mode_run]; exact planned.2) visit later
termination_by structural steps

end

/-! The code grows along a walk. -/

namespace Visit

/-- One visit is part of another. -/
structure Encloses (outer inner : Visit) : Prop where
  begins : outer.before.draft.Grows inner.before.draft
  ends : inner.after.draft.Grows outer.after.draft

/-- One visit is over when another begins. -/
def Precedes (first second : Visit) : Prop := first.after.draft.Grows second.before.draft

/-- Two visits are nested, or one of them is over when the other begins. -/
def Related (first second : Visit) : Prop :=
  (first.Encloses second ∨ first.Precedes second) ∨ (second.Encloses first ∨ second.Precedes first)

instance : Std.Symm Related := ⟨fun _ _ => Or.symm⟩

end Visit

/-- Visits made on the way from one state to another. -/
structure Walked (before : State) (visits : List Visit) (after : State) : Prop where
  grows : before.draft.Grows after.draft
  begins : ∀ visit ∈ visits, before.draft.Grows visit.before.draft
  moves : ∀ visit ∈ visits, visit.before.draft.Grows visit.after.draft
  ends : ∀ visit ∈ visits, visit.after.draft.Grows after.draft
  ordered : visits.Pairwise fun first second => first.Encloses second ∨ first.Precedes second

namespace Walked

theorem quiet {before after : State} (grows : before.draft.Grows after.draft) : Walked before [] after where
  grows := grows
  begins := by simp
  moves := by simp
  ends := by simp
  ordered := .nil

theorem append {before between after : State} {first rest : List Visit} (here : Walked before first between)
    (later : Walked between rest after) : Walked before (first ++ rest) after where
  grows := here.grows.trans later.grows
  begins visit member := by
    rcases List.mem_append.mp member with member | member
    · exact here.begins visit member
    · exact here.grows.trans (later.begins visit member)
  moves visit member := by
    rcases List.mem_append.mp member with member | member
    · exact here.moves visit member
    · exact later.moves visit member
  ends visit member := by
    rcases List.mem_append.mp member with member | member
    · exact (here.ends visit member).trans later.grows
    · exact later.ends visit member
  ordered := by
    refine List.pairwise_append.mpr ⟨here.ordered, later.ordered, ?_⟩
    -- Whatever the first part visits is over when the second begins.
    intro visit member next following
    exact .inr ((here.ends visit member).trans (later.begins next following))

theorem around {outside before after behind : State} {visits : List Visit} (first : outside.draft.Grows before.draft)
    (walked : Walked before visits after) (last : after.draft.Grows behind.draft) : Walked outside visits behind := by
  have whole := (quiet first).append (walked.append (quiet last))
  simpa using whole

theorem visit {before after : State} {visits : List Visit} (node : Node) (walked : Walked before visits after) :
    Walked before (⟨node, before, after⟩ :: visits) after where
  grows := walked.grows
  begins := List.forall_mem_cons.mpr ⟨.refl _, walked.begins⟩
  moves := List.forall_mem_cons.mpr ⟨walked.grows, walked.moves⟩
  ends := List.forall_mem_cons.mpr ⟨.refl _, walked.ends⟩
  ordered := by
    refine List.pairwise_cons.mpr ⟨fun inner member => .inl ⟨?_, ?_⟩, walked.ordered⟩
    · exact walked.begins inner member
    · exact walked.ends inner member

theorem related {before after : State} {visits : List Visit} (walked : Walked before visits after)
    {first second : Visit} (one : first ∈ visits) (other : second ∈ visits) : first.Related second := by
  have every : visits.Pairwise Visit.Related := walked.ordered.imp fun ordered => .inl ordered
  have itself : ∀ visit ∈ visits, Visit.Related visit visit := fun visit _ => .inl (.inl ⟨.refl _, .refl _⟩)
  exact every.forall_of_forall itself one other

end Walked

theorem grows_put (state : State) (context : Context) (site : Site) :
    state.draft.Grows (state.put context site).draft := by
  change state.draft.Grows (state.draft.put (site.piece context))
  cases site.piece context with
  | text content => exact .appendText _ _
  | expr source => exact .append _ _

theorem grows_endBody (state inside : State) : inside.draft.Grows (state.endBody inside).draft := by
  unfold State.endBody
  split
  · exact (Nim.Draft.Grows.push _ _).trans (.dedent _)
  · exact .dedent _

@[simp] theorem State.draft_noteComputed (state : State) (mixin : Mixin Node) :
    (state.noteComputed mixin).draft = state.draft := by
  unfold State.noteComputed
  split <;> rfl

theorem grows_callAttributes (state : State) (context : Context) (mixin : Mixin Node) :
    state.draft.Grows (state.callAttributes context mixin).draft := by
  unfold State.callAttributes
  split
  · exact .refl _
  · rw [State.attributeTable_eq]
    exact .push _ _

/-- The head of a definition is a line of its own. -/
theorem draft_enterMixin_definition (state : State) (context : Context) {mixin : Mixin Node}
    (definition : mixin.call = false) : ∃ head, (state.enterMixin context mixin).draft = state.draft.push head := by
  rw [State.enterMixin, State.mixinHead, definition, if_neg (by simp), ← State.draft_noteComputed state mixin]
  exact ⟨_, rfl⟩

theorem grows_enterMixin (state : State) (context : Context) (mixin : Mixin Node) :
    state.draft.Grows (state.enterMixin context mixin).draft := by
  cases call : mixin.call with
  | false =>
    obtain ⟨head, same⟩ := draft_enterMixin_definition state context call
    rw [same]
    exact .push _ _
  | true =>
    rw [State.enterMixin, State.mixinHead, call, if_pos rfl, ← State.draft_noteComputed state mixin]
    let called := { state.noteComputed mixin with
      mixins := (state.noteComputed mixin).mixins.markUsed (resolvedName context mixin) }
    exact (grows_callAttributes called context mixin).trans (.push _ _)

theorem grows_mixinEnd (state : State) (mixin : Mixin Node) (name : String) (start : Nat) :
    state.draft.Grows (state.mixinEnd mixin name start).draft := by
  unfold State.mixinEnd
  split
  · split
    · exact .push _ _
    · exact .refl _
  · exact .push _ _

mutual

theorem run_walked (context : Context) (step : Step) (state : State) :
    Walked state (step.visits context state) (step.run context state) := by
  match step with
  | .put site => exact .quiet (grows_put state context site)
  | .line statement => exact .quiet (.push _ _)
  | .blank => exact .quiet (.push _ _)
  | .mode mode => exact .quiet (.refl _)
  | .nested steps => exact .around (.indent _) (runAll_walked context steps state.indent) (.dedent _)
  | .body steps => exact .around (.indent _) (runAll_walked context steps state.indent) (grows_endBody _ _)
  | .mixin mixin steps =>
    have entered : state.draft.Grows (state.enterMixin context mixin).indent.draft :=
      (grows_enterMixin state context mixin).trans (.indent _)
    have inside := runAll_walked context steps (state.enterMixin context mixin).indent
    exact (inside.around entered ((grows_endBody _ _).trans (grows_mixinEnd _ _ _ _))).visit _
  | .visit node steps => exact (runAll_walked context steps state).visit node
termination_by structural step

theorem runAll_walked (context : Context) (steps : List Step) (state : State) :
    Walked state (visitsAll context steps state) (runAll context steps state) := by
  match steps with
  | [] => exact .quiet (.refl _)
  | step :: rest => exact (run_walked context step state).append (runAll_walked context rest _)
termination_by structural steps

end

end NimTemplate.Compile
