import NimTemplate.Proofs.Buffer
import NimTemplate.Proofs.Filling
import NimTemplate.Proofs.StraightLine

/-! Walks as sequences of operations on the draft. The operations of a visit stand together, and
what is appended to the code is divided among the visits: each has a share of its own, without
what the visits inside it append. -/

namespace NimTemplate

namespace Nim.Operation

def ofPiece : Piece → Operation
  | .text content => .text content
  | .expr source => .expr source

/-- What an operation appends, if it does. -/
def piece? : Operation → Option Piece
  | text content => some (.text content)
  | expr source => some (.expr source)
  | _ => none

@[simp] theorem piece?_ofPiece (piece : Piece) : (ofPiece piece).piece? = some piece := by
  cases piece <;> rfl

theorem apply_ofPiece (draft : Draft) (piece : Piece) : (ofPiece piece).apply draft = draft.put piece := by
  cases piece <;> rfl

end Nim.Operation

namespace Compile

open Nim (Edit Operation)

def Site.operation (context : Context) (site : Site) : Operation := .ofPiece (site.piece context)

/-- The lines of a mixin before its content: perhaps a note on the attributes of a call, and the
head. -/
def mixinStart (context : Context) (mixin : Mixin Node) : List Operation :=
  let table := tableText context mixin.attributes.attrs
  let merged :=
    if mixin.attributes.blocks.isEmpty then table
    else "jade.merge(" ++ listText (table :: mixin.attributes.blocks) ++ ")"
  (if mixin.call && !mixin.attributes.isEmpty then [.line ("# FIXME unported mixin attributes: " ++ merged)] else []) ++
    [.line (mixinLine mixin (resolvedName context mixin))]

def mixinStop (mixin : Mixin Node) : List Operation :=
  if mixin.call && mixin.block.isNone && mixin.attributes.isEmpty then [] else [.blank]

/-- The end of a body that was begun in one state and led to the other. -/
def bodyStop (state inside : State) : List Operation :=
  (if inside.draft.size = state.draft.size then [.line "discard"] else []) ++ [.dedent]

mutual

/-- What a step does to the draft, in order. -/
def Step.operations (context : Context) : Step → State → List Operation
  | .put site, _ => [site.operation context]
  | .line statement, _ => [.line statement]
  | .blank, _ => [.blank]
  | .mode _, _ => []
  | .nested steps, state => .indent :: (operationsAll context steps state.indent ++ [.dedent])
  | .body steps, state =>
    .indent :: (operationsAll context steps state.indent ++ bodyStop state (runAll context steps state.indent))
  | .mixin mixin steps, state =>
    let head := state.enterMixin context mixin
    mixinStart context mixin ++ .indent :: (operationsAll context steps head.indent ++
      (bodyStop head (runAll context steps head.indent) ++ mixinStop mixin))
  | .visit _ steps, state => operationsAll context steps state

def operationsAll (context : Context) : List Step → State → List Operation
  | [], _ => []
  | step :: rest, state => step.operations context state ++ operationsAll context rest (step.run context state)

end

theorem operationsAll_append (context : Context) (first rest : List Step) (state : State) :
    operationsAll context (first ++ rest) state =
      operationsAll context first state ++ operationsAll context rest (runAll context first state) := by
  induction first generalizing state with
  | nil => rfl
  | cons step steps ih => simp [operationsAll, runAll, ih]

theorem draft_enterMixin (state : State) (context : Context) (mixin : Mixin Node) :
    (state.enterMixin context mixin).draft = (mixinStart context mixin).foldl Operation.apply state.draft := by
  rw [State.enterMixin, State.mixinHead, mixinStart, mixinLine, ← State.draft_noteComputed state mixin]
  cases mixin.call with
  | false => rfl
  | true =>
    simp only [if_true, Bool.true_and, State.callAttributes]
    cases mixin.attributes.isEmpty with
    | true => rfl
    | false =>
      rw [State.attributeTable_eq]
      rfl

theorem draft_mixinEnd (state : State) (mixin : Mixin Node) (name : String) (start : Nat) :
    (state.mixinEnd mixin name start).draft = (mixinStop mixin).foldl Operation.apply state.draft := by
  unfold State.mixinEnd mixinStop
  cases mixin.call with
  | false => rfl
  | true => cases mixin.block <;> cases mixin.attributes.isEmpty <;> rfl

theorem draft_endBody (state inside : State) :
    (state.endBody inside).draft = (bodyStop state inside).foldl Operation.apply inside.draft := by
  unfold State.endBody bodyStop
  split <;> rfl

mutual

theorem draft_run (context : Context) (step : Step) (state : State) :
    (step.run context state).draft = (step.operations context state).foldl Operation.apply state.draft := by
  match step with
  | .put site => exact (Operation.apply_ofPiece _ _).symm
  | .line _ | .blank | .mode _ => rfl
  | .nested steps =>
    rw [Step.operations, List.foldl_cons, List.foldl_append]
    exact congrArg Nim.Draft.dedent (draft_runAll context steps state.indent)
  | .body steps =>
    rw [Step.operations, List.foldl_cons, List.foldl_append, Step.run, draft_endBody,
      draft_runAll context steps state.indent]
    rfl
  | .mixin mixin steps =>
    rw [Step.operations, List.foldl_append, List.foldl_cons, List.foldl_append, List.foldl_append, Step.run,
      draft_mixinEnd, draft_endBody, draft_runAll context steps, ← draft_enterMixin]
    rfl
  | .visit node steps => exact draft_runAll context steps state
termination_by structural step

theorem draft_runAll (context : Context) (steps : List Step) (state : State) :
    (runAll context steps state).draft = (operationsAll context steps state).foldl Operation.apply state.draft := by
  match steps with
  | [] => rfl
  | step :: rest =>
    rw [runAll, operationsAll, List.foldl_append, draft_runAll context rest, draft_run context step]
termination_by structural steps

end

/-- The code of a template is what a buffer holds that the operations of the walk are written to, when
the definitions without calls are erased from it. -/
theorem source_eq_buffer {context : Context} {root : Node} {output : Output}
    (compiled : compile context root = .ok output) :
    ∃ step state, planNode context root (.initial context.options) = .ok step ∧
      emitNode context root (.initial context.options) = .ok state ∧
      output.source = (((step.operations context (.initial context.options)).map Edit.perform ++
        state.mixins.unused.map Edit.erase).foldl Edit.write .empty).source := by
  obtain ⟨state, emitted, same⟩ := compile_eq_ok compiled
  obtain ⟨step, planned, rfl⟩ := planned_of_emitted emitted
  refine ⟨step, _, planned, emitted, ?_⟩
  have stores := Nim.Buffer.Stores.empty.run ((step.operations context (.initial context.options)).map .perform ++
    (step.run context (.initial context.options)).mixins.unused.map .erase)
  rw [same, Nim.Draft.source, Nim.Buffer.source, stores.lines, State.finished, draft_run, List.foldl_append,
    List.foldl_map, List.foldl_map]
  rfl

theorem pieces_mixinStart (context : Context) (mixin : Mixin Node) :
    (mixinStart context mixin).filterMap Operation.piece? = [] := by
  unfold mixinStart
  cases mixin.call && !mixin.attributes.isEmpty <;> rfl

theorem pieces_bodyStop (state inside : State) : (bodyStop state inside).filterMap Operation.piece? = [] := by
  unfold bodyStop
  split <;> rfl

theorem pieces_mixinStop (mixin : Mixin Node) : (mixinStop mixin).filterMap Operation.piece? = [] := by
  unfold mixinStop
  split <;> rfl

mutual

/-- Only sites are appended. -/
theorem pieces_operations (context : Context) (step : Step) (state : State) :
    (step.operations context state).filterMap Operation.piece? = step.sites.map (Site.piece context) := by
  match step with
  | .put site => exact List.filterMap_cons_some (Operation.piece?_ofPiece _)
  | .line _ | .blank | .mode _ => rfl
  | .nested steps =>
    rw [Step.operations, List.filterMap_cons_none rfl, List.filterMap_append, pieces_operationsAll context steps]
    exact List.append_nil _
  | .body steps =>
    rw [Step.operations, List.filterMap_cons_none rfl, List.filterMap_append, pieces_operationsAll context steps,
      pieces_bodyStop]
    exact List.append_nil _
  | .mixin mixin steps =>
    rw [Step.operations, List.filterMap_append, pieces_mixinStart, List.filterMap_cons_none rfl, List.filterMap_append,
      List.filterMap_append, pieces_operationsAll context steps, pieces_bodyStop, pieces_mixinStop]
    exact List.append_nil _
  | .visit node steps => exact pieces_operationsAll context steps state
termination_by structural step

theorem pieces_operationsAll (context : Context) (steps : List Step) (state : State) :
    (operationsAll context steps state).filterMap Operation.piece? = (sitesOf steps).map (Site.piece context) := by
  match steps with
  | [] => rfl
  | step :: rest =>
    rw [operationsAll, sitesOf, List.filterMap_append, List.map_append, pieces_operations context step,
      pieces_operationsAll context rest]
termination_by structural steps

end

mutual

theorem operations_flat (context : Context) (step : Step) (flat : step.isFlat) (state : State) :
    step.operations context state = step.sites.map (Site.operation context) := by
  match step with
  | .put _ | .mode _ => rfl
  | .visit node steps => exact operationsAll_flat context steps flat state
  | .line _ | .blank | .nested _ | .body _ | .mixin _ _ => simp [Step.isFlat] at flat
termination_by structural step

theorem operationsAll_flat (context : Context) (steps : List Step) (flat : allFlat steps) (state : State) :
    operationsAll context steps state = (sitesOf steps).map (Site.operation context) := by
  match steps with
  | [] => rfl
  | step :: rest =>
    simp only [allFlat, Bool.and_eq_true] at flat
    rw [operationsAll, sitesOf, List.map_append, operations_flat context step flat.1,
      operationsAll_flat context rest flat.2]
termination_by structural steps

end

/-! The operations of a visit. -/

/-- The operations hold those of a visit together, and those before them lead to the state in
which the visit begins. -/
def Visit.IsPerformed (context : Context) (visit : Visit) (draft : Nim.Draft) (operations : List Operation) : Prop :=
  ∃ step done more, planNode context visit.node visit.before.mode = .ok step ∧
    operations = done ++ (step.operations context visit.before ++ more) ∧
    visit.before.draft = done.foldl Operation.apply draft

theorem Visit.draft_after {context : Context} {visit : Visit} {step : Step}
    (planned : planNode context visit.node visit.before.mode = .ok step)
    (emitted : emitNode context visit.node visit.before = .ok visit.after) :
    visit.after.draft = (step.operations context visit.before).foldl Operation.apply visit.before.draft := by
  obtain ⟨other, made, after⟩ := planned_of_emitted emitted
  obtain rfl : step = other := Except.ok.inj (planned.symm.trans made)
  rw [after, draft_run]

theorem Visit.IsPerformed.around {context : Context} {visit : Visit} {outside draft : Nim.Draft} {operations : List Operation}
    (performed : visit.IsPerformed context draft operations) (first last : List Operation)
    (leads : first.foldl Operation.apply outside = draft) :
    visit.IsPerformed context outside (first ++ (operations ++ last)) := by
  obtain ⟨step, done, more, planned, rfl, before⟩ := performed
  refine ⟨step, first ++ done, more ++ last, planned, by simp, ?_⟩
  rw [List.foldl_append, leads]
  exact before

mutual

theorem visits_performed {context : Context} (step : Step) {state : State} (planned : step.IsPlanned context state.mode) :
    ∀ visit ∈ step.visits context state, visit.IsPerformed context state.draft (step.operations context state) := by
  match step with
  | .put _ | .line _ | .blank | .mode _ => exact fun _ member => nomatch member
  | .nested steps =>
    intro visit member
    have inside : ArePlanned context steps state.indent.mode := planned
    exact (visitsAll_performed steps inside visit member).around [.indent] [.dedent] rfl
  | .body steps =>
    intro visit member
    have inside : ArePlanned context steps state.indent.mode := planned
    exact (visitsAll_performed steps inside visit member).around [.indent] _ rfl
  | .mixin mixin steps =>
    have entered : ((state.enterMixin context mixin).indent).mode = state.mode := State.mode_enterMixin _ _ _
    intro visit member
    rcases List.mem_cons.mp member with rfl | member
    · exact ⟨_, [], [], planned.1, by simp, rfl⟩
    · have inside := visitsAll_performed steps (by rw [entered]; exact planned.2) visit member
      have leads : (mixinStart context mixin ++ [Operation.indent]).foldl Operation.apply state.draft =
          (state.enterMixin context mixin).indent.draft := by
        rw [List.foldl_append, ← draft_enterMixin]
        rfl
      have whole := inside.around _ (bodyStop (state.enterMixin context mixin)
        (runAll context steps (state.enterMixin context mixin).indent) ++ mixinStop mixin) leads
      rw [List.append_assoc] at whole
      exact whole
  | .visit node steps =>
    intro visit member
    rcases List.mem_cons.mp member with rfl | member
    · exact ⟨_, [], [], planned.1, by simp, rfl⟩
    · exact visitsAll_performed steps planned.2 visit member
termination_by structural step

theorem visitsAll_performed {context : Context} (steps : List Step) {state : State}
    (planned : ArePlanned context steps state.mode) :
    ∀ visit ∈ visitsAll context steps state,
      visit.IsPerformed context state.draft (operationsAll context steps state) := by
  match steps with
  | [] => exact fun _ member => nomatch member
  | step :: rest =>
    intro visit member
    rcases List.mem_append.mp member with here | later
    · exact (visits_performed step planned.1 visit here).around [] _ rfl
    · have behind := visitsAll_performed rest (by rw [mode_run]; exact planned.2) visit later
      have whole := behind.around (step.operations context state) [] (draft_run context step state).symm
      rwa [List.append_nil] at whole
termination_by structural steps

end

/-! The shares of visits. -/

mutual

/-- The sites of a step without those of the visits inside it. -/
def Step.own : Step → List Site
  | .put site => [site]
  | .nested steps | .body steps => ownAll steps
  | _ => []

def ownAll : List Step → List Site
  | [] => []
  | step :: rest => step.own ++ ownAll rest

end

@[simp] theorem ownAll_append (first rest : List Step) : ownAll (first ++ rest) = ownAll first ++ ownAll rest := by
  induction first with
  | nil => rfl
  | cons step steps ih => simp [ownAll, ih]

@[simp] theorem ownAll_put (sites : List Site) : ownAll (sites.map .put) = sites := by
  induction sites with
  | nil => rfl
  | cons site sites ih => simp [ownAll, Step.own, ih]

/-- What the visit that a step stands for appends itself. -/
def Step.share : Step → List Site
  | .mixin _ steps | .visit _ steps => ownAll steps
  | _ => []

def Visit.share (context : Context) (visit : Visit) : List Site :=
  match planNode context visit.node visit.before.mode with
  | .ok step => step.share
  | .error _ => []

theorem Visit.share_of_planned {context : Context} {visit : Visit} {step : Step}
    (planned : planNode context visit.node visit.before.mode = .ok step) : visit.share context = step.share := by
  rw [share, planned]

mutual

/-- Nothing is appended but the shares of the visits. -/
theorem sites_perm_shares {context : Context} (step : Step) {state : State} (planned : step.IsPlanned context state.mode) :
    step.sites.Perm (step.own ++ (step.visits context state).flatMap (Visit.share context)) := by
  match step with
  | .put _ | .line _ | .blank | .mode _ => exact .refl _
  | .nested steps | .body steps =>
    have inside : ArePlanned context steps state.indent.mode := planned
    exact sitesOf_perm_shares steps inside
  | .mixin mixin steps =>
    have entered : ((state.enterMixin context mixin).indent).mode = state.mode := State.mode_enterMixin _ _ _
    have here : Visit.share context ⟨.mixin mixin, state, (Step.mixin mixin steps).run context state⟩ = _ :=
      Visit.share_of_planned planned.1
    rw [Step.visits, List.flatMap_cons, here]
    exact sitesOf_perm_shares steps (by rw [entered]; exact planned.2)
  | .visit node steps =>
    have here : Visit.share context ⟨node, state, runAll context steps state⟩ = _ := Visit.share_of_planned planned.1
    rw [Step.visits, List.flatMap_cons, here]
    exact sitesOf_perm_shares steps planned.2
termination_by structural step

theorem sitesOf_perm_shares {context : Context} (steps : List Step) {state : State}
    (planned : ArePlanned context steps state.mode) :
    (sitesOf steps).Perm (ownAll steps ++ (visitsAll context steps state).flatMap (Visit.share context)) := by
  match steps with
  | [] => exact .refl _
  | step :: rest =>
    have here := sites_perm_shares step planned.1
    have later := sitesOf_perm_shares rest (by rw [mode_run context step state]; exact planned.2)
    rw [sitesOf, ownAll, visitsAll, List.flatMap_append, List.append_assoc]
    -- Own sites of the later steps move before what the visits of the first one append.
    refine (here.append later).trans ?_
    rw [List.append_assoc]
    exact (List.perm_append_comm_assoc _ _ _).append_left _
termination_by structural steps

end

end Compile

end NimTemplate
