import NimTemplate.Proofs.Operations

/-! What happens in a walk: the nodes it comes to and the levels it leaves, each with the state at that
moment. Walks that fail have events up to the failure. In a walk that succeeds these are the events of
its plan, and the levels are left by the operations on the draft. -/

namespace NimTemplate.Nim

/-- The drafts in which operations leave a level. -/
def leavings : Draft → List Operation → List Draft
  | _, [] => []
  | draft, .dedent :: rest => draft :: leavings draft.dedent rest
  | draft, operation :: rest => leavings (operation.apply draft) rest

theorem leavings_append (draft : Draft) (first rest : List Operation) :
    leavings draft (first ++ rest) = leavings draft first ++ leavings (first.foldl Operation.apply draft) rest := by
  induction first generalizing draft with
  | nil => rfl
  | cons operation first ih =>
    cases operation with
    | dedent => exact congrArg (draft :: ·) (ih _)
    | indent | line | blank | text | expr => exact ih _

end NimTemplate.Nim

namespace NimTemplate.Compile

open Nim (leavings leavings_append)

inductive Event where
  | visit (node : Node) (state : State)
  | dedent (state : State)

def Event.state : Event → State
  | visit _ state | dedent state => state

/-- What happens behind something, unless it failed. -/
def onward (result : Except Error State) (next : State → List Event) : List Event :=
  match result with
  | .ok state => next state
  | .error _ => []

/-- The state at the end of a body, which is not without a line. -/
def State.filled (state inside : State) : State :=
  if inside.draft.size = state.draft.size then inside.line "discard" else inside

def State.bodyEvents (state : State) (content : State → Except Error State) (inside : State → List Event) :
    List Event :=
  inside state.indent ++ onward (content state.indent) fun done => [.dedent (state.filled done)]

mutual

def nodeEvents (context : Context) : Node → State → List Event
  | .block ⟨nodes, place⟩, state => .visit (.block ⟨nodes, place⟩) state :: nodesEvents context nodes state
  | .tag ⟨name, attributes, ⟨nodes, place⟩, code, selfClosing, computed, location⟩, state =>
    let tag : Tag Node := ⟨name, attributes, ⟨nodes, place⟩, code, selfClosing, computed, location⟩
    let entered := state.enterTag name
    .visit (.tag tag) state ::
      if selfClosing || entered.dialect.isVoid name then []
      else
        let started := (((entered.text "<").tagName context tag).attributes context attributes location).text ">"
        match code with
        | none => nodesEvents context nodes started
        | some code =>
          codeEvents context code started ++ onward (emitCode context code started) (nodesEvents context nodes)
  | .code code, state => .visit (.code code) state :: codeEvents context code state
  | .each ⟨collection, item, key, ⟨nodes, place⟩, alternative, location⟩, state =>
    let each : Each Node := ⟨collection, item, key, ⟨nodes, place⟩, alternative, location⟩
    let collection := Nim.normalizeQuotes collection
    let noted := state.line ("# iterate " ++ collection)
    .visit (.each each) state ::
      match alternative with
      | none =>
        (noted.line (loopHead each collection)).bodyEvents (emitNodes context nodes) (nodesEvents context nodes)
      | some ⟨others, _⟩ =>
        let loop := ((noted.line ("if " ++ collection ++ ".len > 0:")).indent).line (loopHead each collection)
        loop.bodyEvents (emitNodes context nodes) (nodesEvents context nodes) ++
          onward (loop.body (emitNodes context nodes)) fun done =>
            .dedent done.blank ::
              (done.blank.dedent.line "else:").bodyEvents (emitNodes context others) (nodesEvents context others)
  | .selection ⟨subject, ⟨nodes, place⟩, location⟩, state =>
    .visit (.selection ⟨subject, ⟨nodes, place⟩, location⟩) state ::
      branchesEvents context nodes [] false (state.line ("case (" ++ Nim.normalizeQuotes subject ++ ")"))
  | .branch ⟨label, block, location⟩, state =>
    let branch : Branch Node := ⟨label, block, location⟩
    let head := if branch.isDefault then "else:" else branchHead [Nim.normalizeQuotes label]
    .visit (.branch branch) state :: blockEvents context block (state.line head)
  | .mixin ⟨name, parameters, block, attributes, call, location⟩, state =>
    let mixin : Mixin Node := ⟨name, parameters, block, attributes, call, location⟩
    let noted := if mixin.isComputed then { state with mixins := state.mixins.markComputed } else state
    .visit (.mixin mixin) state ::
      match mixinName context mixin with
      | .ok name => blockEvents context block (noted.mixinHead context mixin name)
      | .error _ => []
  | .blockComment ⟨content, ⟨nodes, place⟩, buffered, location⟩, state =>
    .visit (.blockComment ⟨content, ⟨nodes, place⟩, buffered, location⟩) state ::
      if buffered then nodesEvents context nodes (state.text ("<!--" ++ content)) else []
  | .text content location, state => [.visit (.text content location) state]
  | .mixinBlock location, state => [.visit (.mixinBlock location) state]
  | .doctype name location, state => [.visit (.doctype name location) state]
  | .comment content buffered location, state => [.visit (.comment content buffered location) state]
  | .filter filter, state => [.visit (.filter filter) state]
  | .literal content location, state => [.visit (.literal content location) state]

def nodesEvents (context : Context) : List Node → State → List Event
  | [], _ => []
  | node :: rest, state =>
    nodeEvents context node state ++ onward (emitNode context node state) fun done =>
      nodesEvents context rest (if node.isText && rest.head?.any Node.isText then done.text "\n" else done)

def codeEvents (context : Context) : Code Node → State → List Event
  | ⟨source, buffered, escaped, block, location⟩, state =>
    let shown := state.code context ⟨source, buffered, escaped, block, location⟩
    match block with
    | none => []
    | some ⟨nodes, _⟩ =>
      if buffered then
        nodesEvents context nodes shown.indent ++ onward (emitNodes context nodes shown.indent) fun done => [.dedent done]
      else shown.bodyEvents (emitNodes context nodes) (nodesEvents context nodes)

def blockEvents (context : Context) : Option (Block Node) → State → List Event
  | none, state => state.bodyEvents pure fun _ => []
  | some ⟨nodes, _⟩, state => state.bodyEvents (emitNodes context nodes) (nodesEvents context nodes)

def branchesEvents (context : Context) : List Node → List String → Bool → State → List Event
  | [], labels, _, state =>
    if labels.isEmpty then [] else (state.line (branchHead labels)).bodyEvents pure fun _ => []
  | .branch ⟨label, block, location⟩ :: rest, labels, hasDefault, state =>
    let branch : Branch Node := ⟨label, block, location⟩
    if branch.isDefault then
      blockEvents context block (state.line "else:") ++
        onward (emitBody context block (state.line "else:")) fun done =>
          branchesEvents context rest [] true done.blank
    else
      let labels := labels ++ [Nim.normalizeQuotes label]
      match block with
      | none => branchesEvents context rest labels hasDefault state
      | some ⟨nodes, _⟩ =>
        (state.line (branchHead labels)).bodyEvents (emitNodes context nodes) (nodesEvents context nodes) ++
          onward ((state.line (branchHead labels)).body (emitNodes context nodes)) fun done =>
            branchesEvents context rest [] hasDefault done.blank
  | node :: rest, labels, hasDefault, state =>
    nodeEvents context node state ++ onward (emitNode context node state) (branchesEvents context rest labels hasDefault)

end

/-! The events of a plan. -/

mutual

def Step.events (context : Context) : Step → State → List Event
  | .nested steps, state => eventsAll context steps state.indent ++ [.dedent (runAll context steps state.indent)]
  | .body steps, state =>
    eventsAll context steps state.indent ++ [.dedent (state.filled (runAll context steps state.indent))]
  | .mixin mixin steps, state =>
    let head := state.enterMixin context mixin
    .visit (.mixin mixin) state ::
      (eventsAll context steps head.indent ++ [.dedent (head.filled (runAll context steps head.indent))])
  | .visit node steps, state => .visit node state :: eventsAll context steps state
  | _, _ => []

def eventsAll (context : Context) : List Step → State → List Event
  | [], _ => []
  | step :: rest, state => step.events context state ++ eventsAll context rest (step.run context state)

end

theorem eventsAll_append (context : Context) (first rest : List Step) (state : State) :
    eventsAll context (first ++ rest) state =
      eventsAll context first state ++ eventsAll context rest (runAll context first state) := by
  induction first generalizing state with
  | nil => rfl
  | cons step steps ih => simp [eventsAll, runAll, ih]

@[simp] theorem events_put (context : Context) (site : Site) (state : State) :
    (Step.put site).events context state = [] := rfl

@[simp] theorem eventsAll_put (context : Context) (sites : List Site) (state : State) :
    eventsAll context (sites.map .put) state = [] := by
  induction sites generalizing state with
  | nil => rfl
  | cons site sites ih => exact ih _

section

variable {context : Context} {emit : State → Except Error State} {plan : Mode → Except Error (List Step)}
  (follows : Follows context emit plan) (state : State) {steps : List Step} (planned : plan state.mode = .ok steps)

include follows planned

theorem Follows.emitted : emit state = .ok (runAll context steps state) := by
  rw [follows, planned]
  rfl

theorem Follows.bodyEmitted : state.body emit = .ok ((Step.body steps).run context state) := by
  rw [follows.body, planned]
  rfl

theorem bodyEvents_of_planned {inside : State → List Event}
    (same : inside state.indent = eventsAll context steps state.indent) :
    state.bodyEvents emit inside = (Step.body steps).events context state := by
  have emitted : emit state.indent = .ok (runAll context steps state.indent) := follows.emitted state.indent planned
  rw [State.bodyEvents, emitted, same]
  rfl

end

theorem eventsAll_start (context : Context) (tag : Tag Node) (mode : Mode) (terse : Bool) (state : State) :
    eventsAll context (enterSteps mode tag.name ++ (startTag tag terse).map .put) state = [] := by
  rw [eventsAll_append, eventsAll_put, enterSteps]
  split <;> rfl

private theorem tagEvents_of_planned {context : Context} {tag : Tag Node} {state : State} {step : Step}
    (code : ∀ code, tag.code = some code → ∀ state steps, planCode context code state.mode = .ok steps →
      codeEvents context code state = eventsAll context steps state)
    (content : ∀ state steps, planNodes context tag.block.nodes state.mode = .ok steps →
      nodesEvents context tag.block.nodes state = eventsAll context steps state)
    (planned : planNode context (.tag tag) state.mode = .ok step) :
    nodeEvents context (.tag tag) state = step.events context state := by
  have started := start_follows context tag state
  have quiet := eventsAll_start context tag state.mode (state.mode.enterTag tag.name).dialect.terse state
  have kept := congrArg State.mode started
  rw [State.startTag_eq, State.mode_putAll, State.mode_enterTag] at kept
  have outer : (state.enterTag tag.name).dialect = (state.mode.enterTag tag.name).dialect :=
    congrArg Mode.dialect (State.mode_enterTag state tag.name)
  obtain ⟨name, attributes, ⟨nodes, place⟩, first, selfClosing, computed, location⟩ := tag
  rw [planNode] at planned
  rw [nodeEvents, outer, started]
  cases isVoid : selfClosing || (state.mode.enterTag name).dialect.isVoid name with
  | true =>
    simp only [isVoid, if_true] at planned ⊢
    split at planned
    · cases planned
    · cases planned
      rw [Step.events, eventsAll_append, quiet]
      rfl
  | false =>
    simp only [isVoid, Bool.false_eq_true, if_false] at planned ⊢
    obtain ⟨early, planFirst, planned⟩ := bind_eq_ok planned
    obtain ⟨rest, planRest, same⟩ := bind_eq_ok planned
    cases same
    rw [Step.events, eventsAll_append, quiet, List.nil_append, State.text_eq _ context, eventsAll, events_put,
      List.nil_append, eventsAll_append, eventsAll_append, eventsAll_put, List.append_nil, Step.run]
    generalize opened : State.put _ context (.text ">") = inside
    have mode : inside.mode = state.mode.enterTag name := by
      rw [← opened]
      exact kept.symm
    rw [← mode] at planFirst planRest
    cases first with
    | none =>
      cases planFirst
      exact congrArg _ (content inside rest planRest)
    | some written =>
      rw [← mode_runAll context] at planRest
      simp only
      rw [code written rfl inside early planFirst, (emitCode_follows context written).emitted inside planFirst, onward,
        content _ rest planRest]

private theorem eachEvents_of_planned {context : Context} {each : Each Node} {state : State} {step : Step}
    (content : ∀ state steps, planNodes context each.block.nodes state.mode = .ok steps →
      nodesEvents context each.block.nodes state = eventsAll context steps state)
    (others : ∀ block, each.alternative = some block → ∀ state steps,
      planNodes context block.nodes state.mode = .ok steps →
        nodesEvents context block.nodes state = eventsAll context steps state)
    (planned : planNode context (.each each) state.mode = .ok step) :
    nodeEvents context (.each each) state = step.events context state := by
  obtain ⟨collection, item, key, ⟨nodes, place⟩, alternative, location⟩ := each
  rw [planNode] at planned
  obtain ⟨steps, inside, planned⟩ := bind_eq_ok planned
  have loop : ∀ state : State, planNodes context nodes state.mode = .ok steps →
      state.bodyEvents (emitNodes context nodes) (nodesEvents context nodes) = (Step.body steps).events context state :=
    fun state inside => bodyEvents_of_planned (emitNodes_follows context nodes) state inside (content state.indent steps inside)
  cases alternative with
  | none =>
    cases planned
    simp only [nodeEvents]
    rw [loop ((state.line _).line _) inside]
    exact congrArg _ (List.append_nil _).symm
  | some block =>
    obtain ⟨more, otherwise, same⟩ := bind_eq_ok planned
    cases same
    simp only [nodeEvents]
    generalize start : ((state.line _).line _).indent.line _ = begun
    have inside : planNodes context nodes begun.mode = .ok steps := start ▸ inside
    let ended := ((Step.body steps).run context begun).blank.dedent.line "else:"
    have otherwise : planNodes context block.nodes ended.mode = .ok more := by
      have behind : ended.mode = modeAfterAll steps begun.mode := mode_run context (.body steps) begun
      rw [behind, ← start]
      exact otherwise
    have rest := bodyEvents_of_planned (emitNodes_follows context block.nodes) ended otherwise
      (others block rfl ended.indent more otherwise)
    rw [loop begun inside, (emitNodes_follows context nodes).bodyEmitted begun inside, onward, rest]
    subst start
    simp [Step.events, eventsAll, Step.run, runAll, ended]

private theorem branchEvents_of_planned {context : Context} {label : String} {block : Option (Block Node)}
    {location : Location} {rest : List Node} {labels : List String} {hasDefault : Bool} {state : State} {steps : List Step}
    (body : ∀ state steps, planBody context block state.mode = .ok steps →
      blockEvents context block state = (Step.body steps).events context state)
    (later : ∀ labels hasDefault state steps, planBranches context rest labels hasDefault state.mode = .ok steps →
      branchesEvents context rest labels hasDefault state = eventsAll context steps state)
    (planned : planBranches context (.branch ⟨label, block, location⟩ :: rest) labels hasDefault state.mode = .ok steps) :
    branchesEvents context (.branch ⟨label, block, location⟩ :: rest) labels hasDefault state =
      eventsAll context steps state := by
  -- A body with its head, and the branches behind it.
  have behind : ∀ {head : String} {hasDefault : Bool} {inside more : List Step},
      planBody context block state.mode = .ok inside →
      planBranches context rest [] hasDefault (modeAfterAll inside state.mode) = .ok more →
      blockEvents context block (state.line head) ++
          onward (emitBody context block (state.line head)) (fun done => branchesEvents context rest [] hasDefault done.blank) =
        eventsAll context (.line head :: .body inside :: .blank :: more) state := by
    intro head hasDefault inside more content others
    have follows := emitBody_follows context block (state.line head)
    rw [State.mode_line, content] at follows
    rw [body (state.line head) inside content, follows]
    refine congrArg _ (later [] hasDefault ((Step.body inside).run context (state.line head)).blank more ?_)
    rw [State.mode_blank, mode_run]
    exact others
  rw [planBranches] at planned
  rw [branchesEvents]
  split at planned
  next default =>
    obtain ⟨inside, content, planned⟩ := bind_eq_ok planned
    obtain ⟨more, others, same⟩ := bind_eq_ok planned
    cases same
    rw [if_pos default]
    exact behind content others
  next other =>
    rw [if_neg other]
    cases block with
    | none => exact later _ _ state steps planned
    | some block =>
      obtain ⟨inside, content, planned⟩ := bind_eq_ok planned
      obtain ⟨more, others, same⟩ := bind_eq_ok planned
      cases same
      exact behind content others

private theorem otherEvents_of_planned {context : Context} {node : Node} {rest : List Node} {labels : List String}
    {hasDefault : Bool} {state : State} {steps : List Step} (other : ∀ branch, node ≠ .branch branch)
    (here : ∀ state step, planNode context node state.mode = .ok step → nodeEvents context node state = step.events context state)
    (later : ∀ state steps, planBranches context rest labels hasDefault state.mode = .ok steps →
      branchesEvents context rest labels hasDefault state = eventsAll context steps state)
    (planned : planBranches context (node :: rest) labels hasDefault state.mode = .ok steps) :
    branchesEvents context (node :: rest) labels hasDefault state = eventsAll context steps state := by
  have skipped : ∀ label block location, node = .branch ⟨label, block, location⟩ → False :=
    fun _ _ _ same => other _ same
  rw [planBranches.eq_3 _ _ _ _ _ _ skipped] at planned
  obtain ⟨step, visited, planned⟩ := bind_eq_ok planned
  obtain ⟨more, others, same⟩ := bind_eq_ok planned
  cases same
  rw [← mode_run context] at others
  rw [branchesEvents.eq_3 _ _ _ _ _ _ skipped, here state step visited, emitNode_of_planned visited, onward,
    later _ more others, eventsAll]

mutual

theorem nodeEvents_of_planned {context : Context} (node : Node) (state : State) {step : Step}
    (planned : planNode context node state.mode = .ok step) : nodeEvents context node state = step.events context state := by
  match node with
  | .block ⟨nodes, place⟩ =>
    rw [planNode] at planned
    obtain ⟨steps, inside, same⟩ := bind_eq_ok planned
    cases same
    rw [nodeEvents, nodesEvents_of_planned nodes state inside]
    rfl
  | .tag ⟨name, attributes, ⟨nodes, place⟩, none, selfClosing, computed, location⟩ =>
    refine tagEvents_of_planned ?_ (fun state _ => nodesEvents_of_planned nodes state) planned
    intro code written
    cases written
  | .tag ⟨name, attributes, ⟨nodes, place⟩, some code, selfClosing, computed, location⟩ =>
    refine tagEvents_of_planned ?_ (fun state _ => nodesEvents_of_planned nodes state) planned
    intro _ written state steps
    cases written
    exact codeEvents_of_planned code state
  | .text content location =>
    rw [planNode] at planned
    obtain ⟨sites, _, same⟩ := bind_eq_ok planned
    cases same
    rw [nodeEvents, Step.events, eventsAll_put]
  | .code code =>
    rw [planNode] at planned
    obtain ⟨steps, inside, same⟩ := bind_eq_ok planned
    cases same
    rw [nodeEvents, codeEvents_of_planned code state inside]
    rfl
  | .each ⟨collection, item, key, ⟨nodes, place⟩, none, location⟩ =>
    refine eachEvents_of_planned (fun state _ => nodesEvents_of_planned nodes state) ?_ planned
    intro block written
    cases written
  | .each ⟨collection, item, key, ⟨nodes, place⟩, some ⟨others, elsewhere⟩, location⟩ =>
    refine eachEvents_of_planned (fun state _ => nodesEvents_of_planned nodes state) ?_ planned
    intro _ written state steps
    cases written
    exact nodesEvents_of_planned others state
  | .selection ⟨subject, ⟨nodes, place⟩, location⟩ =>
    rw [planNode] at planned
    obtain ⟨steps, inside, same⟩ := bind_eq_ok planned
    cases same
    rw [nodeEvents, branchesEvents_of_planned nodes (state.line _) inside]
    rfl
  | .branch ⟨label, block, location⟩ =>
    rw [planNode] at planned
    obtain ⟨steps, inside, same⟩ := bind_eq_ok planned
    cases same
    simp only [nodeEvents]
    rw [blockEvents_of_planned block (state.line _) inside]
    exact congrArg _ (List.append_nil _).symm
  | .mixin ⟨name, parameters, block, attributes, call, location⟩ =>
    rw [planNode] at planned
    obtain ⟨resolved, named, planned⟩ := bind_eq_ok planned
    obtain ⟨steps, inside, same⟩ := bind_eq_ok planned
    cases same
    let mixin : Mixin Node := ⟨name, parameters, block, attributes, call, location⟩
    have entered : (state.noteComputed mixin).mixinHead context mixin resolved = state.enterMixin context mixin := by
      rw [State.enterMixin, resolvedName, named]
      rfl
    have content := blockEvents_of_planned block (state.enterMixin context mixin)
      ((congrArg (planBody context block) (State.mode_enterMixin state context mixin)).trans inside)
    rw [nodeEvents, named]
    exact congrArg _ ((congrArg (blockEvents context block) entered).trans content)
  | .blockComment ⟨content, ⟨nodes, place⟩, buffered, location⟩ =>
    rw [planNode] at planned
    cases buffered with
    | false =>
      cases planned
      rfl
    | true =>
      simp only [if_true] at planned
      obtain ⟨steps, inside, same⟩ := bind_eq_ok planned
      cases same
      have content := nodesEvents_of_planned nodes (state.put context (.text ("<!--" ++ content))) inside
      rw [nodeEvents, if_pos rfl, State.text_eq _ context, content, Step.events, eventsAll, eventsAll_append]
      exact congrArg _ (List.append_nil _).symm
  | .filter filter =>
    rw [planNode] at planned
    obtain ⟨sites, _, same⟩ := bind_eq_ok planned
    cases same
    rw [nodeEvents, Step.events, eventsAll_put]
  | .comment content buffered location =>
    cases planned
    cases buffered <;> rfl
  | .mixinBlock _ | .doctype _ _ | .literal _ _ =>
    cases planned
    rfl
termination_by structural node

theorem nodesEvents_of_planned {context : Context} (nodes : List Node) (state : State) {steps : List Step}
    (planned : planNodes context nodes state.mode = .ok steps) :
    nodesEvents context nodes state = eventsAll context steps state := by
  match nodes with
  | [] =>
    cases planned
    rfl
  | node :: rest =>
    rw [planNodes] at planned
    obtain ⟨step, here, planned⟩ := bind_eq_ok planned
    obtain ⟨more, later, same⟩ := bind_eq_ok planned
    cases same
    rw [← mode_run context] at later
    rw [nodesEvents, nodeEvents_of_planned node state here, emitNode_of_planned here, eventsAll, onward]
    congr 1
    split
    · rw [State.text_eq _ context]
      exact nodesEvents_of_planned rest _ later
    · exact nodesEvents_of_planned rest _ later
termination_by structural nodes

theorem codeEvents_of_planned {context : Context} (code : Code Node) (state : State) {steps : List Step}
    (planned : planCode context code state.mode = .ok steps) :
    codeEvents context code state = eventsAll context steps state := by
  match code with
  | ⟨source, buffered, escaped, none, location⟩ =>
    cases planned
    cases buffered <;> rfl
  | ⟨source, true, escaped, some ⟨nodes, place⟩, location⟩ =>
    obtain ⟨steps, inside, same⟩ := bind_eq_ok planned
    cases same
    let shown := (codeStep ⟨source, true, escaped, some ⟨nodes, place⟩, location⟩).run context state
    have emitted := (emitNodes_follows context nodes).emitted shown.indent inside
    change nodesEvents context nodes (state.code context _).indent ++
      onward (emitNodes context nodes (state.code context _).indent) (fun done => [.dedent done]) = _
    rw [State.code_eq, nodesEvents_of_planned nodes shown.indent inside, emitted]
    exact (List.append_nil _).symm
  | ⟨source, false, escaped, some ⟨nodes, place⟩, location⟩ =>
    obtain ⟨steps, inside, same⟩ := bind_eq_ok planned
    cases same
    let shown := (codeStep ⟨source, false, escaped, some ⟨nodes, place⟩, location⟩).run context state
    change (state.code context _).bodyEvents (emitNodes context nodes) (nodesEvents context nodes) = _
    rw [State.code_eq, bodyEvents_of_planned (emitNodes_follows context nodes) shown inside
      (nodesEvents_of_planned nodes shown.indent inside)]
    exact (List.append_nil _).symm
termination_by structural code

theorem blockEvents_of_planned {context : Context} (block : Option (Block Node)) (state : State) {steps : List Step}
    (planned : planBody context block state.mode = .ok steps) :
    blockEvents context block state = (Step.body steps).events context state := by
  match block with
  | none =>
    cases planned
    rfl
  | some ⟨nodes, place⟩ =>
    exact bodyEvents_of_planned (emitNodes_follows context nodes) state planned
      (nodesEvents_of_planned nodes state.indent planned)
termination_by structural block

theorem branchesEvents_of_planned {context : Context} (nodes : List Node) {labels : List String} {hasDefault : Bool}
    (state : State) {steps : List Step} (planned : planBranches context nodes labels hasDefault state.mode = .ok steps) :
    branchesEvents context nodes labels hasDefault state = eventsAll context steps state := by
  match nodes with
  | [] =>
    rw [planBranches] at planned
    cases planned
    rw [branchesEvents]
    cases labels.isEmpty <;> cases hasDefault <;> rfl
  | node :: rest =>
    have here := fun state step => @nodeEvents_of_planned context node state step
    have later := fun labels hasDefault state steps => @branchesEvents_of_planned context rest labels hasDefault state steps
    cases node with
    | branch branch =>
      obtain ⟨label, block, location⟩ := branch
      exact branchEvents_of_planned (fun state _ => blockEvents_of_planned block state) later planned
    | _ => exact otherEvents_of_planned (by simp) here (later labels hasDefault) planned
termination_by structural nodes

end

/-! The levels that are left, in the events and in the operations. -/

def Event.left? : Event → Option Nim.Draft
  | dedent state => some state.draft
  | visit _ _ => none

theorem leavings_bodyStop (state inside : State) :
    leavings inside.draft (bodyStop state inside) = [(state.filled inside).draft] := by
  rw [bodyStop, State.filled]
  split <;> rfl

theorem leavings_mixinStart (context : Context) (mixin : Mixin Node) (draft : Nim.Draft) :
    leavings draft (mixinStart context mixin) = [] := by
  rw [mixinStart]
  cases mixin.call && !mixin.attributes.isEmpty <;> rfl

theorem leavings_mixinStop (mixin : Mixin Node) (draft : Nim.Draft) : leavings draft (mixinStop mixin) = [] := by
  rw [mixinStop]
  split <;> rfl

mutual

theorem left_events (context : Context) (step : Step) (state : State) :
    (step.events context state).filterMap Event.left? = leavings state.draft (step.operations context state) := by
  match step with
  | .put site =>
    rw [Step.operations, Site.operation]
    cases site.piece context <;> rfl
  | .line _ | .blank | .mode _ => rfl
  | .nested steps =>
    have inside := left_eventsAll context steps state.indent
    have done := draft_runAll context steps state.indent
    rw [Step.events, Step.operations, List.filterMap_append, inside]
    refine Eq.trans ?_ (leavings_append state.indent.draft _ [.dedent]).symm
    rw [← done]
    rfl
  | .body steps =>
    have inside := left_eventsAll context steps state.indent
    have done := draft_runAll context steps state.indent
    rw [Step.events, Step.operations, List.filterMap_append, inside]
    refine Eq.trans ?_ (leavings_append state.indent.draft _ _).symm
    rw [← done, leavings_bodyStop]
    rfl
  | .mixin mixin steps =>
    have inside := left_eventsAll context steps (state.enterMixin context mixin).indent
    have done := draft_runAll context steps (state.enterMixin context mixin).indent
    rw [Step.events, Step.operations, leavings_append, leavings_mixinStart, ← draft_enterMixin, List.nil_append,
      List.filterMap_cons_none rfl, List.filterMap_append, inside]
    refine Eq.trans ?_ (leavings_append (state.enterMixin context mixin).indent.draft _ _).symm
    rw [← done, leavings_append, leavings_bodyStop, leavings_mixinStop]
    rfl
  | .visit node steps => exact left_eventsAll context steps state
termination_by structural step

theorem left_eventsAll (context : Context) (steps : List Step) (state : State) :
    (eventsAll context steps state).filterMap Event.left? = leavings state.draft (operationsAll context steps state) := by
  match steps with
  | [] => rfl
  | step :: rest =>
    rw [eventsAll, operationsAll, List.filterMap_append, leavings_append, left_events context step,
      left_eventsAll context rest, draft_run]
termination_by structural steps

end

end NimTemplate.Compile
