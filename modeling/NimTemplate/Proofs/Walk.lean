import NimTemplate.Compile
import NimTemplate.Proofs.Plan
import NimTemplate.Proofs.Basic

/-! The walk carries out its plan. Each helper of the walk is shown to put out the sites that
the plan has for it; the walk itself then follows node by node. -/

namespace NimTemplate.Compile

/-! Steps in sequence, and the mode behind them. -/

theorem runAll_append (context : Context) (first rest : List Step) (state : State) :
    runAll context (first ++ rest) state = runAll context rest (runAll context first state) := by
  induction first generalizing state with
  | nil => simp [runAll]
  | cons step steps ih => simp [runAll, ih]

theorem runAll_put (context : Context) (sites : List Site) (state : State) :
    runAll context (sites.map .put) state = state.putAll context sites := by
  induction sites generalizing state with
  | nil => simp [runAll, State.putAll]
  | cons site sites ih => simpa [runAll, Step.run, State.putAll] using ih _

theorem modeAfterAll_append (first rest : List Step) (mode : Mode) :
    modeAfterAll (first ++ rest) mode = modeAfterAll rest (modeAfterAll first mode) := by
  induction first generalizing mode with
  | nil => simp [modeAfterAll]
  | cons step steps ih => simp [modeAfterAll, ih]

theorem modeAfterAll_put (sites : List Site) (mode : Mode) : modeAfterAll (sites.map .put) mode = mode := by
  induction sites with
  | nil => simp [modeAfterAll]
  | cons site sites ih => simpa [modeAfterAll, Step.modeAfter] using ih

theorem modeAfterAll_enterSteps (mode : Mode) (name : String) :
    modeAfterAll (enterSteps mode name) mode = mode.enterTag name := by
  rw [enterSteps, modeAfterAll_append]
  rfl

namespace State

@[simp] theorem mode_put (state : State) (context : Context) (site : Site) :
    (state.put context site).mode = state.mode := rfl

@[simp] theorem mode_inMode (state : State) (mode : Mode) : (state.inMode mode).mode = mode := rfl

@[simp] theorem mode_line (state : State) (statement : String) : (state.line statement).mode = state.mode := rfl

@[simp] theorem mode_blank (state : State) : state.blank.mode = state.mode := rfl

@[simp] theorem mode_indent (state : State) : state.indent.mode = state.mode := rfl

@[simp] theorem mode_dedent (state : State) : state.dedent.mode = state.mode := rfl

@[simp] theorem mode_putAll (state : State) (context : Context) (sites : List Site) :
    (state.putAll context sites).mode = state.mode := by
  induction sites generalizing state with
  | nil => rfl
  | cons site sites ih => exact ih (state.put context site)

@[simp] theorem mode_endBody (state inside : State) : (state.endBody inside).mode = inside.mode := by
  unfold endBody
  split <;> rfl

@[simp] theorem mode_noteComputed (state : State) (mixin : Mixin Node) :
    (state.noteComputed mixin).mode = state.mode := by
  unfold noteComputed
  split <;> rfl

@[simp] theorem mode_mixinEnd (state : State) (mixin : Mixin Node) (name : String) (start : Nat) :
    (state.mixinEnd mixin name start).mode = state.mode := by
  unfold mixinEnd
  split
  next => split <;> rfl
  next => rfl

/-- A table leaves no trace in the state but a warning. -/
theorem attributeTable_eq (state : State) (context : Context) (attrs : List Attribute) (location : Location) :
    state.attributeTable context attrs location = (tableText context attrs,
      { state with warnings := state.warnings ++ classWarnings context (classAttrs attrs) location }) := by
  cases empty : (classAttrs attrs).isEmpty with
  | true => simp [attributeTable, tableText, classEntry, classWarnings, empty]
  | false =>
    cases known : context.allKnown? ((classAttrs attrs).map (·.source)) with
    | none => simp [attributeTable, tableText, classEntry, classWarnings, empty, known, warn]
    | some values => simp [attributeTable, tableText, classEntry, classWarnings, empty, known]

@[simp] theorem mode_mixinHead (state : State) (context : Context) (mixin : Mixin Node) (name : String) :
    (state.mixinHead context mixin name).mode = state.mode := by
  unfold mixinHead callAttributes
  split
  next =>
    split
    · rfl
    · rw [attributeTable_eq]; rfl
  next => rfl

@[simp] theorem mode_enterMixin (state : State) (context : Context) (mixin : Mixin Node) :
    (state.enterMixin context mixin).mode = state.mode := by
  simp [enterMixin]

end State

mutual

theorem mode_run (context : Context) (step : Step) (state : State) :
    (step.run context state).mode = step.modeAfter state.mode := by
  match step with
  | .put site => simp [Step.run, Step.modeAfter]
  | .line statement => simp [Step.run, Step.modeAfter]
  | .blank => simp [Step.run, Step.modeAfter]
  | .mode mode => simp [Step.run, Step.modeAfter]
  | .nested steps => simp [Step.run, Step.modeAfter, mode_runAll context steps]
  | .body steps => simp [Step.run, Step.modeAfter, mode_runAll context steps]
  | .mixin mixin steps => simp [Step.run, Step.modeAfter, mode_runAll context steps]
  | .visit node steps => simp [Step.run, Step.modeAfter, mode_runAll context steps]
termination_by structural step

theorem mode_runAll (context : Context) (steps : List Step) (state : State) :
    (runAll context steps state).mode = modeAfterAll steps state.mode := by
  match steps with
  | [] => rfl
  | step :: rest =>
    rw [runAll, modeAfterAll, mode_runAll context rest, mode_run context step]
termination_by structural steps

end

/-! The helpers of the walk. -/

namespace State

theorem put_text {site : Site} {context : Context} {content : String} (state : State)
    (found : site.text? context.known? = some content) (quiet : site.warnings context = []) :
    state.put context site = state.text content := by
  simp only [put, Site.piece, found, quiet, List.append_nil]
  rfl

theorem put_expr {site : Site} {context : Context} (state : State)
    (unknown : site.text? context.known? = none) (quiet : site.warnings context = []) :
    state.put context site = state.expr (site.code context) := by
  simp only [put, Site.piece, unknown, quiet, List.append_nil]
  rfl

theorem text_eq (state : State) (context : Context) (content : String) :
    state.text content = state.put context (.text content) :=
  (put_text state rfl rfl).symm

theorem value_eq (state : State) (context : Context) (source code : String) (escape : Bool) :
    state.value context source code escape = state.put context (.value source code escape) := by
  unfold State.value
  cases known : context.known? source with
  | none =>
    have unknown : (Site.value source code escape).text? context.known? = none := congrArg (Option.map _) known
    exact (put_expr state unknown rfl).symm
  | some value =>
    have found : (Site.value source code escape).text? context.known? = some _ := congrArg (Option.map _) known
    exact (put_text state found rfl).symm

theorem tagName_eq (state : State) (context : Context) (tag : Tag Node) :
    state.tagName context tag = state.put context (tagNameSite tag) := by
  unfold tagName tagNameSite
  split
  · exact value_eq ..
  · exact text_eq ..

theorem attr_eq (state : State) (context : Context) (item : Attribute) :
    attr context state item = state.put context (.attr item state.dialect.terse) := by
  unfold attr
  cases known : context.known? item.source with
  | none =>
    have unknown : (Site.attr item state.dialect.terse).text? context.known? = none :=
      congrArg (Option.map _) known
    exact (put_expr state unknown rfl).symm
  | some value =>
    have found : (Site.attr item state.dialect.terse).text? context.known? = some _ :=
      congrArg (Option.map _) known
    exact (put_text state found rfl).symm

theorem attrs_eq (state : State) (context : Context) (items : List Attribute) :
    items.foldl (attr context) state = state.putAll context (items.map (.attr · state.dialect.terse)) := by
  induction items generalizing state with
  | nil => rfl
  | cons item items ih =>
    rw [List.foldl_cons, ih, attr_eq]
    rfl

theorem classes_eq (state : State) (context : Context) (members : List Attribute) (location : Location)
    (present : members.isEmpty = false) :
    state.classes context members location = state.put context (.classes members location) := by
  cases known : context.allKnown? (members.map (·.source)) with
  | none =>
    have unknown : (members.map (·.source)).mapM context.known? = none := known
    simp only [State.classes, present, known, put, Site.piece, Site.text?, unknown, Site.warnings, classWarnings]
    rfl
  | some values =>
    have quiet : (Site.classes members location).warnings context = [] := by
      simp [Site.warnings, classWarnings, known]
    have found : (Site.classes members location).text? context.known? = some _ := congrArg (Option.map _) known
    rw [put_text state found quiet]
    simp only [State.classes, present, known]
    rfl

theorem merged_eq (state : State) (context : Context) (attributes : Attributes) (location : Location)
    (present : attributes.blocks.isEmpty = false) :
    state.attributes context attributes location =
      state.put context (.merged attributes location state.dialect.terse) := by
  have code : (Site.merged attributes location state.dialect.terse).piece context =
      .expr (mergeCall (mergedTables context attributes) state.dialect.terse) := rfl
  rw [put, code, Site.warnings, State.attributes, if_neg (by simp [present])]
  cases none : attributes.attrs.isEmpty with
  | true =>
    have classless : classAttrs attributes.attrs = [] := by simp [classAttrs, List.isEmpty_iff.mp none]
    have tables : mergedTables context attributes = [] ++ attributes.blocks.map Nim.attributeValue := by
      simp [mergedTables, none]
    rw [classless, tables, if_pos rfl]
    rfl
  | false =>
    have tables : mergedTables context attributes =
        [tableText context attributes.attrs] ++ attributes.blocks.map Nim.attributeValue := by
      simp [mergedTables, none]
    rw [tables, attributeTable_eq, if_neg (by simp), ← List.append_assoc]
    rfl

theorem putAll_append (state : State) (context : Context) (first rest : List Site) :
    state.putAll context (first ++ rest) = (state.putAll context first).putAll context rest :=
  List.foldl_append

theorem attributes_eq (state : State) (context : Context) (attributes : Attributes) (location : Location) :
    state.attributes context attributes location =
      state.putAll context (attributeSites attributes location state.dialect.terse) := by
  cases bare : attributes.blocks.isEmpty with
  | true =>
    simp only [State.attributes, attributeSites, bare, if_true, putAll_append, attrs_eq]
    cases none : (classAttrs attributes.attrs).isEmpty with
    | true => simp [classes, none, putAll]
    | false => simp [classes_eq _ context _ location none, putAll]
  | false =>
    rw [merged_eq state context attributes location bare, attributeSites, bare]
    rfl

theorem segments_eq (state : State) (context : Context) (segments : List Segment) :
    segments.foldl (segment context) state = state.putAll context (segments.map segmentSite) := by
  induction segments generalizing state with
  | nil => rfl
  | cons segment segments ih =>
    rw [List.foldl_cons, ih]
    cases segment with
    | text content => rw [State.segment, text_eq state context]; rfl
    | expr source escape => rw [State.segment, value_eq]; rfl

theorem interpolated_eq (state : State) (context : Context) (content : String) (location : Location) :
    state.interpolated context content location =
      (interpolatedSites context content location).map (state.putAll context) := by
  unfold interpolated interpolatedSites
  cases Interpolation.segments content with
  | ok segments => exact congrArg Except.ok (segments_eq state context segments)
  | error error => rfl

theorem filter_eq (state : State) (context : Context) (filter : Filter Node) :
    state.filter context filter = (filterSites context filter).map (state.putAll context) := by
  unfold State.filter filterSites Context.filtered
  cases context.filters.apply filter.name (filterText filter.block.nodes) (filterOptions context filter.attrs) with
  | ok output => exact interpolated_eq ..
  | error error => rfl

theorem doctype_eq (state : State) (context : Context) (name : Option String) :
    state.doctype name = runAll context (doctypeSteps state.mode name) state := by
  simp only [doctype, text_eq _ context]
  rfl

theorem enterTag_eq (state : State) (context : Context) (name : String) :
    state.enterTag name = runAll context (enterSteps state.mode name) state := by
  have same : (!state.tagSeen && !state.doctypeSeen && name == "html") = state.mode.startsDocument name := rfl
  rw [State.enterTag, enterSteps, runAll_append, same]
  cases starts : state.mode.startsDocument name with
  | true =>
    simp only [if_true, ← doctype_eq, runAll, Step.run, Mode.enterTag, starts]
    rfl
  | false =>
    simp only [runAll, Step.run, Mode.enterTag, starts]
    rfl

@[simp] theorem mode_enterTag (state : State) (name : String) :
    (state.enterTag name).mode = state.mode.enterTag name := by
  rw [enterTag_eq state ⟨{}, .none⟩, mode_runAll, modeAfterAll_enterSteps]

theorem startTag_eq (state : State) (context : Context) (tag : Tag Node) :
    ((state.text "<").tagName context tag).attributes context tag.attributes tag.location =
      state.putAll context (startTag tag state.dialect.terse) := by
  rw [attributes_eq, tagName_eq, text_eq state context]
  rfl

theorem endTag_eq (state : State) (context : Context) (tag : Tag Node) :
    ((state.text "</").tagName context tag).text ">" = state.putAll context (endTag tag) := by
  rw [text_eq _ context, tagName_eq, text_eq state context]
  rfl

theorem code_eq (state : State) (context : Context) (code : Code Node) :
    state.code context code = (codeStep code).run context state := by
  unfold State.code codeStep
  split
  · rw [value_eq]; rfl
  · rfl

end State

/-- Putting something out is what its plan makes of every state. -/
def Follows (context : Context) (emit : State → Except Error State) (plan : Mode → Except Error (List Step)) : Prop :=
  ∀ state, emit state = (runAll context · state) <$> plan state.mode

/-- The same where the plan is one step. -/
def FollowsStep (context : Context) (emit : State → Except Error State) (plan : Mode → Except Error Step) : Prop :=
  ∀ state, emit state = (·.run context state) <$> plan state.mode

theorem Follows.body {context : Context} {emit : State → Except Error State}
    {plan : Mode → Except Error (List Step)} (follows : Follows context emit plan) (state : State) :
    state.body emit = (fun steps => (Step.body steps).run context state) <$> plan state.mode := by
  rw [State.body, follows, State.mode_indent, bind_map_left, bind_pure_comp]
  rfl

/-- The code that stands in an element before its content. -/
private def emitFirst (context : Context) : Option (Code Node) → State → Except Error State
  | none, state => pure state
  | some code, state => emitCode context code state

private theorem emitNode_tag (context : Context) (tag : Tag Node) (state : State) :
    emitNode context (.tag tag) state =
      if tag.selfClosing || (state.enterTag tag.name).dialect.isVoid tag.name then
        if tag.block.nodes.any Node.hasContent then .error (context.fail (.content tag.name) tag.location)
        else
          let started := (((state.enterTag tag.name).text "<").tagName context tag).attributes context
            tag.attributes tag.location
          .ok (started.text (if started.dialect.terse then ">" else "/>"))
      else
        let started := (((state.enterTag tag.name).text "<").tagName context tag).attributes context
          tag.attributes tag.location
        emitFirst context tag.code (started.text ">") >>= fun state =>
          emitNodes context tag.block.nodes state >>= fun state =>
            pure (((state.text "</").tagName context tag).text ">") := by
  obtain ⟨name, attributes, ⟨nodes, place⟩, code, selfClosing, computed, location⟩ := tag
  rw [emitNode]
  cases isVoid : selfClosing || (state.enterTag name).dialect.isVoid name with
  | true =>
    cases filled : nodes.any Node.hasContent <;> rfl
  | false =>
    cases code <;> rfl

theorem start_follows (context : Context) (tag : Tag Node) (state : State) :
    (((state.enterTag tag.name).text "<").tagName context tag).attributes context tag.attributes tag.location =
      runAll context (enterSteps state.mode tag.name ++
        (startTag tag (state.mode.enterTag tag.name).dialect.terse).map .put) state := by
  rw [State.startTag_eq, runAll_append, ← State.enterTag_eq, runAll_put, ← State.mode_enterTag]
  rfl

private theorem tag_follows (context : Context) (tag : Tag Node)
    (first : Follows context (emitFirst context tag.code) (planFirst context tag.code))
    (content : Follows context (emitNodes context tag.block.nodes) (planNodes context tag.block.nodes)) :
    FollowsStep context (emitNode context (.tag tag)) (planNode context (.tag tag)) := by
  intro state
  have started := start_follows context tag state
  have kept : (runAll context (enterSteps state.mode tag.name ++
      (startTag tag (state.mode.enterTag tag.name).dialect.terse).map .put) state).mode =
      state.mode.enterTag tag.name := by
    rw [← started, State.startTag_eq, State.mode_putAll, State.mode_enterTag]
  have outer : (state.enterTag tag.name).dialect = (state.mode.enterTag tag.name).dialect :=
    congrArg Mode.dialect (State.mode_enterTag state tag.name)
  have inner := congrArg Mode.dialect kept
  rw [emitNode_tag, planNode, started, outer]
  cases tag.selfClosing || (state.mode.enterTag tag.name).dialect.isVoid tag.name with
  | true =>
    cases tag.block.nodes.any Node.hasContent with
    | true => rfl
    | false =>
      refine congrArg Except.ok ?_
      rw [State.text_eq _ context]
      refine Eq.trans ?_ (runAll_append ..).symm
      exact congrArg (fun dialect => State.put _ context (.text (if dialect.terse then ">" else "/>"))) inner
  | false =>
    simp only [Bool.false_eq_true, if_false]
    rw [first, State.text_eq _ context, State.mode_put, kept, bind_map_left, map_bind]
    refine congrArg _ (funext fun code => ?_)
    rw [content, mode_runAll, State.mode_put, kept, bind_map_left, map_bind]
    refine congrArg _ (funext fun rest => ?_)
    rw [State.endTag_eq, map_pure, ← runAll_put]
    refine congrArg Except.ok ?_
    simp only [Step.run, runAll_append, runAll]

private theorem mixin_follows (context : Context) (mixin : Mixin Node)
    (content : ∀ state, emitBody context mixin.block state =
      (fun steps => (Step.body steps).run context state) <$> planBody context mixin.block state.mode) :
    FollowsStep context (emitNode context (.mixin mixin)) (planNode context (.mixin mixin)) := by
  intro state
  rw [emitNode, planNode]
  change (mixinName context mixin >>= fun name =>
    emitBody context mixin.block ((state.noteComputed mixin).mixinHead context mixin name) >>= fun inside =>
      pure (inside.mixinEnd mixin name (state.noteComputed mixin).draft.size)) =
    (fun step : Step => step.run context state) <$> (mixinName context mixin >>= fun _ =>
      planBody context mixin.block state.mode >>= fun steps => pure (.mixin mixin steps))
  have size : (state.noteComputed mixin).draft.size = state.draft.size := by
    unfold State.noteComputed
    split <;> rfl
  cases resolved : mixinName context mixin with
  | error error => rfl
  | ok name =>
    have named : resolvedName context mixin = name := by simp [resolvedName, resolved, Except.toOption]
    change (emitBody context mixin.block _ >>= _) = _ <$> (planBody context mixin.block state.mode >>= _)
    rw [content, State.mode_mixinHead, State.mode_noteComputed, bind_map_left, map_bind, size]
    refine congrArg _ (funext fun steps => ?_)
    refine congrArg Except.ok ?_
    simp only [Step.run, State.enterMixin, named]

private theorem each_follows (context : Context) (each : Each Node)
    (content : Follows context (emitNodes context each.block.nodes) (planNodes context each.block.nodes))
    (others : ∀ block ∈ each.alternative,
      Follows context (emitNodes context block.nodes) (planNodes context block.nodes)) :
    FollowsStep context (emitNode context (.each each)) (planNode context (.each each)) := by
  intro state
  obtain ⟨collection, item, key, ⟨nodes, place⟩, alternative, location⟩ := each
  cases alternative with
  | none =>
    simp only [emitNode, planNode]
    rw [content.body, State.mode_line, State.mode_line, bind_map_left, map_bind]
    refine congrArg _ (funext fun steps => ?_)
    rfl
  | some block =>
    have follows := others block rfl
    simp only [emitNode, planNode]
    rw [content.body]
    simp only [State.mode_line, State.mode_indent, bind_map_left, map_bind]
    refine congrArg _ (funext fun steps => ?_)
    rw [follows.body]
    simp only [State.mode_line, State.mode_dedent, State.mode_blank, mode_run, bind_map_left]
    refine congrArg _ (funext fun more => ?_)
    rfl

private theorem branch_follows (context : Context) (branch : Branch Node) (rest : List Node) (labels : List String)
    (hasDefault : Bool)
    (content : ∀ state, emitBody context branch.block state =
      (fun steps => (Step.body steps).run context state) <$> planBody context branch.block state.mode)
    (later : ∀ labels hasDefault, Follows context (emitBranches context rest labels hasDefault)
      (planBranches context rest labels hasDefault)) :
    Follows context (emitBranches context (.branch branch :: rest) labels hasDefault)
      (planBranches context (.branch branch :: rest) labels hasDefault) := by
  intro state
  obtain ⟨label, block, location⟩ := branch
  rw [emitBranches, planBranches]
  cases (⟨label, block, location⟩ : Branch Node).isDefault with
  | true =>
    simp only [if_true]
    rw [content, State.mode_line, bind_map_left, map_bind]
    refine congrArg _ (funext fun inside => ?_)
    rw [later, State.mode_blank, mode_run, State.mode_line, map_bind]
    rfl
  | false =>
    simp only [Bool.false_eq_true, if_false]
    cases block with
    | none => exact later _ _ state
    | some block =>
      refine (congrArg (· >>= _) (content _)).trans ?_
      rw [State.mode_line, bind_map_left, map_bind]
      refine congrArg _ (funext fun inside => ?_)
      rw [later, State.mode_blank, mode_run, State.mode_line, map_bind]
      rfl

private theorem other_follows (context : Context) (node : Node) (rest : List Node) (labels : List String)
    (hasDefault : Bool) (other : ∀ branch, node ≠ .branch branch)
    (here : FollowsStep context (emitNode context node) (planNode context node))
    (later : Follows context (emitBranches context rest labels hasDefault)
      (planBranches context rest labels hasDefault)) :
    Follows context (emitBranches context (node :: rest) labels hasDefault)
      (planBranches context (node :: rest) labels hasDefault) := by
  intro state
  have skipped : ∀ label block location, node = .branch ⟨label, block, location⟩ → False :=
    fun _ _ _ same => other _ same
  rw [emitBranches.eq_3 _ _ _ _ _ _ skipped, planBranches.eq_3 _ _ _ _ _ _ skipped, here, bind_map_left, map_bind]
  refine congrArg _ (funext fun step => ?_)
  rw [later, mode_run, map_bind]
  rfl

mutual

theorem emitNode_follows (context : Context) (node : Node) :
    FollowsStep context (emitNode context node) (planNode context node) := by
  match node with
  | .block ⟨nodes, place⟩ =>
    intro state
    rw [emitNode, planNode, emitNodes_follows context nodes, map_bind]
    rfl
  | .tag ⟨name, attributes, ⟨nodes, place⟩, none, selfClosing, computed, location⟩ =>
    exact tag_follows context _ (fun _ => rfl) (emitNodes_follows context nodes)
  | .tag ⟨name, attributes, ⟨nodes, place⟩, some code, selfClosing, computed, location⟩ =>
    exact tag_follows context _ (emitCode_follows context code) (emitNodes_follows context nodes)
  | .text content location =>
    intro state
    rw [emitNode, planNode, State.interpolated_eq]
    cases interpolatedSites context content location with
    | error error => rfl
    | ok sites => exact congrArg Except.ok (runAll_put context sites state).symm
  | .code code =>
    intro state
    rw [emitNode, planNode, emitCode_follows context code, map_bind]
    rfl
  | .each ⟨collection, item, key, ⟨nodes, place⟩, none, location⟩ =>
    exact each_follows context _ (emitNodes_follows context nodes) (by simp)
  | .each ⟨collection, item, key, ⟨nodes, place⟩, some ⟨alternatives, elsewhere⟩, location⟩ =>
    apply each_follows context _ (emitNodes_follows context nodes)
    intro block member
    cases member
    exact emitNodes_follows context alternatives
  | .selection ⟨subject, ⟨nodes, place⟩, location⟩ =>
    intro state
    rw [emitNode, planNode, emitBranches_follows context nodes, State.mode_line, map_bind]
    rfl
  | .branch ⟨label, block, location⟩ =>
    intro state
    simp only [emitNode, planNode]
    rw [emitBody_follows context block, State.mode_line, bind_map_left, map_bind]
    rfl
  | .mixin ⟨name, parameters, block, attributes, call, location⟩ =>
    exact mixin_follows context _ (emitBody_follows context block)
  | .mixinBlock location => exact fun _ => rfl
  | .doctype name location =>
    intro state
    rw [emitNode, planNode, State.doctype_eq state context]
    rfl
  | .comment content buffered location =>
    intro state
    rw [emitNode, planNode]
    cases buffered with
    | false => rfl
    | true => exact congrArg Except.ok (State.text_eq state context _)
  | .blockComment ⟨content, ⟨nodes, place⟩, buffered, location⟩ =>
    intro state
    rw [emitNode, planNode]
    cases buffered with
    | false => rfl
    | true =>
      simp only [if_true]
      rw [emitNodes_follows context nodes, State.text_eq _ context, State.mode_put, bind_map_left, map_bind]
      refine congrArg _ (funext fun steps => ?_)
      refine congrArg Except.ok ?_
      rw [State.text_eq _ context]
      simp only [Step.run, runAll, runAll_append]
  | .filter filter =>
    intro state
    rw [emitNode, planNode, State.filter_eq]
    cases filterSites context filter with
    | error error => rfl
    | ok sites => exact congrArg Except.ok (runAll_put context sites state).symm
  | .literal content location => exact fun state => congrArg Except.ok (State.text_eq state context content)
termination_by structural node

theorem emitNodes_follows (context : Context) (nodes : List Node) :
    Follows context (emitNodes context nodes) (planNodes context nodes) := by
  match nodes with
  | [] => exact fun _ => rfl
  | node :: rest =>
    intro state
    rw [emitNodes, planNodes, emitNode_follows context node, bind_map_left, map_bind]
    refine congrArg _ (funext fun step => ?_)
    rw [emitNodes_follows context rest, map_bind]
    cases node.isText && rest.head?.any Node.isText with
    | false =>
      simp only [Bool.false_eq_true, if_false, mode_run]
      rfl
    | true =>
      simp only [if_true, State.text_eq _ context, State.mode_put, mode_run]
      rfl
termination_by structural nodes

theorem emitCode_follows (context : Context) (code : Code Node) :
    Follows context (emitCode context code) (planCode context code) := by
  match code with
  | ⟨source, buffered, escaped, none, location⟩ =>
    exact fun state => congrArg Except.ok (State.code_eq state context _)
  | ⟨source, true, escaped, some ⟨nodes, place⟩, location⟩ =>
    intro state
    change (emitNodes context nodes (state.code context _).indent >>= fun state => pure state.dedent) =
      _ <$> (planNodes context nodes state.mode >>= fun steps => pure [codeStep _, .nested steps])
    rw [emitNodes_follows context nodes, State.mode_indent, State.code_eq, mode_run, bind_map_left, map_bind]
    rfl
  | ⟨source, false, escaped, some ⟨nodes, place⟩, location⟩ =>
    intro state
    change ((state.code context _).body (emitNodes context nodes) >>= fun state => pure state.blank) =
      _ <$> (planNodes context nodes state.mode >>= fun steps => pure [codeStep _, .body steps, .blank])
    rw [(emitNodes_follows context nodes).body, State.code_eq, mode_run, bind_map_left, map_bind]
    rfl
termination_by structural code

theorem emitBody_follows (context : Context) (block : Option (Block Node)) (state : State) :
    emitBody context block state =
      (fun steps => (Step.body steps).run context state) <$> planBody context block state.mode := by
  match block with
  | none => rfl
  | some ⟨nodes, place⟩ => exact (emitNodes_follows context nodes).body state
termination_by structural block

theorem emitBranches_follows (context : Context) (nodes : List Node) (labels : List String) (hasDefault : Bool) :
    Follows context (emitBranches context nodes labels hasDefault)
      (planBranches context nodes labels hasDefault) := by
  match nodes with
  | [] =>
    intro state
    rw [emitBranches, planBranches]
    cases labels with
    | nil => cases hasDefault <;> rfl
    | cons label labels => cases hasDefault <;> rfl
  | node :: rest =>
    have here := emitNode_follows context node
    have later := emitBranches_follows context rest
    cases node with
    | branch branch =>
      obtain ⟨label, block, location⟩ := branch
      exact branch_follows context _ rest labels hasDefault (emitBody_follows context block) later
    | _ => exact other_follows context _ rest labels hasDefault (by simp) here (later labels hasDefault)
termination_by structural nodes

end

/-- A walk that succeeds carries out a plan. -/
theorem planned_of_emitted {context : Context} {node : Node} {state after : State}
    (emitted : emitNode context node state = .ok after) :
    ∃ step, planNode context node state.mode = .ok step ∧ after = step.run context state := by
  rw [emitNode_follows] at emitted
  cases planned : planNode context node state.mode with
  | error error =>
    rw [planned] at emitted
    cases emitted
  | ok step =>
    rw [planned] at emitted
    cases emitted
    exact ⟨step, rfl, rfl⟩

/-- A planned step that starts in its mode does what the walk does at its node. -/
theorem emitNode_of_planned {context : Context} {node : Node} {step : Step} {state : State}
    (planned : planNode context node state.mode = .ok step) :
    emitNode context node state = .ok (step.run context state) := by
  rw [emitNode_follows, planned]
  rfl

theorem compile_of_emitted {context : Context} {root : Node} {state : State}
    (emitted : emitNode context root (.initial context.options) = .ok state) :
    compile context root = .ok ⟨state.finished.source, state.warnings⟩ := by
  rw [compile, emitted]
  rfl

theorem compile_eq_ok {context : Context} {root : Node} {output : Output} (compiled : compile context root = .ok output) :
    ∃ state, emitNode context root (.initial context.options) = .ok state ∧
      output = ⟨state.finished.source, state.warnings⟩ := by
  obtain ⟨state, emitted, same⟩ := bind_eq_ok compiled
  cases same
  exact ⟨state, emitted, rfl⟩

theorem compiled_of_planned {context : Context} {root : Node} {step : Step}
    (planned : planNode context root (.initial context.options) = .ok step) :
    ∃ output, compile context root = .ok output := by
  have started : planNode context root (State.initial context.options).mode = .ok step := planned
  exact ⟨_, compile_of_emitted (emitNode_of_planned started)⟩

end NimTemplate.Compile
