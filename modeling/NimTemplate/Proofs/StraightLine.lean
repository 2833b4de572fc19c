import NimTemplate.Proofs.Constancy
import NimTemplate.Proofs.Walk

/-! Templates without control flow and mixins. Such a template is rendered by one statement, and
the operands of the statement are what a plain recursion over the template lists in document
order. -/

namespace NimTemplate

/-- Code whose value is put out, with nothing nested below it. -/
def Code.isOutput {α : Type} (code : Code α) : Bool := code.buffered && code.block.isNone

mutual

/-- Whether a template is built only from nodes that add to the output, with elements whose
attributes are accepted. What a filter holds is never put out. -/
def Node.isStraight (accepts : Attributes → Bool) : Node → Bool
  | .block ⟨nodes, _⟩ => allStraight accepts nodes
  | .tag ⟨_, attributes, ⟨nodes, _⟩, code, _, _, _⟩ =>
    accepts attributes && code.all Code.isOutput && allStraight accepts nodes
  | .code code => code.isOutput
  | .blockComment ⟨_, ⟨nodes, _⟩, _, _⟩ => allStraight accepts nodes
  | .text _ _ | .literal _ _ | .doctype _ _ | .comment _ _ _ | .filter _ => true
  | _ => false

def allStraight (accepts : Attributes → Bool) : List Node → Bool
  | [] => true
  | node :: rest => node.isStraight accepts && allStraight accepts rest

end

namespace Compile

/-- The sites of text with expressions in it. -/
def contentSites (content : String) : List Site :=
  match Interpolation.segments content with
  | .ok segments => segments.map segmentSite
  | .error _ => []

/-- The doctype that is put before the root of a document without one. -/
def openingSites (mode : Mode) (name : String) : List Site :=
  if mode.startsDocument name then [.text (mode.doctype none).doctypeText] else []

mutual

/-- What a template without control flow puts out, in document order, and the mode behind it.
Filters are given by what they make of their blocks. -/
def rendering (filtered : Filter Node → Except FilterError String) : Node → Mode → List Site × Mode
  | .block ⟨nodes, _⟩, mode => renderingAll filtered nodes mode
  | .tag ⟨name, attributes, ⟨nodes, place⟩, code, selfClosing, computed, location⟩, mode =>
    let tag : Tag Node := ⟨name, attributes, ⟨nodes, place⟩, code, selfClosing, computed, location⟩
    let inside := mode.enterTag name
    let start := openingSites mode name ++ startTag tag inside.dialect.terse
    if selfClosing || inside.dialect.isVoid name then
      (start ++ [.text (if inside.dialect.terse then ">" else "/>")], inside)
    else
      let (content, after) := renderingAll filtered nodes inside
      (start ++ .text ">" :: (code.toList.map codeSite ++ (content ++ endTag tag)), after)
  | .text content _, mode => (contentSites content, mode)
  | .code code, mode => ([codeSite code], mode)
  | .doctype name _, mode => ([.text (mode.doctype name).doctypeText], mode.doctype name)
  | .comment content buffered _, mode => (if buffered then [.text ("<!--" ++ content ++ "-->")] else [], mode)
  | .blockComment ⟨content, ⟨nodes, _⟩, buffered, _⟩, mode =>
    if buffered then
      let (inner, after) := renderingAll filtered nodes mode
      (.text ("<!--" ++ content) :: (inner ++ [.text "-->"]), after)
    else ([], mode)
  | .filter filter, mode =>
    (match filtered filter with
      | .ok output => contentSites output
      | .error _ => [], mode)
  | .literal content _, mode => ([.text content], mode)
  | _, mode => ([], mode)

/-- Siblings in order, with a line break between two that are text. -/
def renderingAll (filtered : Filter Node → Except FilterError String) : List Node → Mode → List Site × Mode
  | [], mode => ([], mode)
  | node :: rest, mode =>
    let (first, between) := rendering filtered node mode
    let (others, after) := renderingAll filtered rest between
    (first ++ (if node.isText && rest.head?.any Node.isText then .text "\n" :: others else others), after)

end

mutual

/-- The sites of a step, in order. -/
def Step.sites : Step → List Site
  | .put site => [site]
  | .nested steps | .body steps | .mixin _ steps | .visit _ steps => sitesOf steps
  | _ => []

def sitesOf : List Step → List Site
  | [] => []
  | step :: rest => step.sites ++ sitesOf rest

end

mutual

/-- Whether a step does no more than put sites out. -/
def Step.isFlat : Step → Bool
  | .put _ | .mode _ => true
  | .visit _ steps => allFlat steps
  | _ => false

def allFlat : List Step → Bool
  | [] => true
  | step :: rest => step.isFlat && allFlat rest

end

@[simp] theorem sitesOf_append (first rest : List Step) : sitesOf (first ++ rest) = sitesOf first ++ sitesOf rest := by
  induction first with
  | nil => rfl
  | cons step steps ih => simp [sitesOf, ih]

@[simp] theorem allFlat_append (first rest : List Step) :
    allFlat (first ++ rest) = (allFlat first && allFlat rest) := by
  induction first with
  | nil => rfl
  | cons step steps ih => simp [allFlat, ih, Bool.and_assoc]

@[simp] theorem sitesOf_put (sites : List Site) : sitesOf (sites.map .put) = sites := by
  induction sites with
  | nil => rfl
  | cons site sites ih => simp [sitesOf, Step.sites, ih]

@[simp] theorem allFlat_put (sites : List Site) : allFlat (sites.map .put) = true := by
  induction sites with
  | nil => rfl
  | cons site sites ih => simp [allFlat, Step.isFlat, ih]

theorem State.putAll_inMode (state : State) (context : Context) (sites : List Site) (mode : Mode) :
    (state.inMode mode).putAll context sites = (state.putAll context sites).inMode mode := by
  induction sites generalizing state with
  | nil => rfl
  | cons site sites ih => exact ih (state.put context site)

mutual

/-- Flat steps leave the sites behind and the mode, and nothing else. -/
theorem run_flat (context : Context) (step : Step) (flat : step.isFlat) (state : State) :
    step.run context state = (state.putAll context step.sites).inMode (step.modeAfter state.mode) := by
  match step with
  | .put site => rfl
  | .mode mode => rfl
  | .visit node steps => exact runAll_flat context steps flat state
  | .line statement | .blank | .nested steps | .body steps | .mixin mixin steps => simp [Step.isFlat] at flat
termination_by structural step

theorem runAll_flat (context : Context) (steps : List Step) (flat : allFlat steps) (state : State) :
    runAll context steps state = (state.putAll context (sitesOf steps)).inMode (modeAfterAll steps state.mode) := by
  match steps with
  | [] => rfl
  | step :: rest =>
    simp only [allFlat, Bool.and_eq_true] at flat
    rw [runAll, runAll_flat context rest flat.2, run_flat context step flat.1, sitesOf, modeAfterAll,
      State.putAll_append, State.putAll_inMode]
    rfl
termination_by structural steps

end

/-- Steps put out what a rendering lists, and lead to its mode. -/
structure Renders (steps : List Step) (mode : Mode) (rendered : List Site × Mode) : Prop where
  flat : allFlat steps
  sites : sitesOf steps = rendered.1
  after : modeAfterAll steps mode = rendered.2

namespace Renders

theorem visit {steps : List Step} {mode : Mode} {rendered : List Site × Mode} (node : Node)
    (renders : Renders steps mode rendered) : Renders [.visit node steps] mode rendered := by
  refine ⟨?_, ?_, ?_⟩
  · simp [allFlat, Step.isFlat, renders.flat]
  · simp [sitesOf, Step.sites, renders.sites]
  · simp [modeAfterAll, Step.modeAfter, renders.after]

theorem append {first rest : List Step} {mode : Mode} {one two : List Site × Mode}
    (before : Renders first mode one) (behind : Renders rest one.2 two) :
    Renders (first ++ rest) mode (one.1 ++ two.1, two.2) := by
  refine ⟨?_, ?_, ?_⟩
  · simp [before.flat, behind.flat]
  · simp [before.sites, behind.sites]
  · rw [modeAfterAll_append, before.after, behind.after]

theorem puts (sites : List Site) (mode : Mode) : Renders (sites.map .put) mode (sites, mode) :=
  ⟨allFlat_put sites, sitesOf_put sites, modeAfterAll_put sites mode⟩

theorem enter (mode : Mode) (name : String) :
    Renders (enterSteps mode name) mode (openingSites mode name, mode.enterTag name) := by
  unfold enterSteps openingSites
  split <;> exact ⟨rfl, rfl, rfl⟩

theorem start (mode : Mode) (tag : Tag Node) :
    Renders (enterSteps mode tag.name ++ (startTag tag (mode.enterTag tag.name).dialect.terse).map .put) mode
      (openingSites mode tag.name ++ startTag tag (mode.enterTag tag.name).dialect.terse, mode.enterTag tag.name) :=
  (enter mode tag.name).append (puts _ _)

end Renders

theorem interpolatedSites_ok {context : Context} {content : String} {location : Location} {sites : List Site}
    (done : interpolatedSites context content location = .ok sites) : contentSites content = sites := by
  unfold interpolatedSites at done
  unfold contentSites
  cases split : Interpolation.segments content with
  | error error => simp [split] at done
  | ok segments => simpa [split] using done

theorem planCode_output {context : Context} {code : Code Node} {mode : Mode} {steps : List Step}
    (output : code.isOutput) (planned : planCode context code mode = .ok steps) :
    steps = [.put (codeSite code)] := by
  obtain ⟨source, buffered, escaped, block, location⟩ := code
  simp only [Code.isOutput, Bool.and_eq_true, Option.isNone_iff_eq_none] at output
  obtain ⟨rfl, rfl⟩ := output
  cases planned
  rfl

private theorem planFirst_output {context : Context} {code : Option (Code Node)} {mode : Mode} {steps : List Step}
    (output : code.all Code.isOutput) (planned : planFirst context code mode = .ok steps) :
    steps = (code.toList.map codeSite).map .put := by
  cases code with
  | none => cases planned; rfl
  | some code => exact planCode_output output planned

mutual

theorem planNode_renders {context : Context} {accepts : Attributes → Bool} (node : Node) {mode : Mode} {step : Step}
    (straight : node.isStraight accepts) (planned : planNode context node mode = .ok step) :
    Renders [step] mode (rendering context.filtered node mode) := by
  match node with
  | .block ⟨nodes, place⟩ =>
    rw [planNode] at planned
    obtain ⟨steps, inside, same⟩ := bind_eq_ok planned
    cases same
    exact (planNodes_renders nodes straight inside).visit _
  | .tag ⟨name, attributes, ⟨nodes, place⟩, code, selfClosing, computed, location⟩ =>
    let tag : Tag Node := ⟨name, attributes, ⟨nodes, place⟩, code, selfClosing, computed, location⟩
    simp only [Node.isStraight, Bool.and_eq_true] at straight
    rw [planNode] at planned
    rw [rendering]
    have start := Renders.start mode tag
    cases isVoid : selfClosing || (mode.enterTag name).dialect.isVoid name with
    | true =>
      simp only [isVoid, if_true] at planned ⊢
      split at planned
      · cases planned
      · cases planned
        exact (start.append (Renders.puts [_] _)).visit _
    | false =>
      simp only [isVoid, Bool.false_eq_true, if_false] at planned ⊢
      obtain ⟨first, planFirst, planned⟩ := bind_eq_ok planned
      obtain ⟨rest, planRest, same⟩ := bind_eq_ok planned
      cases same
      -- Code in the element puts out one value and leaves the mode, so the content starts inside.
      cases planFirst_output straight.1.2 planFirst
      rw [modeAfterAll_put] at planRest
      have content := planNodes_renders nodes straight.2 planRest
      have inner := (Renders.puts (.text ">" :: code.toList.map codeSite) _).append
        (content.append (Renders.puts (endTag tag) _))
      exact (start.append inner).visit _
  | .text content location =>
    rw [planNode] at planned
    obtain ⟨sites, interpolated, same⟩ := bind_eq_ok planned
    cases same
    rw [rendering, interpolatedSites_ok interpolated]
    exact (Renders.puts sites mode).visit _
  | .code code =>
    rw [planNode] at planned
    obtain ⟨steps, inside, same⟩ := bind_eq_ok planned
    cases same
    cases planCode_output straight inside
    exact (Renders.puts [codeSite code] mode).visit _
  | .doctype name location =>
    cases planned
    exact ⟨rfl, rfl, rfl⟩
  | .comment content buffered location =>
    cases planned
    cases buffered <;> exact ⟨rfl, rfl, rfl⟩
  | .blockComment ⟨content, ⟨nodes, place⟩, buffered, location⟩ =>
    rw [planNode] at planned
    cases buffered with
    | false =>
      cases planned
      exact ⟨rfl, rfl, rfl⟩
    | true =>
      simp only [if_true] at planned
      obtain ⟨steps, inside, same⟩ := bind_eq_ok planned
      cases same
      have content := planNodes_renders nodes straight inside
      exact ((Renders.puts [_] _).append (content.append (Renders.puts [_] _))).visit _
  | .filter filter =>
    rw [planNode] at planned
    obtain ⟨sites, made, same⟩ := bind_eq_ok planned
    cases same
    rw [rendering]
    unfold filterSites at made
    cases output : context.filtered filter with
    | error error => simp [output] at made
    | ok output =>
      simp only [output] at made ⊢
      rw [interpolatedSites_ok made]
      exact (Renders.puts sites mode).visit _
  | .literal content location =>
    cases planned
    exact ⟨rfl, rfl, rfl⟩
  | .each _ | .selection _ | .branch _ | .mixin _ | .mixinBlock _ => simp [Node.isStraight] at straight
termination_by structural node

theorem planNodes_renders {context : Context} {accepts : Attributes → Bool} (nodes : List Node) {mode : Mode}
    {steps : List Step} (straight : allStraight accepts nodes) (planned : planNodes context nodes mode = .ok steps) :
    Renders steps mode (renderingAll context.filtered nodes mode) := by
  match nodes with
  | [] =>
    cases planned
    exact ⟨rfl, rfl, rfl⟩
  | node :: rest =>
    simp only [allStraight, Bool.and_eq_true] at straight
    rw [planNodes] at planned
    obtain ⟨step, here, planned⟩ := bind_eq_ok planned
    obtain ⟨more, later, same⟩ := bind_eq_ok planned
    cases same
    have first := planNode_renders node straight.1 here
    rw [show step.modeAfter mode = (rendering context.filtered node mode).2 from first.after] at later
    have others := planNodes_renders rest straight.2 later
    rw [renderingAll]
    split
    · exact first.append ((Renders.puts [.text "\n"] _).append others)
    · exact first.append others
termination_by structural nodes

end

theorem State.draft_putAll (state : State) (context : Context) (sites : List Site) :
    (state.putAll context sites).draft = (sites.map (Site.piece context)).foldl Nim.Draft.put state.draft := by
  induction sites generalizing state with
  | nil => rfl
  | cons site sites ih => exact ih (state.put context site)

theorem State.mixins_putAll (state : State) (context : Context) (sites : List Site) :
    (state.putAll context sites).mixins = state.mixins := by
  induction sites generalizing state with
  | nil => rfl
  | cons site sites ih => exact ih (state.put context site)

/-- What a whole template without control flow puts out. -/
def documentSites (context : Context) (root : Node) : List Site :=
  (rendering context.filtered root (.initial context.options)).1

/-- The operands that a template without control flow adds to the code, one by one. -/
def documentPieces (context : Context) (root : Node) : List Nim.Piece :=
  (documentSites context root).map (Site.piece context)

theorem draft_straight {context : Context} {accepts : Attributes → Bool} {root : Node} {state : State}
    (straight : root.isStraight accepts)
    (emitted : emitNode context root (.initial context.options) = .ok state) :
    state.draft = (documentPieces context root).foldl Nim.Draft.put .empty ∧ state.mixins = .empty := by
  obtain ⟨step, planned, rfl⟩ := planned_of_emitted emitted
  have renders := planNode_renders root straight planned
  have flat : step.isFlat := by simpa [allFlat] using renders.flat
  have sites : step.sites = documentSites context root := by
    have listed := renders.sites
    rwa [sitesOf, sitesOf, List.append_nil] at listed
  rw [run_flat context step flat, sites]
  exact ⟨State.draft_putAll _ _ _, State.mixins_putAll _ _ _⟩

theorem State.finished_of_no_mixins {state : State} (none : state.mixins = .empty) : state.finished = state.draft := by
  rw [State.finished, none]
  rfl

theorem finished_straight {context : Context} {accepts : Attributes → Bool} {root : Node} {state : State}
    (straight : root.isStraight accepts)
    (emitted : emitNode context root (.initial context.options) = .ok state) :
    state.finished = Nim.oneStatement (Nim.condensed (documentPieces context root)) := by
  obtain ⟨draft, mixins⟩ := draft_straight straight emitted
  rw [State.finished_of_no_mixins mixins, draft, Nim.foldl_put]

/-- A template without control flow becomes no line or one. The operands on it are those of the
plain rendering with neighbouring texts in one piece, so no two of them are both text, and none
is empty. A text is written as a literal, and an expression is turned into text. -/
theorem straight_template_is_one_statement {context : Context} {root : Node} {output : Output}
    (straight : root.isStraight fun _ => true) (compiled : compile context root = .ok output) :
    ∃ state, ∃ pieces, emitNode context root (.initial context.options) = .ok state ∧
      pieces = Nim.condensed (documentPieces context root) ∧
      state.finished.lines = (if pieces.isEmpty then []
        else ["  jade_buf.add(" ++ " & ".intercalate (pieces.map fun
          | .text s => "\"" ++ String.ofList (s.toList.flatMap Text.Quoted.spelling) ++ "\""
          | .expr source => "$(" ++ source ++ ")") ++ ")"]) ∧
      output.source = "\n".intercalate state.finished.lines ∧
      pieces.IsChain (¬ Nim.Touching · ·) ∧ Nim.Piece.text "" ∉ pieces := by
  obtain ⟨state, emitted, same⟩ := compile_eq_ok compiled
  refine ⟨state, _, emitted, rfl, ?_, ?_, Nim.condensed_separate _, Nim.condensed_notMem_empty _⟩
  · rw [finished_straight straight emitted]
    exact Nim.lines_oneStatement _
  · rw [same, Nim.Draft.source]

/-- A paragraph with an attribute, a value and two lines of text, and a comment behind it. -/
def paragraph : Node :=
  .block { nodes := [
    .tag { name := "p", attributes := ⟨[⟨"id", "'x'", true⟩], []⟩,
           block := { nodes := [.text "Hi #\x7bname\x7d" {}, .text "!" {}] } },
    .comment "end" true {}] }

theorem paragraph_is_one_statement :
    ∃ output, compile ⟨{}, .none⟩ paragraph = .ok output ∧
      Nim.condensed (documentPieces ⟨{}, .none⟩ paragraph) =
        [.text "<p id=\"x\">Hi ", .expr "jade.escape($(name))", .text "\n!</p><!--end-->"] ∧
      output.source =
        "  jade_buf.add(\"<p id=\\\"x\\\">Hi \" & $(jade.escape($(name))) & \"\\n!</p><!--end-->\")" := by
  have planned : (planNode ⟨{}, .none⟩ paragraph (.initial {})).toOption.isSome := by decide +kernel
  obtain ⟨step, planned⟩ := Option.isSome_iff_exists.mp planned
  obtain ⟨output, compiled⟩ := compiled_of_planned (eq_ok_of_toOption planned)
  obtain ⟨state, pieces, -, condensed, lines, source, -, -⟩ :=
    straight_template_is_one_statement (by decide) compiled
  have evaluated : Nim.condensed (documentPieces ⟨{}, .none⟩ paragraph) =
      [.text "<p id=\"x\">Hi ", .expr "jade.escape($(name))", .text "\n!</p><!--end-->"] := by
    have sites : documentSites ⟨{}, .none⟩ paragraph =
        [.text "<", .text "p", .attr ⟨"id", "'x'", true⟩ false, .text ">", .text "Hi ", .value "name" "name" true,
          .text "\n", .text "!", .text "</", .text "p", .text ">", .text "<!--end-->"] := by
      decide +kernel
    have known : constant? "'x'" = some (.text "x") := constant?_of_text (eq_ok_of_toOption (by decide +kernel))
    have named : Token.all "name".toList = .ok [.name "name"] := eq_ok_of_toOption (by decide +kernel)
    have unknown : constant? "name" = none := constant?_of_name named (by decide) (by decide)
    have attr : Site.piece ⟨{}, .none⟩ (.attr ⟨"id", "'x'", true⟩ false) = .text " id=\"x\"" := by
      simp only [Site.piece, Site.text?, Context.known?, if_true, known]
      decide
    have value : Site.piece ⟨{}, .none⟩ (.value "name" "name" true) = .expr "jade.escape($(name))" := by
      simp only [Site.piece, Site.text?, Context.known?, if_true, unknown]
      decide
    rw [documentPieces, sites]
    simp only [List.map_cons, List.map_nil, attr, value]
    decide
  refine ⟨output, compiled, evaluated, ?_⟩
  rw [source, lines, condensed, evaluated]
  decide +kernel

end Compile

end NimTemplate
