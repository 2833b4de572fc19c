import NimTemplate.Proofs.Route

/-! What a walk takes from attributes. A node puts out its attributes before what it holds, so whatever
is gathered from them along a plan, it comes in the order in which the walk comes to the nodes. -/

namespace NimTemplate.Compile

section

variable {α : Type} (ofSite : Site → List α) (ofMixin : Mixin Node → List α)

mutual

/-- What the sites and the mixins of a step yield, in order. -/
def Step.collect : Step → List α
  | .put site => ofSite site
  | .nested steps | .body steps | .visit _ steps => collectAll steps
  | .mixin mixin steps => ofMixin mixin ++ collectAll steps
  | _ => []

def collectAll : List Step → List α
  | [] => []
  | step :: rest => step.collect ++ collectAll rest

end

/-- What the attributes of a node yield where the walk comes to it. -/
def Stop.collect (stop : Stop) : List α :=
  match stop.node with
  | .tag tag =>
    (attributeSites tag.attributes tag.location (stop.mode.enterTag tag.name).dialect.terse).flatMap ofSite
  | .mixin mixin => ofMixin mixin
  | _ => []

variable {ofSite ofMixin}

theorem collectAll_append (first rest : List Step) :
    collectAll ofSite ofMixin (first ++ rest) = collectAll ofSite ofMixin first ++ collectAll ofSite ofMixin rest := by
  induction first with
  | nil => rfl
  | cons step steps ih => simp [collectAll, ih]

theorem collectAll_put (sites : List Site) : collectAll ofSite ofMixin (sites.map .put) = sites.flatMap ofSite := by
  induction sites with
  | nil => rfl
  | cons site sites ih => simp [collectAll, Step.collect, ih]

theorem Surveys.behind {context : Context} {mode : Mode} {stops : List Stop} {result : Except Error (List Step)}
    {steps : List Step} (surveys : Surveys context stops (Leads mode stops) result) (planned : result = .ok steps) :
    modeAfterAll steps mode = mode.pastAll stops := by
  subst planned
  cases surveys with
  | ok _ leads => exact leads.behind

theorem modeAfter_of_planned {context : Context} {node : Node} {mode : Mode} {step : Step}
    (planned : planNode context node mode = .ok step) : step.modeAfter mode = mode.pastAll (route node mode) := by
  have surveys := planNode_surveys context node mode
  rw [planned] at surveys
  cases surveys with
  | ok _ leads => exact leads.behind

/-- Text and expressions of the template itself yield nothing. -/
structure OnlyAttributes (ofSite : Site → List α) : Prop where
  text : ∀ content, ofSite (.text content) = []
  value : ∀ source code escape, ofSite (.value source code escape) = []

variable (ofSite ofMixin) in
/-- Steps yield what the attributes of the nodes on a way yield. -/
def Yields (stops : List Stop) (steps : List Step) : Prop :=
  collectAll ofSite ofMixin steps = stops.flatMap (Stop.collect ofSite ofMixin)

namespace Yields

variable {stops inner : List Stop} {steps rest : List Step}

theorem nil : Yields ofSite ofMixin [] [] := rfl

theorem append {first second : List Stop} (before : Yields ofSite ofMixin first steps)
    (behind : Yields ofSite ofMixin second rest) : Yields ofSite ofMixin (first ++ second) (steps ++ rest) := by
  unfold Yields at *
  rw [collectAll_append, List.flatMap_append, before, behind]

theorem quiet {step : Step} (silent : step.collect ofSite ofMixin = []) (later : Yields ofSite ofMixin stops rest) :
    Yields ofSite ofMixin stops (step :: rest) := by
  unfold Yields at *
  rw [collectAll, silent, List.nil_append, later]

theorem nested (inside : Yields ofSite ofMixin inner steps) : Yields ofSite ofMixin inner [.nested steps] := by
  unfold Yields at *
  rw [collectAll, Step.collect, inside, collectAll, List.append_nil]

theorem block (head : String) (inside : Yields ofSite ofMixin inner steps) :
    Yields ofSite ofMixin inner [.line head, .body steps, .blank] := by
  unfold Yields at *
  simp only [collectAll, Step.collect, inside, List.nil_append, List.append_nil]

theorem visit {node : Node} {mode : Mode} (silent : Stop.collect ofSite ofMixin ⟨node, mode⟩ = [])
    (inside : Yields ofSite ofMixin inner steps) :
    Yields ofSite ofMixin (⟨node, mode⟩ :: inner) [.visit node steps] := by
  unfold Yields at *
  rw [List.flatMap_cons, silent, collectAll, Step.collect, inside, collectAll, List.append_nil]
  rfl

theorem mixin {mixin : Mixin Node} {mode : Mode} (inside : Yields ofSite ofMixin inner steps) :
    Yields ofSite ofMixin (⟨.mixin mixin, mode⟩ :: inner) [.mixin mixin steps] := by
  unfold Yields at *
  rw [List.flatMap_cons, collectAll, Step.collect, inside, collectAll, List.append_nil]
  rfl

theorem puts {sites : List Site} (silent : ∀ site ∈ sites, ofSite site = []) :
    Yields ofSite ofMixin [] (sites.map .put) := by
  unfold Yields
  rw [collectAll_put]
  exact List.flatMap_eq_nil_iff.mpr silent

end Yields

private theorem branch_yields {context : Context} {branch : Branch Node} {rest : List Node} {labels : List String}
    {hasDefault : Bool} {mode : Mode} {steps : List Step}
    (body : ∀ {mode steps}, planBody context branch.block mode = .ok steps →
      Yields ofSite ofMixin (routeBlock branch.block mode) steps)
    (later : ∀ {labels hasDefault mode steps}, planBranches context rest labels hasDefault mode = .ok steps →
      Yields ofSite ofMixin (routeBranches rest mode) steps)
    (planned : planBranches context (.branch branch :: rest) labels hasDefault mode = .ok steps) :
    Yields ofSite ofMixin (routeBranches (.branch branch :: rest) mode) steps := by
  obtain ⟨label, block, location⟩ := branch
  rw [planBranches] at planned
  rw [routeBranches]
  split at planned
  · obtain ⟨inside, content, planned⟩ := bind_eq_ok planned
    obtain ⟨more, others, same⟩ := bind_eq_ok planned
    cases same
    rw [(planBody_surveys context block mode).behind content] at others
    exact ((body content).block "else:").append (later others)
  · cases block with
    | none => exact later planned
    | some block =>
      obtain ⟨inside, content, planned⟩ := bind_eq_ok planned
      obtain ⟨more, others, same⟩ := bind_eq_ok planned
      cases same
      rw [(planNodes_surveys context block.nodes mode).behind content] at others
      exact ((body content).block _).append (later others)

private theorem other_yields {context : Context} {node : Node} {rest : List Node} {labels : List String}
    {hasDefault : Bool} {mode : Mode} {steps : List Step} (other : ∀ branch, node ≠ .branch branch)
    (here : ∀ {mode step}, planNode context node mode = .ok step → Yields ofSite ofMixin (route node mode) [step])
    (later : ∀ {labels hasDefault mode steps}, planBranches context rest labels hasDefault mode = .ok steps →
      Yields ofSite ofMixin (routeBranches rest mode) steps)
    (planned : planBranches context (node :: rest) labels hasDefault mode = .ok steps) :
    Yields ofSite ofMixin (routeBranches (node :: rest) mode) steps := by
  have skipped : ∀ label block location, node = .branch ⟨label, block, location⟩ → False :=
    fun _ _ _ same => other _ same
  rw [planBranches.eq_3 _ _ _ _ _ _ skipped] at planned
  rw [routeBranches.eq_3 _ _ _ skipped]
  obtain ⟨step, visited, planned⟩ := bind_eq_ok planned
  obtain ⟨more, others, same⟩ := bind_eq_ok planned
  cases same
  rw [modeAfter_of_planned visited] at others
  exact (here visited).append (later others)

variable (only : OnlyAttributes ofSite)

include only

theorem Yields.text {stops : List Stop} {rest : List Step} (content : String)
    (later : Yields ofSite ofMixin stops rest) :
    Yields ofSite ofMixin stops (.put (.text content) :: rest) :=
  .quiet (only.text content) later

theorem OnlyAttributes.tagName (tag : Tag Node) : ofSite (tagNameSite tag) = [] := by
  unfold tagNameSite
  split
  · exact only.value ..
  · exact only.text ..

theorem OnlyAttributes.segment (segment : Segment) : ofSite (segmentSite segment) = [] := by
  cases segment with
  | text content => exact only.text ..
  | expr source escape => exact only.value ..

theorem OnlyAttributes.interpolated {context : Context} {content : String} {location : Location} {sites : List Site}
    (made : interpolatedSites context content location = .ok sites) : ∀ site ∈ sites, ofSite site = [] := by
  unfold interpolatedSites at made
  split at made
  · cases made
    intro site member
    obtain ⟨segment, _, rfl⟩ := List.mem_map.mp member
    exact only.segment segment
  · cases made

theorem OnlyAttributes.filter {context : Context} {filter : Filter Node} {sites : List Site}
    (made : filterSites context filter = .ok sites) : ∀ site ∈ sites, ofSite site = [] := by
  unfold filterSites at made
  split at made
  · exact only.interpolated made
  · cases made

/-- The start tag yields what the attributes do, and all that is in the element comes behind it. -/
theorem Yields.tag (mode : Mode) (tag : Tag Node) {stops : List Stop} {steps : List Step}
    (inside : Yields ofSite ofMixin stops steps) :
    Yields ofSite ofMixin (⟨.tag tag, mode⟩ :: stops) [.visit (.tag tag) (enterSteps mode tag.name ++
      (startTag tag (mode.enterTag tag.name).dialect.terse).map .put ++ steps)] := by
  have entered : collectAll ofSite ofMixin (enterSteps mode tag.name) = [] := by
    unfold enterSteps doctypeSteps
    split
    · simp [collectAll, Step.collect, only.text]
    · rfl
  have started : collectAll ofSite ofMixin ((startTag tag (mode.enterTag tag.name).dialect.terse).map .put) =
      Stop.collect ofSite ofMixin ⟨.tag tag, mode⟩ := by
    rw [collectAll_put, startTag, List.flatMap_cons, List.flatMap_cons, only.text, only.tagName]
    rfl
  unfold Yields at *
  rw [List.flatMap_cons, collectAll, Step.collect, collectAll_append, collectAll_append, entered, started, inside,
    collectAll, List.append_nil, List.nil_append]

theorem Yields.code (code : Code Node) {stops : List Stop} {rest : List Step}
    (later : Yields ofSite ofMixin stops rest) :
    Yields ofSite ofMixin stops (codeStep code :: rest) := by
  refine .quiet ?_ later
  unfold codeStep
  split
  · exact only.value ..
  · rfl

private theorem tag_yields {context : Context} (tag : Tag Node) {mode : Mode} {step : Step}
    (first : ∀ {mode steps}, planFirst context tag.code mode = .ok steps →
      Yields ofSite ofMixin (routeFirst tag.code mode) steps)
    (content : ∀ {mode steps}, planNodes context tag.block.nodes mode = .ok steps →
      Yields ofSite ofMixin (routeAll tag.block.nodes mode) steps)
    (planned : planNode context (.tag tag) mode = .ok step) : Yields ofSite ofMixin (route (.tag tag) mode) [step] := by
  have ended : Yields ofSite ofMixin [] ((endTag tag).map .put) := by
    apply Yields.puts
    simp [endTag, only.text, only.tagName]
  obtain ⟨name, attributes, ⟨nodes, place⟩, code, selfClosing, computed, location⟩ := tag
  rw [planNode] at planned
  rw [route]
  simp only [isVoid_enterTag] at planned
  cases isVoid : selfClosing || mode.dialect.isVoid name with
  | true =>
    simp only [isVoid, if_true] at planned ⊢
    split at planned
    · cases planned
    · cases planned
      exact .tag only mode _ (.text only _ .nil)
  | false =>
    simp only [isVoid, Bool.false_eq_true, if_false] at planned ⊢
    obtain ⟨before, plannedFirst, planned⟩ := bind_eq_ok planned
    obtain ⟨rest, plannedRest, same⟩ := bind_eq_ok planned
    cases same
    rw [(planFirst_surveys context code _).behind plannedFirst] at plannedRest
    refine .tag only mode _ (.text only _ ((first plannedFirst).append ?_))
    simpa using (content plannedRest).append ended

omit only

mutual

theorem planNode_yields (only : OnlyAttributes ofSite) {context : Context} (node : Node) {mode : Mode} {step : Step}
    (planned : planNode context node mode = .ok step) : Yields ofSite ofMixin (route node mode) [step] := by
  match node with
  | .block ⟨nodes, place⟩ =>
    rw [planNode] at planned
    obtain ⟨steps, inside, same⟩ := bind_eq_ok planned
    cases same
    rw [route]
    exact (planNodes_yields only nodes inside).visit rfl
  | .tag ⟨name, attributes, ⟨nodes, place⟩, code, selfClosing, computed, location⟩ =>
    exact tag_yields only _ (planFirst_yields only code) (planNodes_yields only nodes) planned
  | .text content location =>
    rw [planNode] at planned
    obtain ⟨sites, made, same⟩ := bind_eq_ok planned
    cases same
    rw [route]
    exact (Yields.puts (only.interpolated made)).visit rfl
  | .code code =>
    rw [planNode] at planned
    obtain ⟨steps, inside, same⟩ := bind_eq_ok planned
    cases same
    rw [route]
    exact (planCode_yields only code inside).visit rfl
  | .each ⟨collection, item, key, ⟨nodes, place⟩, alternative, location⟩ =>
    rw [planNode] at planned
    obtain ⟨steps, inside, planned⟩ := bind_eq_ok planned
    have loop := planNodes_yields only nodes inside
    rw [route]
    match alternative with
    | none =>
      cases planned
      rw [routeBlock, List.append_nil]
      exact (Yields.quiet rfl (loop.block _)).visit rfl
    | some ⟨others, elsewhere⟩ =>
      obtain ⟨rest, alternatively, same⟩ := bind_eq_ok planned
      cases same
      rw [(planNodes_surveys context nodes mode).behind inside] at alternatively
      have otherwise := (planNodes_yields only others alternatively).block "else:"
      exact (Yields.quiet rfl (Yields.quiet rfl ((loop.block _).nested.append otherwise))).visit rfl
  | .selection ⟨subject, ⟨nodes, place⟩, location⟩ =>
    rw [planNode] at planned
    obtain ⟨steps, inside, same⟩ := bind_eq_ok planned
    cases same
    rw [route]
    exact (Yields.quiet rfl (planBranches_yields only nodes inside)).visit rfl
  | .branch ⟨label, block, location⟩ =>
    rw [planNode] at planned
    obtain ⟨steps, inside, same⟩ := bind_eq_ok planned
    cases same
    rw [route]
    exact ((planBody_yields only block inside).block _).visit rfl
  | .mixin ⟨name, parameters, block, attributes, call, location⟩ =>
    rw [planNode] at planned
    obtain ⟨resolved, named, planned⟩ := bind_eq_ok planned
    obtain ⟨steps, inside, same⟩ := bind_eq_ok planned
    cases same
    rw [route]
    exact (planBody_yields only block inside).mixin
  | .mixinBlock location =>
    cases planned
    exact (Yields.quiet rfl .nil).visit rfl
  | .doctype name location =>
    cases planned
    exact (Yields.quiet rfl (.text only _ .nil)).visit rfl
  | .comment content buffered location =>
    cases planned
    refine Yields.visit rfl ?_
    cases buffered with
    | false => exact .nil
    | true => exact .text only _ .nil
  | .blockComment ⟨content, ⟨nodes, place⟩, buffered, location⟩ =>
    rw [planNode] at planned
    rw [route]
    cases buffered with
    | false =>
      cases planned
      exact Yields.nil.visit rfl
    | true =>
      simp only [if_true] at planned ⊢
      obtain ⟨steps, inside, same⟩ := bind_eq_ok planned
      cases same
      have ended := (planNodes_yields only nodes inside).append (.text only "-->" .nil)
      rw [List.append_nil] at ended
      exact (Yields.text only _ ended).visit rfl
  | .filter filter =>
    rw [planNode] at planned
    obtain ⟨sites, made, same⟩ := bind_eq_ok planned
    cases same
    rw [route]
    exact (Yields.puts (only.filter made)).visit rfl
  | .literal content location =>
    cases planned
    exact (Yields.text only _ .nil).visit rfl
termination_by structural node

theorem planNodes_yields (only : OnlyAttributes ofSite) {context : Context} (nodes : List Node) {mode : Mode}
    {steps : List Step} (planned : planNodes context nodes mode = .ok steps) :
    Yields ofSite ofMixin (routeAll nodes mode) steps := by
  match nodes with
  | [] =>
    cases planned
    exact .nil
  | node :: rest =>
    rw [planNodes] at planned
    obtain ⟨step, here, planned⟩ := bind_eq_ok planned
    obtain ⟨more, later, same⟩ := bind_eq_ok planned
    cases same
    rw [modeAfter_of_planned here] at later
    have behind := planNodes_yields only rest later
    have separated : Yields ofSite ofMixin (routeAll rest (mode.pastAll (route node mode)))
        (if node.isText && rest.head?.any Node.isText then .put (.text "\n") :: more else more) := by
      split
      · exact .text only _ behind
      · exact behind
    exact (planNode_yields only node here).append separated
termination_by structural nodes

theorem planCode_yields (only : OnlyAttributes ofSite) {context : Context} (code : Code Node) {mode : Mode}
    {steps : List Step} (planned : planCode context code mode = .ok steps) :
    Yields ofSite ofMixin (routeCode code mode) steps := by
  match code with
  | ⟨source, buffered, escaped, block, location⟩ =>
    match block with
    | none =>
      cases planned
      exact .code only _ .nil
    | some ⟨nodes, place⟩ =>
      obtain ⟨inner, inside, same⟩ := bind_eq_ok planned
      have content := planNodes_yields only nodes inside
      cases buffered with
      | true =>
        cases same
        exact .code only _ content.nested
      | false =>
        cases same
        exact content.block _
termination_by structural code

theorem planFirst_yields (only : OnlyAttributes ofSite) {context : Context} (code : Option (Code Node)) {mode : Mode}
    {steps : List Step} (planned : planFirst context code mode = .ok steps) :
    Yields ofSite ofMixin (routeFirst code mode) steps := by
  match code with
  | none =>
    cases planned
    exact .nil
  | some code => exact planCode_yields only code planned
termination_by structural code

theorem planBody_yields (only : OnlyAttributes ofSite) {context : Context} (block : Option (Block Node)) {mode : Mode}
    {steps : List Step} (planned : planBody context block mode = .ok steps) :
    Yields ofSite ofMixin (routeBlock block mode) steps := by
  match block with
  | none =>
    cases planned
    exact .nil
  | some ⟨nodes, place⟩ => exact planNodes_yields only nodes planned
termination_by structural block

theorem planBranches_yields (only : OnlyAttributes ofSite) {context : Context} (nodes : List Node)
    {labels : List String} {hasDefault : Bool} {mode : Mode} {steps : List Step}
    (planned : planBranches context nodes labels hasDefault mode = .ok steps) :
    Yields ofSite ofMixin (routeBranches nodes mode) steps := by
  match nodes with
  | [] =>
    cases planned
    cases labels <;> cases hasDefault <;> rfl
  | node :: rest =>
    have here := @planNode_yields only context node
    have later := @planBranches_yields only context rest
    cases node with
    | branch branch =>
      obtain ⟨label, block, location⟩ := branch
      exact branch_yields (planBody_yields only block) later planned
    | _ => exact other_yields (by simp) here later planned
termination_by structural nodes

end

theorem collect_of_planned (only : OnlyAttributes ofSite) {context : Context} {node : Node} {mode : Mode} {step : Step}
    (planned : planNode context node mode = .ok step) :
    step.collect ofSite ofMixin = (route node mode).flatMap (Stop.collect ofSite ofMixin) := by
  have yields : Yields ofSite ofMixin (route node mode) [step] := planNode_yields only node planned
  rwa [Yields, collectAll, collectAll, List.append_nil] at yields

end

end NimTemplate.Compile
