import NimTemplate.Proofs.Indentation
import NimTemplate.Proofs.Visits

/-! The way that a walk takes through a template: the nodes it comes to, in order, each with the
mode in force there. A plan is made along this way, and ends at the first node that fails. What
the plan of a way looks like is said once here, for all that is shown about carrying it out. -/

namespace NimTemplate.Compile

/-- A node that a walk comes to, and the mode in which it does. -/
structure Stop where
  node : Node
  mode : Mode

/-- The mode behind the start of a node. Only elements and doctypes change it. -/
def Mode.past (mode : Mode) : Node → Mode
  | .tag tag => mode.enterTag tag.name
  | .doctype name _ => mode.doctype name
  | _ => mode

def Mode.pastAll (mode : Mode) (stops : List Stop) : Mode :=
  stops.foldl (fun mode stop => mode.past stop.node) mode

theorem Mode.pastAll_append (mode : Mode) (first rest : List Stop) :
    mode.pastAll (first ++ rest) = (mode.pastAll first).pastAll rest :=
  List.foldl_append

mutual

/-- The nodes that a walk comes to from a node on. What stands in an element without content, in
a filter or in a comment that is not put out is passed over. -/
def route : Node → Mode → List Stop
  | .block ⟨nodes, place⟩, mode => ⟨.block ⟨nodes, place⟩, mode⟩ :: routeAll nodes mode
  | .tag ⟨name, attributes, ⟨nodes, place⟩, code, selfClosing, computed, location⟩, mode =>
    ⟨.tag ⟨name, attributes, ⟨nodes, place⟩, code, selfClosing, computed, location⟩, mode⟩ ::
      if selfClosing || mode.dialect.isVoid name then []
      else
        let inside := mode.enterTag name
        routeFirst code inside ++ routeAll nodes (inside.pastAll (routeFirst code inside))
  | .code code, mode => ⟨.code code, mode⟩ :: routeCode code mode
  | .each ⟨collection, item, key, ⟨nodes, place⟩, alternative, location⟩, mode =>
    ⟨.each ⟨collection, item, key, ⟨nodes, place⟩, alternative, location⟩, mode⟩ ::
      (routeAll nodes mode ++ routeBlock alternative (mode.pastAll (routeAll nodes mode)))
  | .selection ⟨subject, ⟨nodes, place⟩, location⟩, mode =>
    ⟨.selection ⟨subject, ⟨nodes, place⟩, location⟩, mode⟩ :: routeBranches nodes mode
  | .branch ⟨label, block, location⟩, mode =>
    ⟨.branch ⟨label, block, location⟩, mode⟩ :: routeBlock block mode
  | .mixin ⟨name, parameters, block, attributes, call, location⟩, mode =>
    ⟨.mixin ⟨name, parameters, block, attributes, call, location⟩, mode⟩ :: routeBlock block mode
  | .blockComment ⟨content, ⟨nodes, place⟩, buffered, location⟩, mode =>
    ⟨.blockComment ⟨content, ⟨nodes, place⟩, buffered, location⟩, mode⟩ ::
      if buffered then routeAll nodes mode else []
  | .text content location, mode => [⟨.text content location, mode⟩]
  | .mixinBlock location, mode => [⟨.mixinBlock location, mode⟩]
  | .doctype name location, mode => [⟨.doctype name location, mode⟩]
  | .comment content buffered location, mode => [⟨.comment content buffered location, mode⟩]
  | .filter filter, mode => [⟨.filter filter, mode⟩]
  | .literal content location, mode => [⟨.literal content location, mode⟩]

def routeAll : List Node → Mode → List Stop
  | [], _ => []
  | node :: rest, mode => route node mode ++ routeAll rest (mode.pastAll (route node mode))

def routeCode : Code Node → Mode → List Stop
  | ⟨_, _, _, block, _⟩, mode => routeBlock block mode

def routeFirst : Option (Code Node) → Mode → List Stop
  | none, _ => []
  | some code, mode => routeCode code mode

def routeBlock : Option (Block Node) → Mode → List Stop
  | none, _ => []
  | some ⟨nodes, _⟩, mode => routeAll nodes mode

/-- The way through a selection. Its branches are no stops of their own. -/
def routeBranches : List Node → Mode → List Stop
  | [], _ => []
  | .branch ⟨_, block, _⟩ :: rest, mode =>
    routeBlock block mode ++ routeBranches rest (mode.pastAll (routeBlock block mode))
  | node :: rest, mode => route node mode ++ routeBranches rest (mode.pastAll (route node mode))

end

/-- The place that an error at a node names. -/
def Context.origin (context : Context) (location : Location) : Origin where
  line := location.line
  file := location.file <|> context.options.file

/-- A node that cannot be compiled where the walk comes to it, and the error that says so. -/
inductive Fails (context : Context) (mode : Mode) : Node → Error → Prop where
  | content {tag : Tag Node} {child : Node}
      (isVoid : tag.selfClosing ∨ (tag.name ∈ Markup.voidElements ∧ mode.dialect.xml = false))
      (inside : child ∈ tag.block.nodes)
      (shown : ∀ content location, child = .text content location →
        ∃ c ∈ content.toList, Text.isBlank c = false) :
      Fails context mode (.tag tag) (.structural (.content tag.name) (context.origin tag.location))
  | text {content : String} {location : Location} {error : BraceError}
      (rejected : Interpolation.segments content = .error error) :
      Fails context mode (.text content location) (.structural (.brace error) (context.origin location))
  | mixinName {mixin : Mixin Node} (computed : mixin.name.toList.head? = some '#')
      (unknown : ∀ value, constant? (computedName mixin.name) = some value → value.isNullish) :
      Fails context mode (.mixin mixin)
        (.structural (.mixinName (computedName mixin.name)) (context.origin mixin.location))
  | filter {filter : Filter Node} {error : FilterError} (failed : context.filtered filter = .error error) :
      Fails context mode (.filter filter) (.filter filter.name error (context.origin filter.location))
  | filtered {filter : Filter Node} {output : String} {error : BraceError}
      (made : context.filtered filter = .ok output) (rejected : Interpolation.segments output = .error error) :
      Fails context mode (.filter filter) (.structural (.brace error) (context.origin filter.location))

def canFail : Node → Bool
  | .tag _ | .text _ _ | .mixin _ | .filter _ => true
  | _ => false

theorem not_fails {context : Context} {mode : Mode} {node : Node} (never : canFail node = false) (error : Error) :
    ¬ Fails context mode node error := by
  intro fails
  cases fails <;> cases never

def AllPass (context : Context) (stops : List Stop) : Prop :=
  ∀ stop ∈ stops, ∀ error, ¬ Fails context stop.mode stop.node error

/-- The first stop that fails does so with the error. -/
def FailsFirst (context : Context) (stops : List Stop) (error : Error) : Prop :=
  ∃ earlier stop later, stops = earlier ++ stop :: later ∧ AllPass context earlier ∧
    Fails context stop.mode stop.node error

theorem AllPass.append {context : Context} {first rest : List Stop} (before : AllPass context first)
    (behind : AllPass context rest) : AllPass context (first ++ rest) := by
  intro stop member
  rcases List.mem_append.mp member with here | later
  · exact before stop here
  · exact behind stop later

theorem FailsFirst.append {context : Context} {first : List Stop} {error : Error}
    (fails : FailsFirst context first error) (rest : List Stop) : FailsFirst context (first ++ rest) error := by
  obtain ⟨earlier, stop, later, rfl, pass, here⟩ := fails
  exact ⟨earlier, stop, later ++ rest, by simp, pass, here⟩

theorem FailsFirst.after {context : Context} {first rest : List Stop} {error : Error}
    (pass : AllPass context first) (fails : FailsFirst context rest error) :
    FailsFirst context (first ++ rest) error := by
  obtain ⟨earlier, stop, later, rfl, clear, here⟩ := fails
  exact ⟨first ++ earlier, stop, later, by simp, pass.append clear, here⟩

/-- Something made along a way: it is as wanted if every stop passes, and else the error of the
first stop that fails. -/
inductive Surveys {α : Type} (context : Context) (stops : List Stop) (wanted : α → Prop) : Except Error α → Prop where
  | ok {made : α} (pass : AllPass context stops) (holds : wanted made) : Surveys context stops wanted (.ok made)
  | error {error : Error} (fails : FailsFirst context stops error) : Surveys context stops wanted (.error error)

namespace Surveys

variable {α β : Type} {context : Context} {stops : List Stop} {wanted : α → Prop} {result : Except Error α}

theorem bind {more : List Stop} {next : α → Except Error β} {further : β → Prop}
    (here : Surveys context stops wanted result)
    (later : ∀ made, wanted made → Surveys context more further (next made)) :
    Surveys context (stops ++ more) further (result >>= next) := by
  cases here with
  | error fails => exact .error (fails.append more)
  | ok pass holds =>
    rename_i made
    have behind := later made holds
    change Surveys context (stops ++ more) further (next made)
    generalize next made = outcome at behind
    cases behind with
    | error fails => exact .error (.after pass fails)
    | ok clear holds => exact .ok (pass.append clear) holds

theorem pure {made : β} {further : β → Prop} (holds : further made) : Surveys context [] further (.ok made) :=
  .ok nofun holds

theorem map {next : α → Except Error β} {further : β → Prop} (here : Surveys context stops wanted result)
    (later : ∀ made, wanted made → ∃ built, next made = .ok built ∧ further built) :
    Surveys context stops further (result >>= next) := by
  have whole : Surveys context (stops ++ []) further (result >>= next) := by
    refine here.bind fun made holds => ?_
    obtain ⟨built, same, right⟩ := later made holds
    rw [same]
    exact pure right
  rwa [List.append_nil] at whole

theorem pass {stop : Stop} (passes : ∀ error, ¬ Fails context stop.mode stop.node error)
    (here : Surveys context stops wanted result) : Surveys context (stop :: stops) wanted result := by
  have clear : AllPass context [stop] := by
    intro other member
    rw [List.mem_singleton.mp member]
    exact passes
  cases here with
  | ok rest holds => exact .ok (clear.append rest) holds
  | error fails => exact .error (.after clear fails)

theorem fail {stop : Stop} {error : Error} (fails : Fails context stop.mode stop.node error) :
    Surveys context (stop :: stops) wanted (.error error) :=
  .error ⟨[], stop, stops, rfl, nofun, fails⟩

end Surveys

/-- The steps that are planned along a way. A body follows its head and is closed by an empty
line, and there are no other bodies and no other empty lines. -/
inductive Built : Mode → List Stop → List Step → Prop where
  | nil {mode : Mode} : Built mode [] []
  | put {mode : Mode} {stops : List Stop} {rest : List Step} (site : Site) (later : Built mode stops rest) :
      Built mode stops (.put site :: rest)
  | line {mode : Mode} {stops : List Stop} {rest : List Step} {statement : String} (flush : Nim.isFlush statement)
      (later : Built mode stops rest) : Built mode stops (.line statement :: rest)
  | mode {mode : Mode} {stops : List Stop} {rest : List Step} (next : Mode) (later : Built next stops rest) :
      Built mode stops (.mode next :: rest)
  | nested {mode : Mode} {inner stops : List Stop} {steps rest : List Step} (inside : Built mode inner steps)
      (later : Built (modeAfterAll steps mode) stops rest) : Built mode (inner ++ stops) (.nested steps :: rest)
  | block {mode : Mode} {inner stops : List Stop} {steps rest : List Step} {head : String} (flush : Nim.isFlush head)
      (inside : Built mode inner steps) (later : Built (modeAfterAll steps mode) stops rest) :
      Built mode (inner ++ stops) (.line head :: .body steps :: .blank :: rest)
  | mixin {mode : Mode} {inner stops : List Stop} {steps rest : List Step} {mixin : Mixin Node}
      (without : mixin.block = none → steps = []) (inside : Built mode inner steps)
      (later : Built (modeAfterAll steps mode) stops rest) :
      Built mode (⟨.mixin mixin, mode⟩ :: (inner ++ stops)) (.mixin mixin steps :: rest)
  | visit {mode : Mode} {inner stops : List Stop} {steps rest : List Step} (node : Node)
      (inside : Built mode inner steps) (later : Built (modeAfterAll steps mode) stops rest) :
      Built mode (⟨node, mode⟩ :: (inner ++ stops)) (.visit node steps :: rest)

namespace Built

theorem append {mode : Mode} {first second : List Stop} {steps rest : List Step} (before : Built mode first steps)
    (behind : Built (modeAfterAll steps mode) second rest) : Built mode (first ++ second) (steps ++ rest) := by
  induction before with
  | nil => exact behind
  | put site _ ih => exact .put site (ih behind)
  | line flush _ ih => exact .line flush (ih behind)
  | mode next _ ih => exact .mode next (ih behind)
  | nested inside _ _ ih => rw [List.append_assoc]; exact .nested inside (ih behind)
  | block flush inside _ _ ih => rw [List.append_assoc]; exact .block flush inside (ih behind)
  | mixin without inside _ _ ih =>
    rw [List.cons_append, List.append_assoc]
    exact .mixin without inside (ih behind)
  | visit node inside _ _ ih =>
    rw [List.cons_append, List.append_assoc]
    exact .visit node inside (ih behind)

theorem puts (mode : Mode) (sites : List Site) : Built mode [] (sites.map .put) := by
  induction sites with
  | nil => exact .nil
  | cons site sites ih => exact .put site ih

theorem enter (mode : Mode) (name : String) : Built mode [] (enterSteps mode name) := by
  unfold enterSteps
  split
  · exact .mode _ (.put _ (.mode _ .nil))
  · exact .mode _ .nil

end Built

/-- Steps that are planned along a way, with the mode behind it. -/
structure Leads (mode : Mode) (stops : List Stop) (steps : List Step) : Prop where
  built : Built mode stops steps
  behind : modeAfterAll steps mode = mode.pastAll stops

namespace Leads

theorem nil (mode : Mode) : Leads mode [] [] := ⟨.nil, rfl⟩

theorem append {mode : Mode} {first second : List Stop} {steps rest : List Step} (before : Leads mode first steps)
    (later : Leads (mode.pastAll first) second rest) : Leads mode (first ++ second) (steps ++ rest) where
  built := before.built.append (by rw [before.behind]; exact later.built)
  behind := by rw [modeAfterAll_append, before.behind, later.behind, Mode.pastAll_append]

theorem puts (mode : Mode) (sites : List Site) : Leads mode [] (sites.map .put) :=
  ⟨.puts mode sites, modeAfterAll_put sites mode⟩

theorem put {mode : Mode} {stops : List Stop} {steps : List Step} (site : Site) (later : Leads mode stops steps) :
    Leads mode stops (.put site :: steps) :=
  ⟨.put site later.built, later.behind⟩

theorem thenPuts {mode : Mode} {stops : List Stop} {steps : List Step} (before : Leads mode stops steps)
    (sites : List Site) : Leads mode stops (steps ++ sites.map .put) := by
  simpa using before.append (.puts _ sites)

theorem line {mode : Mode} {stops : List Stop} {steps : List Step} {statement : String}
    (flush : Nim.isFlush statement) (later : Leads mode stops steps) : Leads mode stops (.line statement :: steps) :=
  ⟨.line flush later.built, later.behind⟩

theorem nested {mode : Mode} {stops : List Stop} {steps : List Step} (inside : Leads mode stops steps) :
    Leads mode stops [.nested steps] := by
  refine ⟨?_, inside.behind⟩
  simpa using Built.nested inside.built .nil

theorem block {mode : Mode} {stops : List Stop} {steps : List Step} {head : String} (flush : Nim.isFlush head)
    (inside : Leads mode stops steps) : Leads mode stops [.line head, .body steps, .blank] := by
  refine ⟨?_, inside.behind⟩
  simpa using Built.block flush inside.built .nil

theorem mixin {mode : Mode} {stops : List Stop} {steps : List Step} {mixin : Mixin Node}
    (without : mixin.block = none → steps = []) (inside : Leads mode stops steps) :
    Leads mode (⟨.mixin mixin, mode⟩ :: stops) [.mixin mixin steps] := by
  refine ⟨?_, inside.behind⟩
  simpa using Built.mixin without inside.built .nil

/-- A node that does not change the mode itself. -/
theorem visit {mode : Mode} {stops : List Stop} {steps : List Step} {node : Node} (still : mode.past node = mode)
    (inside : Leads mode stops steps) : Leads mode (⟨node, mode⟩ :: stops) [.visit node steps] where
  built := by simpa using Built.visit node inside.built .nil
  behind := by
    rw [Mode.pastAll, List.foldl_cons, still]
    exact inside.behind

end Leads

/-! Where plans fail. -/

/-- The root of a document changes the dialect, but it is not void in any. -/
theorem isVoid_enterTag (mode : Mode) (name : String) :
    (mode.enterTag name).dialect.isVoid name = mode.dialect.isVoid name := by
  unfold Mode.enterTag
  cases starts : mode.startsDocument name with
  | false => rfl
  | true =>
    have root : name = "html" := by
      simp only [Mode.startsDocument, Bool.and_eq_true, beq_iff_eq] at starts
      exact starts.2
    subst root
    have never : ∀ dialect : Markup.Dialect, dialect.isVoid "html" = false := by
      intro dialect
      simp [Markup.Dialect.isVoid, Markup.voidElements]
    rw [never, never]

theorem hasContent_iff (node : Node) :
    node.hasContent ↔ ∀ content location, node = .text content location →
      ∃ c ∈ content.toList, Text.isBlank c = false := by
  cases node with
  | text content location => simp [Node.hasContent]
  | _ => simp [Node.hasContent]

private theorem fails_tag_iff (context : Context) (mode : Mode) (tag : Tag Node) :
    (∃ error, Fails context mode (.tag tag) error) ↔
      (tag.selfClosing || mode.dialect.isVoid tag.name) ∧ tag.block.nodes.any Node.hasContent := by
  have isVoid : (tag.selfClosing || mode.dialect.isVoid tag.name) = true ↔
      tag.selfClosing ∨ (tag.name ∈ Markup.voidElements ∧ mode.dialect.xml = false) := by
    simp [Markup.Dialect.isVoid, and_comm]
  rw [isVoid, List.any_eq_true]
  constructor
  · rintro ⟨error, fails⟩
    cases fails with
    | content isVoid inside shown => exact ⟨isVoid, _, inside, (hasContent_iff _).mpr shown⟩
  · rintro ⟨isVoid, child, inside, shown⟩
    exact ⟨_, .content isVoid inside ((hasContent_iff child).mp shown)⟩

private theorem interpolated_surveys (context : Context) (content : String) (location : Location) {mode : Mode} {node : Node}
    (fails : ∀ error, Interpolation.segments content = .error error →
      Fails context mode node (.structural (.brace error) (context.origin location)))
    (passes : ∀ segments, Interpolation.segments content = .ok segments → ∀ error, ¬ Fails context mode node error) :
    Surveys context [⟨node, mode⟩] (fun _ => True) (interpolatedSites context content location) := by
  unfold interpolatedSites
  cases split : Interpolation.segments content with
  | error error => exact .fail (fails error split)
  | ok segments => exact .pass (passes segments split) (.pure trivial)

private theorem text_surveys (context : Context) (mode : Mode) (content : String) (location : Location) :
    Surveys context [⟨.text content location, mode⟩] (fun _ => True) (interpolatedSites context content location) := by
  apply interpolated_surveys
  · intro error rejected
    exact .text rejected
  · intro segments accepted error fails
    cases fails with
    | text rejected => rw [accepted] at rejected; cases rejected

private theorem filter_surveys (context : Context) (mode : Mode) (filter : Filter Node) :
    Surveys context [⟨.filter filter, mode⟩] (fun _ => True) (filterSites context filter) := by
  unfold filterSites
  cases made : context.filtered filter with
  | error error => exact .fail (.filter made)
  | ok output =>
    apply interpolated_surveys
    · intro error rejected
      exact .filtered made rejected
    · intro segments accepted error fails
      cases fails with
      | filter failed => rw [made] at failed; cases failed
      | filtered other rejected =>
        rw [made] at other
        cases other
        rw [accepted] at rejected
        cases rejected

private theorem mixinName_surveys (context : Context) (mode : Mode) (mixin : Mixin Node) :
    Surveys context [⟨.mixin mixin, mode⟩] (fun _ => True) (mixinName context mixin) := by
  unfold mixinName
  cases computed : mixin.isComputed with
  | false =>
    refine .pass ?_ (.pure trivial)
    intro error fails
    cases fails with
    | mixinName starts _ => simp [Mixin.isComputed, starts] at computed
  | true =>
    have starts : mixin.name.toList.head? = some '#' := by simpa [Mixin.isComputed] using computed
    simp only [Bool.not_true, Bool.false_eq_true, if_false]
    cases known : constant? (computedName mixin.name) with
    | none => exact .fail (.mixinName starts (by simp [known]))
    | some value =>
      dsimp only
      cases nullish : value.isNullish with
      | true => exact .fail (.mixinName starts (by simp [known, nullish]))
      | false =>
        refine .pass ?_ (.pure trivial)
        intro error fails
        cases fails with
        | mixinName _ unknown => simp [unknown value known] at nullish

/-! Heads and other lines of the plan start flush. -/

private theorem isFlush_loopHead (each : Each Node) (collection : String) : Nim.isFlush (loopHead each collection) := by
  unfold loopHead
  split
  · simp only [String.append_assoc]
    exact Nim.isFlush_append _ (by decide) (by decide)
  · simp only [String.append_assoc]
    exact Nim.isFlush_append _ (by decide) (by decide)

theorem isFlush_branchHead (labels : List String) : Nim.isFlush (branchHead labels) := by
  unfold branchHead
  rw [String.append_assoc]
  exact Nim.isFlush_append _ (by decide) (by decide)

/-! The plan of a node is made along its way. -/

private theorem start_leads (mode : Mode) (tag : Tag Node) {stops : List Stop} {steps : List Step}
    (later : Leads (mode.enterTag tag.name) stops steps) :
    Leads mode (⟨.tag tag, mode⟩ :: stops) [.visit (.tag tag) (enterSteps mode tag.name ++
      (startTag tag (mode.enterTag tag.name).dialect.terse).map .put ++ steps)] := by
  have entered := modeAfterAll_enterSteps mode tag.name
  have inside : Built mode ([] ++ ([] ++ stops)) (enterSteps mode tag.name ++
      ((startTag tag (mode.enterTag tag.name).dialect.terse).map .put ++ steps)) := by
    refine (Built.enter mode tag.name).append ?_
    rw [entered]
    refine (Built.puts _ _).append ?_
    rw [modeAfterAll_put]
    exact later.built
  refine ⟨?_, ?_⟩
  · rw [List.append_assoc]
    simpa using Built.visit (.tag tag) inside .nil
  · change modeAfterAll (_ ++ _ ++ steps) mode = (mode.enterTag tag.name).pastAll stops
    rw [modeAfterAll_append, modeAfterAll_append, entered, modeAfterAll_put, later.behind]

private theorem tag_surveys (context : Context) (tag : Tag Node) (mode : Mode)
    (first : Surveys context (routeFirst tag.code (mode.enterTag tag.name))
      (Leads (mode.enterTag tag.name) (routeFirst tag.code (mode.enterTag tag.name)))
      (planFirst context tag.code (mode.enterTag tag.name)))
    (content : ∀ mode, Surveys context (routeAll tag.block.nodes mode) (Leads mode (routeAll tag.block.nodes mode))
      (planNodes context tag.block.nodes mode)) :
    Surveys context (route (.tag tag) mode) (fun step => Leads mode (route (.tag tag) mode) [step])
      (planNode context (.tag tag) mode) := by
  have fails := fails_tag_iff context mode tag
  obtain ⟨name, attributes, ⟨nodes, place⟩, code, selfClosing, computed, location⟩ := tag
  rw [planNode, route]
  simp only [isVoid_enterTag]
  cases isVoid : selfClosing || mode.dialect.isVoid name with
  | true =>
    simp only [isVoid, true_and] at fails
    simp only [if_true]
    split
    next filled =>
      obtain ⟨error, here⟩ := fails.mpr filled
      cases here with
      | content isVoid inside shown => exact .fail (.content isVoid inside shown)
    next bare =>
      refine .pass ?_ (.pure ?_)
      · intro error here
        exact bare (fails.mp ⟨error, here⟩)
      · exact start_leads mode _ (.puts _ [_])
  | false =>
    simp only [isVoid, Bool.false_eq_true, false_and, iff_false] at fails
    simp only [Bool.false_eq_true, if_false]
    refine .pass (fun error here => fails ⟨error, here⟩) ?_
    refine first.bind fun steps leads => ?_
    rw [leads.behind]
    refine (content _).map fun rest follows => ⟨_, rfl, ?_⟩
    exact start_leads mode _ (.put _ (leads.append (follows.thenPuts _)))

private theorem branch_surveys (context : Context) (branch : Branch Node) (rest : List Node) (labels : List String)
    (hasDefault : Bool) (mode : Mode)
    (content : Surveys context (routeBlock branch.block mode) (Leads mode (routeBlock branch.block mode))
      (planBody context branch.block mode))
    (later : ∀ labels hasDefault mode, Surveys context (routeBranches rest mode) (Leads mode (routeBranches rest mode))
      (planBranches context rest labels hasDefault mode)) :
    Surveys context (routeBranches (.branch branch :: rest) mode)
      (Leads mode (routeBranches (.branch branch :: rest) mode))
      (planBranches context (.branch branch :: rest) labels hasDefault mode) := by
  obtain ⟨label, block, location⟩ := branch
  have section_leads : ∀ {head : String} {inside steps : List Step}, Nim.isFlush head →
      Leads mode (routeBlock block mode) inside →
      Leads (mode.pastAll (routeBlock block mode)) (routeBranches rest (mode.pastAll (routeBlock block mode))) steps →
      Leads mode (routeBlock block mode ++ routeBranches rest (mode.pastAll (routeBlock block mode)))
        (.line head :: .body inside :: .blank :: steps) :=
    fun flush inside steps => (inside.block flush).append steps
  rw [planBranches, routeBranches]
  split
  · refine content.bind fun inside leads => ?_
    rw [leads.behind]
    exact (later _ _ _).map fun steps follows => ⟨_, rfl, section_leads (by decide) leads follows⟩
  · cases block with
    | none => exact later _ _ _
    | some block =>
      refine content.bind fun inside leads => ?_
      rw [leads.behind]
      exact (later _ _ _).map fun steps follows => ⟨_, rfl, section_leads (isFlush_branchHead _) leads follows⟩

private theorem other_surveys (context : Context) (node : Node) (rest : List Node) (labels : List String)
    (hasDefault : Bool) (mode : Mode) (other : ∀ branch, node ≠ .branch branch)
    (here : Surveys context (route node mode) (fun step => Leads mode (route node mode) [step])
      (planNode context node mode))
    (later : ∀ mode, Surveys context (routeBranches rest mode) (Leads mode (routeBranches rest mode))
      (planBranches context rest labels hasDefault mode)) :
    Surveys context (routeBranches (node :: rest) mode) (Leads mode (routeBranches (node :: rest) mode))
      (planBranches context (node :: rest) labels hasDefault mode) := by
  have skipped : ∀ label block location, node = .branch ⟨label, block, location⟩ → False :=
    fun _ _ _ same => other _ same
  rw [planBranches.eq_3 _ _ _ _ _ _ skipped, routeBranches.eq_3 _ _ _ skipped]
  refine here.bind fun step leads => ?_
  have behind : step.modeAfter mode = mode.pastAll (route node mode) := leads.behind
  rw [behind]
  exact (later _).map fun steps follows => ⟨_, rfl, leads.append follows⟩

private theorem mixin_surveys (context : Context) (mixin : Mixin Node) (mode : Mode)
    (content : Surveys context (routeBlock mixin.block mode) (Leads mode (routeBlock mixin.block mode))
      (planBody context mixin.block mode)) :
    Surveys context (route (.mixin mixin) mode) (fun step => Leads mode (route (.mixin mixin) mode) [step])
      (planNode context (.mixin mixin) mode) := by
  have named := mixinName_surveys context mode mixin
  obtain ⟨name, parameters, block, attributes, call, location⟩ := mixin
  rw [planNode, route]
  refine named.bind fun resolved _ => ?_
  cases planned : planBody context block mode with
  | error error =>
    rw [planned] at content
    cases content with
    | error fails => exact .error fails
  | ok steps =>
    rw [planned] at content
    cases content with
    | ok pass leads =>
      have without : block = none → steps = [] := by
        rintro rfl
        cases planned
        rfl
      exact .ok pass (leads.mixin without)

private theorem each_surveys (context : Context) (each : Each Node) (mode : Mode)
    (content : Surveys context (routeAll each.block.nodes mode) (Leads mode (routeAll each.block.nodes mode))
      (planNodes context each.block.nodes mode))
    (others : ∀ mode, Surveys context (routeBlock each.alternative mode) (Leads mode (routeBlock each.alternative mode))
      (planBody context each.alternative mode)) :
    Surveys context (route (.each each) mode) (fun step => Leads mode (route (.each each) mode) [step])
      (planNode context (.each each) mode) := by
  obtain ⟨collection, item, key, ⟨nodes, place⟩, alternative, location⟩ := each
  have comment : Nim.isFlush ("# iterate " ++ Nim.normalizeQuotes collection) :=
    Nim.isFlush_append _ (by decide) (by decide)
  have condition : Nim.isFlush ("if " ++ Nim.normalizeQuotes collection ++ ".len > 0:") := by
    rw [String.append_assoc]
    exact Nim.isFlush_append _ (by decide) (by decide)
  rw [planNode, route]
  refine .pass (not_fails rfl) (content.bind fun steps leads => ?_)
  cases alternative with
  | none =>
    refine .pure (Leads.visit rfl ?_)
    rw [routeBlock, List.append_nil]
    exact (leads.block (isFlush_loopHead _ _)).line comment
  | some block =>
    rw [leads.behind]
    refine (others _).map fun more follows => ⟨_, rfl, Leads.visit rfl ?_⟩
    refine Leads.line comment (Leads.line condition ?_)
    exact (leads.block (isFlush_loopHead _ _)).nested.append (follows.block (by decide))

mutual

theorem planNode_surveys (context : Context) (node : Node) (mode : Mode) :
    Surveys context (route node mode) (fun step => Leads mode (route node mode) [step])
      (planNode context node mode) := by
  match node with
  | .block ⟨nodes, place⟩ =>
    rw [planNode, route]
    refine .pass (not_fails rfl) ?_
    exact (planNodes_surveys context nodes mode).map fun steps leads => ⟨_, rfl, leads.visit rfl⟩
  | .tag ⟨name, attributes, ⟨nodes, place⟩, code, selfClosing, computed, location⟩ =>
    exact tag_surveys context _ mode (planFirst_surveys context code _) (planNodes_surveys context nodes)
  | .text content location =>
    rw [planNode, route]
    exact (text_surveys context mode content location).map fun sites _ =>
      ⟨_, rfl, (Leads.puts mode sites).visit rfl⟩
  | .code code =>
    rw [planNode, route]
    refine .pass (not_fails rfl) ?_
    exact (planCode_surveys context code mode).map fun steps leads => ⟨_, rfl, leads.visit rfl⟩
  | .each ⟨collection, item, key, ⟨nodes, place⟩, alternative, location⟩ =>
    exact each_surveys context _ mode (planNodes_surveys context nodes mode) (planBody_surveys context alternative)
  | .selection ⟨subject, ⟨nodes, place⟩, location⟩ =>
    rw [planNode, route]
    refine .pass (not_fails rfl) ?_
    refine (planBranches_surveys context nodes [] false mode).map fun steps leads => ⟨_, rfl, Leads.visit rfl ?_⟩
    refine leads.line ?_
    rw [String.append_assoc]
    exact Nim.isFlush_append _ (by decide) (by decide)
  | .branch ⟨label, block, location⟩ =>
    rw [planNode, route]
    refine .pass (not_fails rfl) ?_
    refine (planBody_surveys context block mode).map fun steps leads => ⟨_, rfl, Leads.visit rfl ?_⟩
    refine leads.block ?_
    split
    · decide
    · exact isFlush_branchHead _
  | .mixin ⟨name, parameters, block, attributes, call, location⟩ =>
    exact mixin_surveys context _ mode (planBody_surveys context block mode)
  | .mixinBlock location =>
    rw [planNode, route]
    refine .pass (not_fails rfl) (.pure (Leads.visit rfl ?_))
    exact (Leads.nil mode).line (by decide)
  | .doctype name location =>
    rw [planNode, route]
    exact .pass (not_fails rfl) (.pure ⟨.visit _ (.mode _ (.put _ .nil)) .nil, rfl⟩)
  | .comment content buffered location =>
    rw [planNode, route]
    refine .pass (not_fails rfl) (.pure (Leads.visit rfl ?_))
    cases buffered with
    | false => exact .nil mode
    | true => exact .puts mode [_]
  | .blockComment ⟨content, ⟨nodes, place⟩, buffered, location⟩ =>
    rw [planNode, route]
    refine .pass (not_fails rfl) ?_
    cases buffered with
    | false => exact .pure (Leads.visit rfl (.nil mode))
    | true =>
      exact (planNodes_surveys context nodes mode).map fun steps leads =>
        ⟨_, rfl, Leads.visit rfl (.put _ (leads.thenPuts [_]))⟩
  | .filter filter =>
    rw [planNode, route]
    exact (filter_surveys context mode filter).map fun sites _ => ⟨_, rfl, (Leads.puts mode sites).visit rfl⟩
  | .literal content location =>
    rw [planNode, route]
    exact .pass (not_fails rfl) (.pure (Leads.visit rfl (.puts mode [_])))
termination_by structural node

theorem planNodes_surveys (context : Context) (nodes : List Node) (mode : Mode) :
    Surveys context (routeAll nodes mode) (Leads mode (routeAll nodes mode)) (planNodes context nodes mode) := by
  match nodes with
  | [] => exact .pure (.nil mode)
  | node :: rest =>
    rw [planNodes, routeAll]
    refine (planNode_surveys context node mode).bind fun step leads => ?_
    have behind : step.modeAfter mode = mode.pastAll (route node mode) := leads.behind
    rw [behind]
    refine (planNodes_surveys context rest _).map fun steps follows => ⟨_, rfl, ?_⟩
    split
    · exact leads.append ((Leads.puts _ [_]).append follows)
    · exact leads.append follows
termination_by structural nodes

theorem planCode_surveys (context : Context) (code : Code Node) (mode : Mode) :
    Surveys context (routeCode code mode) (Leads mode (routeCode code mode)) (planCode context code mode) := by
  match code with
  | ⟨source, buffered, escaped, none, location⟩ =>
    refine .pure ?_
    cases buffered with
    | true => exact .puts mode [_]
    | false => exact (Leads.nil mode).line (Nim.isFlush_statement source)
  | ⟨source, true, escaped, some ⟨nodes, place⟩, location⟩ =>
    refine (planNodes_surveys context nodes mode).map fun steps leads => ⟨_, rfl, ?_⟩
    exact (Leads.puts mode [_]).append leads.nested
  | ⟨source, false, escaped, some ⟨nodes, place⟩, location⟩ =>
    refine (planNodes_surveys context nodes mode).map fun steps leads => ⟨_, rfl, ?_⟩
    exact leads.block (Nim.isFlush_statement source)
termination_by structural code

theorem planFirst_surveys (context : Context) (code : Option (Code Node)) (mode : Mode) :
    Surveys context (routeFirst code mode) (Leads mode (routeFirst code mode)) (planFirst context code mode) := by
  match code with
  | none => exact .pure (.nil mode)
  | some code => exact planCode_surveys context code mode
termination_by structural code

theorem planBody_surveys (context : Context) (block : Option (Block Node)) (mode : Mode) :
    Surveys context (routeBlock block mode) (Leads mode (routeBlock block mode)) (planBody context block mode) := by
  match block with
  | none => exact .pure (.nil mode)
  | some ⟨nodes, place⟩ => exact planNodes_surveys context nodes mode
termination_by structural block

theorem planBranches_surveys (context : Context) (nodes : List Node) (labels : List String) (hasDefault : Bool)
    (mode : Mode) :
    Surveys context (routeBranches nodes mode) (Leads mode (routeBranches nodes mode))
      (planBranches context nodes labels hasDefault mode) := by
  match nodes with
  | [] =>
    refine .pure ?_
    have waiting : Leads mode [] (if labels.isEmpty then [] else [.line (branchHead labels), .body [], .blank]) := by
      split
      · exact .nil mode
      · exact (Leads.nil mode).block (isFlush_branchHead labels)
    have default : Leads mode [] (if hasDefault then [] else [.line "else: discard"]) := by
      split
      · exact .nil mode
      · exact (Leads.nil mode).line (by decide)
    exact waiting.append default
  | node :: rest =>
    have here := planNode_surveys context node mode
    have later := planBranches_surveys context rest
    cases node with
    | branch branch =>
      obtain ⟨label, block, location⟩ := branch
      exact branch_surveys context _ rest labels hasDefault mode (planBody_surveys context block mode) later
    | _ => exact other_surveys context _ rest labels hasDefault mode (by simp) here (later labels hasDefault)
termination_by structural nodes

end

/-- A plan that could be made is built along the way of its node. -/
theorem built_of_planned {context : Context} {node : Node} {mode : Mode} {step : Step}
    (planned : planNode context node mode = .ok step) : Built mode (route node mode) [step] := by
  have surveys := planNode_surveys context node mode
  rw [planned] at surveys
  cases surveys with
  | ok _ leads => exact leads.built

end NimTemplate.Compile
