import Mathlib.Data.List.Perm.Basic
import NimTemplate.Proofs.FirstFault
import NimTemplate.Proofs.Operations

/-! Doctypes over whole walks. The nodes that were visited so far say which doctype was chosen
last, and that one decides the dialect in force: the text that doctypes put out, which elements
are void, how their tags end and how attributes are written. -/

namespace NimTemplate

def Node.isTag : Node → Bool
  | .tag _ => true
  | _ => false

def Node.isDoctype : Node → Bool
  | .doctype _ _ => true
  | _ => false

namespace Compile

open Markup (Dialect)

/-! What the nodes visited so far, the latest first, say of the doctype. -/

/-- The root of a document, with no element and no doctype before it. -/
def isBareRoot (past : List Node) : Node → Bool
  | .tag tag => tag.name == "html" && !past.any Node.isTag && !past.any Node.isDoctype
  | _ => false

theorem isBareRoot_of_other {past : List Node} {node : Node} (other : node.isTag = false) : isBareRoot past node = false := by
  cases node with
  | tag => cases other
  | _ => rfl

/-- A doctype is put out at the node. -/
def announces (past : List Node) (node : Node) : Bool := node.isDoctype || isBareRoot past node

def doctypeName? : Node → Option String
  | .doctype name _ => name
  | _ => none

/-- The doctypes that were chosen, the latest first: the configured one, those that are named, and
the default where a doctype is put out before any was chosen. -/
def choices (options : Options) : List Node → List String
  | [] => options.doctype.toList
  | node :: past =>
    match doctypeName? node with
    | some name => name :: choices options past
    | none => if announces past node && (choices options past).isEmpty then ["default"] else choices options past

def dialectOf (choices : List String) : Dialect := choices.head?.elim .unset .ofName

theorem doctype_dialectOf (choices : List String) :
    (dialectOf choices).doctype = choices.head?.map Dialect.doctypeOf := by
  cases choices <;> rfl

theorem choices_ne_nil (options : Options) {past : List Node} {node : Node} (announced : announces past node) :
    choices options (node :: past) ≠ [] := by
  rw [choices]
  cases doctypeName? node with
  | some name => simp
  | none => cases before : choices options past <;> simp [announced]

theorem choices_of_silent (options : Options) {past : List Node} {node : Node} (silent : announces past node = false) :
    choices options (node :: past) = choices options past := by
  have unnamed : doctypeName? node = none := by
    cases node with
    | doctype name location => cases silent
    | _ => rfl
  simp [choices, unnamed, silent]

theorem Mode.dialect_doctype_none (mode : Mode) :
    (mode.doctype none).dialect = if mode.dialect.doctype.isSome then mode.dialect else .ofName "default" := by
  unfold doctype
  cases mode.dialect.doctype <;> rfl

/-- What the walk knows is what the nodes visited so far say. -/
structure Records (options : Options) (past : List Node) (mode : Mode) : Prop where
  dialect : mode.dialect = dialectOf (choices options past)
  tag : mode.tagSeen = past.any Node.isTag
  -- Behind the first element nobody asks again, and a root has set the flag without a doctype.
  doctype : mode.tagSeen = false → mode.doctypeSeen = past.any Node.isDoctype

namespace Records

variable {options : Options} {past : List Node} {mode : Mode}

theorem initial (options : Options) : Records options [] (.initial options) where
  dialect := by cases named : options.doctype <;> simp [Mode.initial, choices, dialectOf, named]
  tag := rfl
  doctype _ := rfl

theorem startsDocument (records : Records options past mode) (tag : Tag Node) :
    mode.startsDocument tag.name = isBareRoot past (.tag tag) := by
  rw [Mode.startsDocument, isBareRoot, ← records.tag]
  cases seen : mode.tagSeen with
  | true => simp
  | false => simp [records.doctype seen, Bool.and_comm]

/-- A doctype without a name keeps the choice, or makes the first one. -/
theorem dialect_doctype (records : Records options past mode) {node : Node} (announced : announces past node) :
    (mode.doctype (doctypeName? node)).dialect = dialectOf (choices options (node :: past)) := by
  rw [choices]
  cases doctypeName? node with
  | some name => rfl
  | none =>
    rw [Mode.dialect_doctype_none, records.dialect, doctype_dialectOf]
    cases choices options past <;> simp [announced, dialectOf]

theorem dialect_enterTag (records : Records options past mode) (tag : Tag Node) :
    (mode.enterTag tag.name).dialect = dialectOf (choices options (.tag tag :: past)) := by
  rw [Mode.enterTag, records.startsDocument]
  cases starts : isBareRoot past (.tag tag) with
  | true =>
    have announced : announces past (.tag tag) := by simp [announces, starts]
    exact records.dialect_doctype announced
  | false =>
    have silent : announces past (.tag tag) = false := by simp [announces, starts, Node.isDoctype]
    rw [choices_of_silent options silent]
    exact records.dialect

theorem next (records : Records options past mode) (node : Node) : Records options (node :: past) (mode.past node) := by
  cases node with
  | tag tag =>
    refine ⟨records.dialect_enterTag tag, rfl, ?_⟩
    intro unseen
    cases unseen
  | doctype name location =>
    have announced : announces past (.doctype name location) := rfl
    exact ⟨records.dialect_doctype announced, records.tag, fun _ => rfl⟩
  | _ =>
    refine ⟨?_, records.tag, records.doctype⟩
    rw [choices_of_silent options rfl]
    exact records.dialect

end Records

/-- The stops of a way are met in the modes that the nodes before them lead to. -/
def Threaded : Mode → List Stop → Prop
  | _, [] => True
  | mode, stop :: rest => stop.mode = mode ∧ Threaded (mode.past stop.node) rest

theorem Threaded.append {mode : Mode} {first rest : List Stop} (before : Threaded mode first)
    (behind : Threaded (mode.pastAll first) rest) : Threaded mode (first ++ rest) := by
  induction first generalizing mode with
  | nil => exact behind
  | cons stop stops ih => exact ⟨before.1, ih before.2 behind⟩

mutual

theorem route_threaded (node : Node) (mode : Mode) : Threaded mode (route node mode) := by
  match node with
  | .block ⟨nodes, place⟩ => exact ⟨rfl, routeAll_threaded nodes mode⟩
  | .tag ⟨name, attributes, ⟨nodes, place⟩, code, selfClosing, computed, location⟩ =>
    refine ⟨rfl, ?_⟩
    split
    · trivial
    · exact (routeFirst_threaded code _).append (routeAll_threaded nodes _)
  | .code code => exact ⟨rfl, routeCode_threaded code mode⟩
  | .each ⟨collection, item, key, ⟨nodes, place⟩, alternative, location⟩ =>
    exact ⟨rfl, (routeAll_threaded nodes mode).append (routeBlock_threaded alternative _)⟩
  | .selection ⟨subject, ⟨nodes, place⟩, location⟩ => exact ⟨rfl, routeBranches_threaded nodes mode⟩
  | .branch ⟨label, block, location⟩ => exact ⟨rfl, routeBlock_threaded block mode⟩
  | .mixin ⟨name, parameters, block, attributes, call, location⟩ => exact ⟨rfl, routeBlock_threaded block mode⟩
  | .blockComment ⟨content, ⟨nodes, place⟩, buffered, location⟩ =>
    refine ⟨rfl, ?_⟩
    split
    · exact routeAll_threaded nodes mode
    · trivial
  | .text _ _ | .mixinBlock _ | .doctype _ _ | .comment _ _ _ | .filter _ | .literal _ _ => exact ⟨rfl, trivial⟩
termination_by structural node

theorem routeAll_threaded (nodes : List Node) (mode : Mode) : Threaded mode (routeAll nodes mode) := by
  match nodes with
  | [] => trivial
  | node :: rest => exact (route_threaded node mode).append (routeAll_threaded rest _)
termination_by structural nodes

theorem routeCode_threaded (code : Code Node) (mode : Mode) : Threaded mode (routeCode code mode) := by
  match code with
  | ⟨_, _, _, block, _⟩ => exact routeBlock_threaded block mode
termination_by structural code

theorem routeFirst_threaded (code : Option (Code Node)) (mode : Mode) : Threaded mode (routeFirst code mode) := by
  match code with
  | none => trivial
  | some code => exact routeCode_threaded code mode
termination_by structural code

theorem routeBlock_threaded (block : Option (Block Node)) (mode : Mode) : Threaded mode (routeBlock block mode) := by
  match block with
  | none => trivial
  | some ⟨nodes, _⟩ => exact routeAll_threaded nodes mode
termination_by structural block

theorem routeBranches_threaded (nodes : List Node) (mode : Mode) : Threaded mode (routeBranches nodes mode) := by
  match nodes with
  | [] => trivial
  | node :: rest =>
    have here := route_threaded node mode
    have later := routeBranches_threaded rest
    cases node with
    | branch branch =>
      obtain ⟨label, block, location⟩ := branch
      exact (routeBlock_threaded block mode).append (later _)
    | _ => exact here.append (later _)
termination_by structural nodes

end

/-- Along a way, every stop is met in a mode that the nodes before it account for. -/
theorem Records.along {options : Options} {past : List Node} {mode : Mode} {earlier later : List Stop} {stop : Stop}
    (records : Records options past mode) (threaded : Threaded mode (earlier ++ stop :: later)) :
    Records options ((earlier.map Stop.node).reverse ++ past) stop.mode := by
  induction earlier generalizing past mode with
  | nil =>
    rw [threaded.1]
    exact records
  | cons first rest ih =>
    have behind := ih (records.next first.node) threaded.2
    simpa using behind

/-! What a visit appends itself. -/

/-- A visited node, with the nodes that were visited before it. -/
structure Moment where
  past : List Node
  node : Node

def momentsFrom (past : List Node) : List Node → List Moment
  | [] => []
  | node :: rest => ⟨past, node⟩ :: momentsFrom (node :: past) rest

/-- The dialect in force behind the start of the node. -/
def Moment.dialect (options : Options) (moment : Moment) : Dialect :=
  dialectOf (choices options (moment.node :: moment.past))

/-- The doctype that is put out at the node, if one is: the one that was chosen last. -/
def Moment.announced (options : Options) (moment : Moment) : Option String :=
  if announces moment.past moment.node then
    (choices options (moment.node :: moment.past)).head?.map Dialect.doctypeOf
  else none

/-- Line breaks between texts that follow each other. -/
def breaks : List Node → List Site
  | [] => []
  | node :: rest => if node.isText && rest.head?.any Node.isText then .text "\n" :: breaks rest else breaks rest

def blockBreaks (block : Option (Block Node)) : List Site := block.elim [] (breaks ·.nodes)

def branchBreaks : List Node → List Site
  | [] => []
  | .branch branch :: rest => blockBreaks branch.block ++ branchBreaks rest
  | _ :: rest => branchBreaks rest

def codeSites (code : Code Node) : List Site :=
  (if code.buffered then [codeSite code] else []) ++ blockBreaks code.block

def isVoidTag (tag : Tag Node) (dialect : Dialect) : Bool := tag.selfClosing || dialect.isVoid tag.name

def opening (tag : Tag Node) (dialect : Dialect) : List Site :=
  startTag tag dialect.terse ++ [.text (if isVoidTag tag dialect && !dialect.terse then "/>" else ">")]

def ending (tag : Tag Node) (dialect : Dialect) : List Site := if isVoidTag tag dialect then [] else endTag tag

/-- What a visit appends besides a doctype. Only for elements does it depend on the dialect. -/
def Moment.sites (context : Context) (moment : Moment) : List Site :=
  match moment.node with
  | .tag tag =>
    opening tag (moment.dialect context.options) ++
      if isVoidTag tag (moment.dialect context.options) then []
      else tag.code.elim [] codeSites ++ (breaks tag.block.nodes ++ endTag tag)
  | .block block => breaks block.nodes
  | .text content _ => contentSites content
  | .code code => codeSites code
  | .each each => breaks each.block.nodes ++ blockBreaks each.alternative
  | .selection selection => branchBreaks selection.block.nodes
  | .branch branch => blockBreaks branch.block
  | .mixin mixin => blockBreaks mixin.block
  | .comment content buffered _ => if buffered then [.text ("<!--" ++ content ++ "-->")] else []
  | .blockComment comment =>
    if comment.buffered then .text ("<!--" ++ comment.text) :: (breaks comment.block.nodes ++ [.text "-->"]) else []
  | .filter filter =>
    match context.filtered filter with
    | .ok output => contentSites output
    | .error _ => []
  | .literal content _ => [.text content]
  | .doctype _ _ | .mixinBlock _ => []

/-- What a visit starts with: a doctype, and for an element its start tag. -/
def Moment.heading (options : Options) (moment : Moment) : List Site :=
  (moment.announced options).toList.map .text ++
    match moment.node with
    | .tag tag => opening tag (moment.dialect options)
    | _ => []

/-- The last that a visit appends: the end tag of an element, unless the element is void. -/
def Moment.closing (options : Options) (moment : Moment) : List Site :=
  match moment.node with
  | .tag tag => ending tag (moment.dialect options)
  | _ => []

/-- The node is an element that ends with its start tag. -/
def Moment.isVoid (options : Options) (moment : Moment) : Bool :=
  match moment.node with
  | .tag tag => isVoidTag tag (moment.dialect options)
  | _ => false

section

variable {context : Context} {mode : Mode}

theorem own_of_planned {node : Node} {step : Step} (planned : planNode context node mode = .ok step) : step.own = [] := by
  cases node with
  | tag tag =>
    obtain ⟨name, attributes, ⟨nodes, place⟩, code, selfClosing, computed, location⟩ := tag
    rw [planNode] at planned
    split at planned
    · split at planned
      · cases planned
      · cases planned
        rfl
    · obtain ⟨first, _, planned⟩ := bind_eq_ok planned
      obtain ⟨rest, _, same⟩ := bind_eq_ok planned
      cases same
      rfl
  | each each =>
    obtain ⟨collection, item, key, ⟨nodes, place⟩, alternative, location⟩ := each
    rw [planNode] at planned
    obtain ⟨steps, _, planned⟩ := bind_eq_ok planned
    cases alternative with
    | none =>
      cases planned
      rfl
    | some block =>
      obtain ⟨others, _, same⟩ := bind_eq_ok planned
      cases same
      rfl
  | mixin mixin =>
    rw [planNode] at planned
    obtain ⟨name, _, planned⟩ := bind_eq_ok planned
    obtain ⟨steps, _, same⟩ := bind_eq_ok planned
    cases same
    rfl
  | blockComment comment =>
    obtain ⟨content, ⟨nodes, place⟩, buffered, location⟩ := comment
    rw [planNode] at planned
    cases buffered with
    | false =>
      cases planned
      rfl
    | true =>
      obtain ⟨steps, _, same⟩ := bind_eq_ok planned
      cases same
      rfl
  | mixinBlock | doctype | comment | literal =>
    cases planned
    rfl
  | block | text | code | selection | branch | filter =>
    rw [planNode] at planned
    obtain ⟨steps, _, same⟩ := bind_eq_ok planned
    cases same
    rfl

theorem own_planNodes {nodes : List Node} {steps : List Step} (planned : planNodes context nodes mode = .ok steps) :
    ownAll steps = breaks nodes := by
  induction nodes generalizing mode steps with
  | nil =>
    cases planned
    rfl
  | cons node rest ih =>
    rw [planNodes] at planned
    obtain ⟨step, here, planned⟩ := bind_eq_ok planned
    obtain ⟨more, later, same⟩ := bind_eq_ok planned
    cases same
    rw [ownAll, own_of_planned here, List.nil_append, breaks]
    split
    · exact congrArg _ (ih later)
    · exact ih later

theorem own_planBody {block : Option (Block Node)} {steps : List Step} (planned : planBody context block mode = .ok steps) :
    ownAll steps = blockBreaks block := by
  cases block with
  | none =>
    cases planned
    rfl
  | some block => exact own_planNodes planned

theorem own_planCode {code : Code Node} {steps : List Step} (planned : planCode context code mode = .ok steps) :
    ownAll steps = codeSites code := by
  obtain ⟨source, buffered, escaped, block, location⟩ := code
  cases block with
  | none =>
    cases planned
    cases buffered <;> rfl
  | some block =>
    obtain ⟨inner, inside, same⟩ := bind_eq_ok planned
    have content := own_planNodes inside
    cases buffered with
    | true =>
      cases same
      simp [ownAll, codeStep, Step.own, codeSites, blockBreaks, content]
    | false =>
      cases same
      simp [ownAll, codeStep, Step.own, codeSites, blockBreaks, content]

theorem own_planFirst {code : Option (Code Node)} {steps : List Step} (planned : planFirst context code mode = .ok steps) :
    ownAll steps = code.elim [] codeSites := by
  cases code with
  | none =>
    cases planned
    rfl
  | some code => exact own_planCode planned

theorem own_planBranches {nodes : List Node} {labels : List String} {hasDefault : Bool} {steps : List Step}
    (planned : planBranches context nodes labels hasDefault mode = .ok steps) : ownAll steps = branchBreaks nodes := by
  induction nodes generalizing labels hasDefault mode steps with
  | nil =>
    cases planned
    cases labels <;> cases hasDefault <;> rfl
  | cons node rest ih =>
    cases node with
    | branch branch =>
      obtain ⟨label, block, location⟩ := branch
      rw [planBranches] at planned
      split at planned
      · obtain ⟨inside, content, planned⟩ := bind_eq_ok planned
        obtain ⟨more, later, same⟩ := bind_eq_ok planned
        cases same
        simp [ownAll, Step.own, branchBreaks, own_planBody content, ih later]
      · cases block with
        | none => exact ih planned
        | some block =>
          obtain ⟨inside, content, planned⟩ := bind_eq_ok planned
          obtain ⟨more, later, same⟩ := bind_eq_ok planned
          cases same
          simp [ownAll, Step.own, branchBreaks, blockBreaks, own_planNodes content, ih later]
    | _ =>
      rw [planBranches] at planned
      · obtain ⟨step, here, planned⟩ := bind_eq_ok planned
        obtain ⟨more, later, same⟩ := bind_eq_ok planned
        cases same
        rw [ownAll, own_of_planned here, ih later]
        rfl
      · simp

/-- The plan of an element: a doctype if one is missing, the start tag, the content, which a void
element has not, and the end tag. -/
theorem planned_tag {tag : Tag Node} {step : Step} (planned : planNode context (.tag tag) mode = .ok step) :
    let dialect := (mode.enterTag tag.name).dialect
    ∃ content, step = .visit (.tag tag) (enterSteps mode tag.name ++
        ((opening tag dialect).map .put ++ (content ++ (ending tag dialect).map .put))) ∧
      (isVoidTag tag dialect → content = []) ∧
      ownAll content = if isVoidTag tag dialect then [] else tag.code.elim [] codeSites ++ breaks tag.block.nodes := by
  intro dialect
  rw [planNode] at planned
  cases isVoid : isVoidTag tag dialect with
  | true =>
    have void : (tag.selfClosing || dialect.isVoid tag.name) = true := isVoid
    simp only [dialect, void, if_true] at planned
    split at planned
    · cases planned
    · cases planned
      refine ⟨[], ?_, fun _ => rfl, rfl⟩
      cases terse : (mode.enterTag tag.name).dialect.terse <;> simp [opening, ending, isVoid, terse, dialect]
  | false =>
    have filled : (tag.selfClosing || dialect.isVoid tag.name) = false := isVoid
    simp only [dialect, filled, Bool.false_eq_true, if_false] at planned
    obtain ⟨first, planFirst, planned⟩ := bind_eq_ok planned
    obtain ⟨rest, planRest, same⟩ := bind_eq_ok planned
    cases same
    refine ⟨first ++ rest, ?_, by simp, ?_⟩
    · simp [opening, ending, isVoid, dialect]
    · rw [ownAll_append, own_planFirst planFirst, own_planNodes planRest]
      rfl

end

/-- What a node appends that is neither an element nor a doctype does not depend on the mode. -/
theorem other_share {context : Context} {mode : Mode} {node : Node} {step : Step} (past : List Node)
    (other : node.isTag = false ∧ node.isDoctype = false) (planned : planNode context node mode = .ok step) :
    step.share = Moment.sites context ⟨past, node⟩ := by
  cases node with
  | tag | doctype => simp [Node.isTag, Node.isDoctype] at other
  | block block =>
    rw [planNode] at planned
    obtain ⟨steps, inside, same⟩ := bind_eq_ok planned
    cases same
    exact own_planNodes inside
  | text content location =>
    rw [planNode] at planned
    obtain ⟨sites, made, same⟩ := bind_eq_ok planned
    cases same
    rw [Step.share, ownAll_put]
    exact (interpolatedSites_ok made).symm
  | code code =>
    rw [planNode] at planned
    obtain ⟨steps, inside, same⟩ := bind_eq_ok planned
    cases same
    exact own_planCode inside
  | each each =>
    obtain ⟨collection, item, key, ⟨nodes, place⟩, alternative, location⟩ := each
    rw [planNode] at planned
    obtain ⟨steps, inside, planned⟩ := bind_eq_ok planned
    have content := own_planNodes inside
    cases alternative with
    | none =>
      cases planned
      simp [Step.share, ownAll, Step.own, Moment.sites, blockBreaks, content]
    | some block =>
      obtain ⟨others, elsewhere, same⟩ := bind_eq_ok planned
      cases same
      simp [Step.share, ownAll, Step.own, Moment.sites, blockBreaks, content, own_planNodes elsewhere]
  | selection selection =>
    rw [planNode] at planned
    obtain ⟨steps, inside, same⟩ := bind_eq_ok planned
    cases same
    have content := own_planBranches inside
    exact content
  | branch branch =>
    rw [planNode] at planned
    obtain ⟨steps, inside, same⟩ := bind_eq_ok planned
    cases same
    simp [Step.share, ownAll, Step.own, Moment.sites, own_planBody inside]
  | mixin mixin =>
    rw [planNode] at planned
    obtain ⟨name, _, planned⟩ := bind_eq_ok planned
    obtain ⟨steps, inside, same⟩ := bind_eq_ok planned
    cases same
    exact own_planBody inside
  | mixinBlock location =>
    cases planned
    rfl
  | comment content buffered location =>
    cases planned
    cases buffered <;> rfl
  | blockComment comment =>
    obtain ⟨content, ⟨nodes, place⟩, buffered, location⟩ := comment
    rw [planNode] at planned
    cases buffered with
    | false =>
      cases planned
      rfl
    | true =>
      obtain ⟨steps, inside, same⟩ := bind_eq_ok planned
      cases same
      simp [Step.share, ownAll, Step.own, Moment.sites, own_planNodes inside]
  | filter filter =>
    rw [planNode] at planned
    obtain ⟨sites, made, same⟩ := bind_eq_ok planned
    cases same
    rw [Step.share, ownAll_put]
    unfold filterSites at made
    cases output : context.filtered filter with
    | error error =>
      rw [output] at made
      cases made
    | ok text =>
      rw [output] at made
      have shown : Moment.sites context ⟨past, .filter filter⟩ = contentSites text := by simp [Moment.sites, output]
      rw [shown]
      exact (interpolatedSites_ok made).symm
  | literal content location =>
    cases planned
    rfl

namespace Records

variable {context : Context} {past : List Node} {mode : Mode} {node : Node} {step : Step}

theorem announced_eq (records : Records context.options past mode) (announced : announces past node) :
    Moment.announced context.options ⟨past, node⟩ = some (mode.doctype (doctypeName? node)).doctypeText := by
  obtain ⟨name, others, chosen⟩ := List.exists_cons_of_ne_nil (choices_ne_nil context.options announced)
  rw [Moment.announced, if_pos announced, Mode.doctypeText, records.dialect_doctype announced, chosen]
  rfl

/-- Before an element there is a doctype where the document starts with its root. -/
theorem openingSites_eq (records : Records context.options past mode) (tag : Tag Node) :
    openingSites mode tag.name = (Moment.announced context.options ⟨past, .tag tag⟩).toList.map .text := by
  rw [openingSites, records.startsDocument]
  cases starts : isBareRoot past (.tag tag) with
  | true =>
    have announced : announces past (.tag tag) := by simp [announces, starts]
    rw [records.announced_eq announced]
    rfl
  | false => simp [Moment.announced, announces, starts, Node.isDoctype]

theorem share_eq (records : Records context.options past mode) (planned : planNode context node mode = .ok step) :
    step.share = (Moment.announced context.options ⟨past, node⟩).toList.map .text ++ Moment.sites context ⟨past, node⟩ := by
  cases node with
  | tag tag =>
    obtain ⟨content, rfl, _, inside⟩ := planned_tag planned
    have entered : ownAll (enterSteps mode tag.name) = openingSites mode tag.name := by
      unfold enterSteps openingSites
      split <;> rfl
    rw [Step.share, ownAll_append, ownAll_append, ownAll_append, ownAll_put, ownAll_put, inside, entered,
      records.openingSites_eq, records.dialect_enterTag]
    cases isVoid : isVoidTag tag (dialectOf (choices context.options (.tag tag :: past))) <;>
      simp [Moment.sites, Moment.dialect, ending, isVoid]
  | doctype name location =>
    rw [records.announced_eq rfl]
    cases planned
    rfl
  | _ => exact other_share past ⟨rfl, rfl⟩ planned

/-- The operations of a visit start with its heading and end with its end tag. A void element has
nothing between them. -/
theorem operations_eq (records : Records context.options past mode) (planned : planNode context node mode = .ok step)
    (state : State) :
    ∃ inside, step.operations context state =
        (Moment.heading context.options ⟨past, node⟩).map (Site.operation context) ++
          (inside ++ (Moment.closing context.options ⟨past, node⟩).map (Site.operation context)) ∧
      (Moment.isVoid context.options ⟨past, node⟩ → inside = []) := by
  cases node with
  | tag tag =>
    obtain ⟨content, rfl, void, _⟩ := planned_tag planned
    rw [records.dialect_enterTag] at void
    let start : List Step := enterSteps mode tag.name ++ (opening tag (mode.enterTag tag.name).dialect).map .put
    have entered : sitesOf (enterSteps mode tag.name) = openingSites mode tag.name ∧
        allFlat (enterSteps mode tag.name) := by
      unfold enterSteps openingSites
      split <;> exact ⟨rfl, rfl⟩
    -- The plan starts flat, so what it does first is to put out the sites of this part.
    have flat : allFlat start := by simp [start, entered.2]
    have heading : sitesOf start = Moment.heading context.options ⟨past, .tag tag⟩ := by
      rw [sitesOf_append, sitesOf_put, entered.1, records.openingSites_eq, records.dialect_enterTag]
      rfl
    let behind := runAll context start state
    have closing : operationsAll context (content ++ (ending tag (mode.enterTag tag.name).dialect).map .put) behind =
        operationsAll context content behind ++
          (Moment.closing context.options ⟨past, .tag tag⟩).map (Site.operation context) := by
      rw [operationsAll_append, operationsAll_flat context _ (allFlat_put _), sitesOf_put, records.dialect_enterTag]
      rfl
    have whole := operationsAll_append context start
      (content ++ (ending tag (mode.enterTag tag.name).dialect).map .put) state
    rw [operationsAll_flat context start flat, heading, closing, List.append_assoc] at whole
    refine ⟨operationsAll context content behind, whole, fun isVoid => ?_⟩
    rw [void isVoid]
    rfl
  | doctype name location =>
    refine ⟨[], ?_, fun _ => rfl⟩
    rw [Moment.heading, records.announced_eq rfl]
    cases planned
    rfl
  | _ => exact ⟨_, (List.append_nil _).symm, fun isVoid => nomatch isVoid⟩

end Records

/-! Whole walks. -/

/-- The first element or doctype of a walk is an element that is the root of a document. -/
def startsWithRoot (nodes : List Node) : Bool :=
  (nodes.find? fun node => node.isTag || node.isDoctype).any (isBareRoot [])

theorem isSome_announced (options : Options) (moment : Moment) :
    (moment.announced options).isSome = announces moment.past moment.node := by
  rw [Moment.announced]
  cases announced : announces moment.past moment.node with
  | false => rfl
  | true =>
    obtain ⟨name, others, chosen⟩ := List.exists_cons_of_ne_nil (choices_ne_nil options announced)
    rw [chosen]
    rfl

/-- Doctypes are put out once for each that is visited, and once more for a root that comes first. -/
theorem length_announced (options : Options) (past nodes : List Node) :
    ((momentsFrom past nodes).filterMap (Moment.announced options)).length =
      nodes.countP Node.isDoctype +
        if !past.any Node.isTag && !past.any Node.isDoctype && startsWithRoot nodes then 1 else 0 := by
  induction nodes generalizing past with
  | nil => simp [momentsFrom, startsWithRoot]
  | cons node rest ih =>
    have here := isSome_announced options ⟨past, node⟩
    have later := ih (node :: past)
    rw [List.length_filterMap_eq_countP] at later ⊢
    rw [momentsFrom, List.countP_cons, later, List.countP_cons, here]
    cases isTag : node.isTag with
    | false =>
      have other : ∀ past, isBareRoot past node = false := fun _ => isBareRoot_of_other isTag
      cases isDoctype : node.isDoctype <;> simp [announces, startsWithRoot, other, isTag, isDoctype]
    | true =>
      obtain ⟨tag, rfl⟩ : ∃ tag, node = .tag tag := by
        cases node with
        | tag tag => exact ⟨tag, rfl⟩
        | _ => cases isTag
      have first : startsWithRoot (.tag tag :: rest) = (tag.name == "html") := by
        simp [startsWithRoot, Node.isTag, isBareRoot]
      simp [first, announces, isBareRoot, Node.isTag, Node.isDoctype, and_comm, and_left_comm]

theorem shares_eq {context : Context} {past : List Node} {mode : Mode} {visits : List Visit}
    (records : Records context.options past mode) (threaded : Threaded mode (visits.map Visit.stop))
    (planned : ∀ visit ∈ visits, ∃ step, planNode context visit.node visit.before.mode = .ok step) :
    visits.flatMap (Visit.share context) = (momentsFrom past (visits.map Visit.node)).flatMap fun moment =>
      (moment.announced context.options).toList.map .text ++ moment.sites context := by
  induction visits generalizing past mode with
  | nil => rfl
  | cons visit rest ih =>
    obtain ⟨starts, behind⟩ := threaded
    obtain ⟨step, here⟩ := planned visit List.mem_cons_self
    have now : Records context.options past visit.before.mode := by
      have same : visit.before.mode = mode := starts
      rw [same]
      exact records
    rw [List.flatMap_cons, Visit.share_of_planned here, now.share_eq here,
      ih (records.next visit.node) behind fun other member => planned other (List.mem_cons_of_mem _ member)]
    rfl

theorem sites_perm_announced (context : Context) (moments : List Moment) :
    ((moments.flatMap fun moment => (moment.announced context.options).toList.map .text ++ moment.sites context).map
      (Site.piece context)).Perm
      ((moments.filterMap (Moment.announced context.options)).map .text ++
        (moments.flatMap (Moment.sites context)).map (Site.piece context)) := by
  have texts : (moments.flatMap fun moment => (moment.announced context.options).toList.map Site.text).map
      (Site.piece context) = (moments.filterMap (Moment.announced context.options)).map .text := by
    rw [List.filterMap_eq_flatMap_toList, List.map_flatMap, List.map_flatMap]
    congr 1
    funext moment
    cases moment.announced context.options <;> rfl
  have apart := List.flatMap_append_perm moments
    (fun moment => (moment.announced context.options).toList.map Site.text) (Moment.sites context)
  have whole := apart.symm.map (Site.piece context)
  rwa [List.map_append, texts] at whole

/-- Whatever is compiled, one sequence of operations makes the code. What it appends are the
doctypes that are announced and the other sites of the visits, nothing else: one doctype for each
that is visited, and one more for a root that comes before any element and any doctype. It is the
doctype chosen last, and its dialect is in force at every visit. A visit starts with its heading,
where the doctype of a root stands right before the tag and the start tag is written as the
dialect has it, and ends with the end tag; an element that is void in the dialect has neither
content nor an end tag. -/
theorem doctypes_follow_choices {context : Context} {root : Node} {output : Output}
    (compiled : compile context root = .ok output) :
    ∃ final visits operations,
      emitNode context root (.initial context.options) = .ok final ∧
      output = ⟨final.finished.source, final.warnings⟩ ∧
      visitsOf context root = .ok visits ∧ final.draft = Nim.draftOf operations ∧
      (let nodes := visits.map Visit.node
       let moments := momentsFrom [] nodes
       let announced := moments.filterMap (Moment.announced context.options)
       (operations.filterMap Nim.Operation.piece?).Perm
          (announced.map .text ++ (moments.flatMap (Moment.sites context)).map (Site.piece context)) ∧
        announced.length = nodes.countP Node.isDoctype + if startsWithRoot nodes then 1 else 0) ∧
      ∀ earlier visit later, visits = earlier ++ visit :: later →
        let moment : Moment := ⟨(earlier.map Visit.node).reverse, visit.node⟩
        visit.before.dialect = dialectOf (choices context.options moment.past) ∧
          visit.share context = (moment.announced context.options).toList.map .text ++ moment.sites context ∧
          ∃ done inside more,
            let own := (moment.heading context.options).map (Site.operation context) ++
              (inside ++ (moment.closing context.options).map (Site.operation context))
            operations = done ++ (own ++ more) ∧ visit.before.draft = Nim.draftOf done ∧
              visit.after.draft = Nim.draftOf (done ++ own) ∧ (moment.isVoid context.options → inside = []) := by
  obtain ⟨final, emitted, same⟩ := compile_eq_ok compiled
  obtain ⟨step, planned, rfl⟩ := planned_of_emitted emitted
  have start : Records context.options [] (State.initial context.options).mode := .initial context.options
  have isPlanned := planNode_isPlanned root planned
  have performed := visits_performed step isPlanned
  have threaded : Threaded (State.initial context.options).mode
      ((step.visits context (.initial context.options)).map Visit.stop) := by
    rw [stops_of_planned planned]
    exact route_threaded root _
  refine ⟨_, step.visits context (.initial context.options), step.operations context (.initial context.options),
    emitted, same, ?_, draft_run context step _, ⟨?_, ?_⟩, ?_⟩
  · have made : planNode context root (.initial context.options) = .ok step := planned
    rw [visitsOf, made]
    rfl
  · have known : ∀ visit ∈ step.visits context (.initial context.options),
        ∃ inner, planNode context visit.node visit.before.mode = .ok inner := by
      intro visit member
      obtain ⟨inner, _, _, here, _⟩ := performed visit member
      exact ⟨inner, here⟩
    have shares := shares_eq start threaded known
    have sites : step.sites.Perm _ := sites_perm_shares step isPlanned
    rw [own_of_planned planned, List.nil_append, shares] at sites
    rw [pieces_operations]
    exact (sites.map _).trans (sites_perm_announced context _)
  · exact length_announced context.options [] _
  · intro earlier visit later split moment
    rw [split, List.map_append, List.map_cons] at threaded
    have records : Records context.options moment.past visit.before.mode := by
      have along := start.along threaded
      rw [List.append_nil, List.map_map] at along
      exact along
    have member : visit ∈ step.visits context (.initial context.options) := by simp [split]
    obtain ⟨inner, done, more, here, whole, begun⟩ := performed visit member
    obtain ⟨inside, own, void⟩ := records.operations_eq here visit.before
    have share := (Visit.share_of_planned here).trans (records.share_eq here)
    refine ⟨records.dialect, share, done, inside, more, ?_, begun, ?_, void⟩
    · rw [whole, own]
    · have ended := Visit.draft_after here (visits_emit step isPlanned visit member)
      rw [own, begun, ← List.foldl_append] at ended
      exact ended

def lineBreak : Node := .tag { name := "br" }

def page : Node := .tag { name := "html", block := { nodes := [lineBreak] } }

/-- An HTML document with an XML one behind it. -/
def twoDocuments : Node := .block { nodes := [page, .doctype (some "xml") {}, lineBreak] }

private theorem nodes_twoDocuments :
    List.map Visit.node <$> visitsOf ⟨{}, .none⟩ twoDocuments =
      .ok [twoDocuments, page, lineBreak, .doctype (some "xml") {}, lineBreak] := by
  rfl

theorem two_documents_follow_choices :
    ∃ output final visits, ∃ operations : List Nim.Operation, compile ⟨{}, .none⟩ twoDocuments = .ok output ∧
      output.source = "  jade_buf.add(\"<!DOCTYPE html><html><br></html>" ++
        "<?xml version=\\\"1.0\\\" encoding=\\\"utf-8\\\" ?><br></br>\")" ∧
      emitNode ⟨{}, .none⟩ twoDocuments (.initial {}) = .ok final ∧
      visitsOf ⟨{}, .none⟩ twoDocuments = .ok visits ∧ final.draft = Nim.draftOf operations ∧
      (momentsFrom [] (visits.map Visit.node)).filterMap (Moment.announced {}) =
        ["<!DOCTYPE html>", "<?xml version=\"1.0\" encoding=\"utf-8\" ?>"] ∧
      (∃ done inside more : List Nim.Operation, operations = done ++
        ([.text "<!DOCTYPE html>", .text "<", .text "html", .text ">"] ++
          (inside ++ [.text "</", .text "html", .text ">"]) ++ more)) ∧
      (∃ done more : List Nim.Operation, operations = done ++ ([.text "<", .text "br", .text ">"] ++ more)) ∧
      ∃ done inside more : List Nim.Operation, operations = done ++
        ([.text "<", .text "br", .text ">"] ++ (inside ++ [.text "</", .text "br", .text ">"]) ++ more) := by
  have source : (compile ⟨{}, .none⟩ twoDocuments).toOption.map Output.source =
      some ("  jade_buf.add(\"<!DOCTYPE html><html><br></html>" ++
        "<?xml version=\\\"1.0\\\" encoding=\\\"utf-8\\\" ?><br></br>\")") := by
    decide +kernel
  cases compiled : compile ⟨{}, .none⟩ twoDocuments with
  | error error =>
    rw [compiled] at source
    cases source
  | ok output =>
    rw [compiled] at source
    obtain ⟨final, visits, operations, emitted, -, visited, made, -, begins⟩ := doctypes_follow_choices compiled
    have nodes := nodes_twoDocuments
    rw [visited] at nodes
    have nodes : visits.map Visit.node = _ := Except.ok.inj nodes
    have visit_at : ∀ {before node behind first last}, visits.map Visit.node = before ++ node :: behind →
        Moment.heading {} ⟨before.reverse, node⟩ = first → Moment.closing {} ⟨before.reverse, node⟩ = last →
        ∃ done inside more : List Nim.Operation, operations = done ++ (first.map (Site.operation ⟨{}, .none⟩) ++
            (inside ++ last.map (Site.operation ⟨{}, .none⟩)) ++ more) ∧
          (Moment.isVoid {} ⟨before.reverse, node⟩ → inside = []) := by
      rintro before node behind _ _ split rfl rfl
      obtain ⟨earlier, rest, rfl, rfl, behind⟩ := List.map_eq_append_iff.mp split
      obtain ⟨visit, later, rfl, rfl, -⟩ := List.map_eq_cons_iff.mp behind
      obtain ⟨-, -, done, inside, more, whole, -, -, void⟩ := begins earlier visit later rfl
      exact ⟨done, inside, more, whole, void⟩
    refine ⟨output, final, visits, operations, rfl, Option.some.inj source, emitted, visited, made, ?_, ?_, ?_, ?_⟩
    · rw [nodes]
      decide +kernel
    · obtain ⟨done, inside, more, whole, -⟩ := @visit_at [_] _ _
        [.text "<!DOCTYPE html>", .text "<", .text "html", .text ">"] [.text "</", .text "html", .text ">"] nodes
        (by decide +kernel) (by decide +kernel)
      exact ⟨done, inside, more, whole⟩
    · obtain ⟨done, inside, more, whole, void⟩ := @visit_at [_, _] _ _
        [.text "<", .text "br", .text ">"] [] nodes (by decide +kernel) (by decide +kernel)
      rw [void (by decide +kernel)] at whole
      exact ⟨done, more, whole⟩
    · obtain ⟨done, inside, more, whole, -⟩ := @visit_at [_, _, _, _] _ _
        [.text "<", .text "br", .text ">"] [.text "</", .text "br", .text ">"] nodes (by decide +kernel) (by decide +kernel)
      exact ⟨done, inside, more, whole⟩

end Compile

end NimTemplate
