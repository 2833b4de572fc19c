import NimTemplate.Compile.Emission
import NimTemplate.Proofs.Pieces

/-! The walk over a template in two parts. Which steps it takes is decided by the template, the
filters and the doctype in force: this is the plan, and only making it can fail. Carrying the
steps out changes the draft, the mixins and the warnings. Plans are proof data; the walk is
shown to be a plan carried out. -/

namespace NimTemplate.Compile

/-- What the walk knows of the document. -/
structure Mode where
  dialect : Markup.Dialect
  doctypeSeen : Bool
  tagSeen : Bool
deriving DecidableEq, Repr

namespace Mode

def initial (options : Options) : Mode := ⟨options.doctype.elim .unset .ofName, false, false⟩

/-- Behind a doctype: the dialect is the one that is named, else the one in force, else the
default. -/
def doctype (mode : Mode) (name : Option String) : Mode where
  dialect := match name, mode.dialect.doctype with
    | some name, _ => .ofName name
    | none, some _ => mode.dialect
    | none, none => .ofName "default"
  doctypeSeen := true
  tagSeen := mode.tagSeen

def doctypeText (mode : Mode) : String := mode.dialect.doctype.getD ""

/-- Whether an element is the root of a document that has no doctype so far. -/
def startsDocument (mode : Mode) (name : String) : Bool :=
  !mode.tagSeen && !mode.doctypeSeen && name == "html"

def enterTag (mode : Mode) (name : String) : Mode :=
  { (if mode.startsDocument name then mode.doctype none else mode) with tagSeen := true }

end Mode

def State.mode (state : State) : Mode := ⟨state.dialect, state.doctypeSeen, state.tagSeen⟩

def State.inMode (state : State) (mode : Mode) : State :=
  { state with dialect := mode.dialect, doctypeSeen := mode.doctypeSeen, tagSeen := mode.tagSeen }

/-- One thing that a template adds to its output. The last kind stands for all attributes of an
element that has some only known when rendering. -/
inductive Site where
  | text (content : String)
  | value (source code : String) (escape : Bool)
  | attr (attr : Attribute) (terse : Bool)
  | classes (classes : List Attribute) (location : Location)
  | merged (attributes : Attributes) (location : Location) (terse : Bool)
deriving DecidableEq, Repr

def classEntry (context : Context) (classes : List Attribute) : List String :=
  if classes.isEmpty then []
  else match context.allKnown? (classes.map (·.source)) with
    | some values => ["\"class\": " ++ Text.Quoted.literal (knownClasses classes values)]
    | none => ["\"class\": jade.joinClasses(" ++ classSources classes ++ ")"]

def tableText (context : Context) (attrs : List Attribute) : String :=
  "\x7b" ++ ", ".intercalate ((plainAttrs attrs).map (entry context) ++ classEntry context (classAttrs attrs)) ++
    "\x7d"

/-- Classes that are not all known leave a warning. -/
def classWarnings (context : Context) (classes : List Attribute) (location : Location) : List Warning :=
  if classes.isEmpty || (context.allKnown? (classes.map (·.source))).isSome then []
  else [⟨.classJoin, location.line⟩]

def valueCall (code : String) (escape : Bool) : String :=
  if escape then "jade.escape($(" ++ code ++ "))" else code

def classCall (members : List Attribute) : String :=
  "jade.cls(" ++ classSources members ++ ", " ++ listText (members.map fun c => boolText c.escaped) ++ ")"

/-- The tables that are merged: the written attributes, where there are some, and the others. -/
def mergedTables (context : Context) (attributes : Attributes) : List String :=
  (if attributes.attrs.isEmpty then [] else [tableText context attributes.attrs]) ++
    attributes.blocks.map Nim.attributeValue

def mergeCall (tables : List String) (terse : Bool) : String :=
  "jade.attrs(jade.merge(" ++ listText tables ++ "), " ++ boolText terse ++ ")"

namespace Site

/-- The text of a site, where every value it shows is found. -/
def text? (find : String → Option Value) : Site → Option String
  | .text content => some content
  | .value source _ escape =>
    (find source).map fun value => if escape then Markup.escapeText value.render else value.render
  | .attr item terse =>
    (find item.source).map fun value => Markup.attr item.name value item.escaped terse
  | .classes members _ =>
    ((members.map (·.source)).mapM find).map fun values => Markup.classes values (members.map (·.escaped))
  | .merged _ _ _ => none

/-- The Nim expression that a site leaves to rendering. -/
def code (context : Context) : Site → String
  | .text content => Text.Quoted.literal content
  | .value _ code escape => valueCall code escape
  | .attr item terse => attributeCall item terse
  | .classes members _ => classCall members
  | .merged attributes _ terse => mergeCall (mergedTables context attributes) terse

def piece (context : Context) (site : Site) : Nim.Piece :=
  match site.text? context.known? with
  | some content => .text content
  | none => .expr (site.code context)

def warnings (context : Context) : Site → List Warning
  | .classes members location => classWarnings context members location
  | .merged attributes location _ =>
    classWarnings context (classAttrs attributes.attrs) location ++ [⟨.attributeBlock, location.line⟩]
  | _ => []

end Site

def State.put (state : State) (context : Context) (site : Site) : State :=
  { state with
    draft := state.draft.put (site.piece context)
    warnings := state.warnings ++ site.warnings context }

def State.putAll (state : State) (context : Context) (sites : List Site) : State :=
  sites.foldl (fun state site => state.put context site) state

/-- One step of a plan. A body is one level deeper and never without a line; what is nested is
only deeper. Steps that a node takes stand under the node, and a mixin takes its own. -/
inductive Step where
  | put (site : Site)
  | line (statement : String)
  | blank
  | mode (mode : Mode)
  | nested (steps : List Step)
  | body (steps : List Step)
  | mixin (mixin : Mixin Node) (steps : List Step)
  | visit (node : Node) (steps : List Step)

/-- The name of a mixin, where it has one. -/
def resolvedName (context : Context) (mixin : Mixin Node) : String :=
  (mixinName context mixin).toOption.getD ""

namespace State

/-- Ends a body that was begun in the given state. -/
def endBody (state inside : State) : State :=
  (if inside.draft.size = state.draft.size then inside.line "discard" else inside).dedent

def noteComputed (state : State) (mixin : Mixin Node) : State :=
  if mixin.isComputed then { state with mixins := state.mixins.markComputed } else state

def enterMixin (state : State) (context : Context) (mixin : Mixin Node) : State :=
  (state.noteComputed mixin).mixinHead context mixin (resolvedName context mixin)

end State

mutual

def Step.run (context : Context) : Step → State → State
  | .put site, state => state.put context site
  | .line statement, state => state.line statement
  | .blank, state => state.blank
  | .mode mode, state => state.inMode mode
  | .nested steps, state => (runAll context steps state.indent).dedent
  | .body steps, state => state.endBody (runAll context steps state.indent)
  | .mixin mixin steps, state =>
    ((state.enterMixin context mixin).endBody
      (runAll context steps (state.enterMixin context mixin).indent)).mixinEnd mixin
        (resolvedName context mixin) state.draft.size
  | .visit _ steps, state => runAll context steps state

def runAll (context : Context) : List Step → State → State
  | [], state => state
  | step :: rest, state => runAll context rest (step.run context state)

end

mutual

def Step.modeAfter : Step → Mode → Mode
  | .mode mode, _ => mode
  | .nested steps, mode | .body steps, mode | .mixin _ steps, mode | .visit _ steps, mode =>
    modeAfterAll steps mode
  | _, mode => mode

def modeAfterAll : List Step → Mode → Mode
  | [], mode => mode
  | step :: rest, mode => modeAfterAll rest (step.modeAfter mode)

end

def tagNameSite (tag : Tag Node) : Site :=
  if tag.computed then .value tag.name (Nim.tagName tag.name) false else .text tag.name

def attributeSites (attributes : Attributes) (location : Location) (terse : Bool) : List Site :=
  if attributes.blocks.isEmpty then
    (plainAttrs attributes.attrs).map (.attr · terse) ++
      (if (classAttrs attributes.attrs).isEmpty then [] else [.classes (classAttrs attributes.attrs) location])
  else [.merged attributes location terse]

/-- The start tag up to, and without, its closing bracket. -/
def startTag (tag : Tag Node) (terse : Bool) : List Site :=
  .text "<" :: tagNameSite tag :: attributeSites tag.attributes tag.location terse

def endTag (tag : Tag Node) : List Site := [.text "</", tagNameSite tag, .text ">"]

def segmentSite : Segment → Site
  | .text content => .text content
  | .expr source escape =>
    .value (State.trimmed source) (Nim.normalizeQuotes (State.trimmed source)) escape

def interpolatedSites (context : Context) (content : String) (location : Location) : Except Error (List Site) :=
  match Interpolation.segments content with
  | .ok segments => .ok (segments.map segmentSite)
  | .error error => .error (context.fail (.brace error) location)

def Context.filtered (context : Context) (filter : Filter Node) : Except FilterError String :=
  context.filters.apply filter.name (filterText filter.block.nodes) (filterOptions context filter.attrs)

def filterSites (context : Context) (filter : Filter Node) : Except Error (List Site) :=
  match context.filtered filter with
  | .ok output => interpolatedSites context output filter.location
  | .error error => .error (Error.locate filter.location context.options.file (.filter filter.name error {}))

def codeSite (code : Code Node) : Site :=
  .value (expressionOf code.source) (Nim.statement code.source) code.escaped

def codeStep (code : Code Node) : Step :=
  if code.buffered then .put (codeSite code) else .line (Nim.statement code.source)

def doctypeSteps (mode : Mode) (name : Option String) : List Step :=
  [.mode (mode.doctype name), .put (.text (mode.doctype name).doctypeText)]

def enterSteps (mode : Mode) (name : String) : List Step :=
  (if mode.startsDocument name then doctypeSteps mode none else []) ++ [.mode (mode.enterTag name)]

mutual

def planNode (context : Context) : Node → Mode → Except Error Step
  | .block ⟨nodes, place⟩, mode => do
    let steps ← planNodes context nodes mode
    pure (.visit (.block ⟨nodes, place⟩) steps)
  | .tag ⟨name, attributes, ⟨nodes, place⟩, code, selfClosing, computed, location⟩, mode =>
    let tag : Tag Node := ⟨name, attributes, ⟨nodes, place⟩, code, selfClosing, computed, location⟩
    let inside := mode.enterTag name
    let start := enterSteps mode name ++ (startTag tag inside.dialect.terse).map .put
    if selfClosing || inside.dialect.isVoid name then
      if nodes.any Node.hasContent then .error (context.fail (.content name) location)
      else .ok (.visit (.tag tag) (start ++ [.put (.text (if inside.dialect.terse then ">" else "/>"))]))
    else do
      let first ← planFirst context code inside
      let rest ← planNodes context nodes (modeAfterAll first inside)
      pure (.visit (.tag tag) (start ++ .put (.text ">") :: (first ++ (rest ++ (endTag tag).map .put))))
  | .text content location, _ => do
    let sites ← interpolatedSites context content location
    pure (.visit (.text content location) (sites.map .put))
  | .code code, mode => do
    let steps ← planCode context code mode
    pure (.visit (.code code) steps)
  | .each ⟨collection, item, key, ⟨nodes, place⟩, alternative, location⟩, mode => do
    let each : Each Node := ⟨collection, item, key, ⟨nodes, place⟩, alternative, location⟩
    let collection := Nim.normalizeQuotes collection
    let steps ← planNodes context nodes mode
    let loop : List Step := [.line (loopHead each collection), .body steps, .blank]
    match alternative with
    | none => pure (.visit (.each each) (.line ("# iterate " ++ collection) :: loop))
    | some ⟨others, _⟩ =>
      let others ← planNodes context others (modeAfterAll steps mode)
      pure (.visit (.each each) [.line ("# iterate " ++ collection), .line ("if " ++ collection ++ ".len > 0:"),
        .nested loop, .line "else:", .body others, .blank])
  | .selection ⟨subject, ⟨nodes, place⟩, location⟩, mode => do
    let steps ← planBranches context nodes [] false mode
    pure (.visit (.selection ⟨subject, ⟨nodes, place⟩, location⟩)
      (.line ("case (" ++ Nim.normalizeQuotes subject ++ ")") :: steps))
  | .branch ⟨label, block, location⟩, mode => do
    let branch : Branch Node := ⟨label, block, location⟩
    let steps ← planBody context block mode
    pure (.visit (.branch branch)
      [.line (if branch.isDefault then "else:" else branchHead [Nim.normalizeQuotes label]), .body steps, .blank])
  | .mixin ⟨name, parameters, block, attributes, call, location⟩, mode => do
    let mixin : Mixin Node := ⟨name, parameters, block, attributes, call, location⟩
    let _ ← mixinName context mixin
    let steps ← planBody context block mode
    pure (.mixin mixin steps)
  | .mixinBlock location, _ => .ok (.visit (.mixinBlock location) [.line "jade_block"])
  | .doctype name location, mode => .ok (.visit (.doctype name location) (doctypeSteps mode name))
  | .comment content buffered location, _ =>
    .ok (.visit (.comment content buffered location)
      (if buffered then [.put (.text ("<!--" ++ content ++ "-->"))] else []))
  | .blockComment ⟨content, ⟨nodes, place⟩, buffered, location⟩, mode => do
    let comment : BlockComment Node := ⟨content, ⟨nodes, place⟩, buffered, location⟩
    if buffered then
      let steps ← planNodes context nodes mode
      pure (.visit (.blockComment comment)
        (.put (.text ("<!--" ++ content)) :: (steps ++ [.put (.text "-->")])))
    else pure (.visit (.blockComment comment) [])
  | .filter filter, _ => do
    let sites ← filterSites context filter
    pure (.visit (.filter filter) (sites.map .put))
  | .literal content location, _ => .ok (.visit (.literal content location) [.put (.text content)])

def planNodes (context : Context) : List Node → Mode → Except Error (List Step)
  | [], _ => .ok []
  | node :: rest, mode => do
    let step ← planNode context node mode
    let steps ← planNodes context rest (step.modeAfter mode)
    pure (step ::
      if node.isText && rest.head?.any Node.isText then .put (.text "\n") :: steps else steps)

def planCode (context : Context) : Code Node → Mode → Except Error (List Step)
  | ⟨source, buffered, escaped, block, location⟩, mode =>
    let step := codeStep ⟨source, buffered, escaped, block, location⟩
    match block with
    | none => .ok [step]
    | some ⟨nodes, _⟩ => do
      let steps ← planNodes context nodes mode
      pure (if buffered then [step, .nested steps] else [step, .body steps, .blank])

/-- The code that stands in an element before its content. -/
def planFirst (context : Context) : Option (Code Node) → Mode → Except Error (List Step)
  | none, _ => .ok []
  | some code, mode => planCode context code mode

def planBody (context : Context) : Option (Block Node) → Mode → Except Error (List Step)
  | none, _ => .ok []
  | some ⟨nodes, _⟩, mode => planNodes context nodes mode

def planBranches (context : Context) : List Node → List String → Bool → Mode → Except Error (List Step)
  | [], labels, hasDefault, _ =>
    .ok ((if labels.isEmpty then [] else [.line (branchHead labels), .body [], .blank]) ++
      (if hasDefault then [] else [.line "else: discard"]))
  | .branch ⟨label, block, location⟩ :: rest, labels, hasDefault, mode => do
    let branch : Branch Node := ⟨label, block, location⟩
    if branch.isDefault then
      let inside ← planBody context block mode
      let steps ← planBranches context rest [] true (modeAfterAll inside mode)
      pure (.line "else:" :: .body inside :: .blank :: steps)
    else
      let labels := labels ++ [Nim.normalizeQuotes label]
      match block with
      | none => planBranches context rest labels hasDefault mode
      | some ⟨nodes, _⟩ =>
        let inside ← planNodes context nodes mode
        let steps ← planBranches context rest [] hasDefault (modeAfterAll inside mode)
        pure (.line (branchHead labels) :: .body inside :: .blank :: steps)
  | node :: rest, labels, hasDefault, mode => do
    let step ← planNode context node mode
    let steps ← planBranches context rest labels hasDefault (step.modeAfter mode)
    pure (step :: steps)

end

end NimTemplate.Compile
