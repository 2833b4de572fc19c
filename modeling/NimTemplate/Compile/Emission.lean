import NimTemplate.Compile.Attributes
import NimTemplate.Nim.Conditional
import NimTemplate.Nim.Procedure
import NimTemplate.Nim.Statement

/-! Nim code of template nodes. Each node takes the state before it to the state after it, or
fails; what a node holds is put out in order, bodies of control flow one level deeper. -/

namespace NimTemplate.Compile

namespace State

/-- Puts out the doctype that is named, else the one in force, else the default. -/
def doctype (state : State) (name : Option String) : State :=
  let dialect := match name, state.dialect.doctype with
    | some name, _ => .ofName name
    | none, some _ => state.dialect
    | none, none => .ofName "default"
  { state with dialect, doctypeSeen := true }.text (dialect.doctype.getD "")

/-- Before the first element: a document that starts with its root gets a doctype. -/
def enterTag (state : State) (name : String) : State :=
  let state := if !state.tagSeen && !state.doctypeSeen && name == "html" then state.doctype none else state
  { state with tagSeen := true }

def tagName (state : State) (context : Context) (tag : Tag Node) : State :=
  if tag.computed then state.value context tag.name (Nim.tagName tag.name) false else state.text tag.name

end State

/-- The expression of a line of code: blanks around it and semicolons behind it do not count. -/
def expressionOf (source : String) : String :=
  String.ofList (Text.trimEnd ((Text.trim source.toList).reverse.dropWhile (· == ';')).reverse)

/-- Puts out a line of code without what is nested below it. -/
def State.code (state : State) (context : Context) (code : Code Node) : State :=
  if code.buffered then
    state.value context (expressionOf code.source) (Nim.statement code.source) code.escaped
  else state.line (Nim.statement code.source)

/-- The text that a filter is given: one line for every node, empty where it is no text. -/
def filterText (nodes : List Node) : String :=
  "\n".intercalate (nodes.map fun
    | .text content _ => content
    | _ => "")

def filterOptions (context : Context) (attrs : List Attribute) : FilterOptions :=
  let options := attrs.map fun attr => (attr.name, (constant? attr.source).elim attr.source Value.toText)
  collectFields (options ++ (context.options.file.map (("filename", ·))).toList)

def State.filter (state : State) (context : Context) (filter : Filter Node) : Except Error State :=
  match context.filters.apply filter.name (filterText filter.block.nodes) (filterOptions context filter.attrs) with
  | .ok output => state.interpolated context output filter.location
  | .error error => .error (Error.locate filter.location context.options.file (.filter filter.name error {}))

/-- The head of a loop over a collection, whose Nim form is given. -/
def loopHead (each : Each Node) (collection : String) : String :=
  match each.keyName with
  | some key => "for " ++ key ++ ", " ++ each.item ++ " in " ++ collection ++ ".pairs():"
  | none => "for " ++ each.item ++ " in " ++ collection ++ ":"

def branchHead (labels : List String) : String := "of " ++ ", ".intercalate labels ++ ":"

/-- The source between the marks of a computed mixin name. -/
def computedName (name : String) : String :=
  State.trimmed (String.ofList (match name.toList with
    | '#' :: '\x7b' :: rest => if rest.getLast? = some '\x7d' then rest.dropLast else '\x7b' :: rest
    | _ :: rest => rest
    | [] => []))

/-- The name of a mixin. A computed one has to have a value that is known. -/
def mixinName (context : Context) (mixin : Mixin Node) : Except Error String :=
  if !mixin.isComputed then .ok mixin.name
  else
    let failed := context.fail (.mixinName (computedName mixin.name)) mixin.location
    match constant? (computedName mixin.name) with
    | some value => if value.isNullish then .error failed else .ok value.toText
    | none => .error failed

def parametersOf (mixin : Mixin Node) : String := State.trimmed (mixin.parameters.getD "")

/-- The head of the template that defines a mixin. -/
def definitionHead (name parameters : String) : String :=
  "template " ++ Nim.mixinName name ++ "(" ++ (if parameters = "" then "" else parameters ++ ": string, ") ++
    "jade_block: stmt): stmt \x7b.dirty.\x7d ="

/-- Notes the attributes of a mixin call, which the generated code does not pass on. -/
def State.callAttributes (state : State) (context : Context) (mixin : Mixin Node) : State :=
  if mixin.attributes.isEmpty then state
  else
    let (table, state) := state.attributeTable context mixin.attributes.attrs mixin.location
    let merged :=
      if mixin.attributes.blocks.isEmpty then table
      else "jade.merge(" ++ listText (table :: mixin.attributes.blocks) ++ ")"
    (state.warn .mixinAttributes mixin.location).line ("# FIXME unported mixin attributes: " ++ merged)

/-- Before the content of a mixin: the head of its definition, or of its call. -/
def State.mixinHead (state : State) (context : Context) (mixin : Mixin Node) (name : String) : State :=
  if mixin.call then
    ({ state with mixins := state.mixins.markUsed name }.callAttributes context mixin).line
      (Nim.mixinName name ++ "(" ++ Nim.normalizeQuotes (parametersOf mixin) ++ "):")
  else state.line (definitionHead name (parametersOf mixin))

/-- After the content of a mixin. A definition takes the lines since it was begun. -/
def State.mixinEnd (state : State) (mixin : Mixin Node) (name : String) (start : Nat) : State :=
  if mixin.call then
    if mixin.block.isSome || !mixin.attributes.isEmpty then state.blank else state
  else
    let state := state.blank
    { state with mixins := state.mixins.addDefinition name ⟨start, state.draft.size⟩ }

mutual

def emitNode (context : Context) : Node → State → Except Error State
  | .block ⟨nodes, _⟩, state => emitNodes context nodes state
  | .tag ⟨name, attributes, ⟨nodes, place⟩, code, selfClosing, computed, location⟩, state => do
    let tag : Tag Node := ⟨name, attributes, ⟨nodes, place⟩, code, selfClosing, computed, location⟩
    let state := state.enterTag name
    let isVoid := selfClosing || state.dialect.isVoid name
    if isVoid && nodes.any Node.hasContent then throw (context.fail (.content name) location)
    let state := ((state.text "<").tagName context tag).attributes context attributes location
    if isVoid then pure (state.text (if state.dialect.terse then ">" else "/>"))
    else
      let state := state.text ">"
      let state ← match code with
        | none => pure state
        | some code => emitCode context code state
      let state ← emitNodes context nodes state
      pure (((state.text "</").tagName context tag).text ">")
  | .text content location, state => state.interpolated context content location
  | .code code, state => emitCode context code state
  | .each ⟨collection, item, key, ⟨nodes, place⟩, alternative, location⟩, state => do
    let each : Each Node := ⟨collection, item, key, ⟨nodes, place⟩, alternative, location⟩
    let collection := Nim.normalizeQuotes collection
    let state := state.line ("# iterate " ++ collection)
    match alternative with
    | none =>
      let state ← (state.line (loopHead each collection)).body (emitNodes context nodes)
      pure state.blank
    | some ⟨others, _⟩ =>
      let state := (state.line ("if " ++ collection ++ ".len > 0:")).indent
      let state ← (state.line (loopHead each collection)).body (emitNodes context nodes)
      let state ← (state.blank.dedent.line "else:").body (emitNodes context others)
      pure state.blank
  | .selection ⟨subject, ⟨nodes, _⟩, _⟩, state =>
    emitBranches context nodes [] false (state.line ("case (" ++ Nim.normalizeQuotes subject ++ ")"))
  | .branch ⟨label, block, location⟩, state => do
    let branch : Branch Node := ⟨label, block, location⟩
    let head := if branch.isDefault then "else:" else branchHead [Nim.normalizeQuotes label]
    let state ← emitBody context block (state.line head)
    pure state.blank
  | .mixin ⟨name, parameters, block, attributes, call, location⟩, state => do
    let mixin : Mixin Node := ⟨name, parameters, block, attributes, call, location⟩
    let state := if mixin.isComputed then { state with mixins := state.mixins.markComputed } else state
    let name ← mixinName context mixin
    let inside ← emitBody context block (state.mixinHead context mixin name)
    pure (inside.mixinEnd mixin name state.draft.size)
  | .mixinBlock _, state => .ok (state.line "jade_block")
  | .doctype name _, state => .ok (state.doctype name)
  | .comment content buffered _, state =>
    .ok (if buffered then state.text ("<!--" ++ content ++ "-->") else state)
  | .blockComment ⟨content, ⟨nodes, _⟩, buffered, _⟩, state => do
    if buffered then
      let state ← emitNodes context nodes (state.text ("<!--" ++ content))
      pure (state.text "-->")
    else pure state
  | .filter filter, state => state.filter context filter
  | .literal content _, state => .ok (state.text content)

/-- Nodes in order, with a line break between two that are text. -/
def emitNodes (context : Context) : List Node → State → Except Error State
  | [], state => .ok state
  | node :: rest, state => do
    let state ← emitNode context node state
    emitNodes context rest (if node.isText && rest.head?.any Node.isText then state.text "\n" else state)

def emitCode (context : Context) : Code Node → State → Except Error State
  | ⟨source, buffered, escaped, block, location⟩, state =>
    let state := state.code context ⟨source, buffered, escaped, block, location⟩
    match block with
    | none => .ok state
    | some ⟨nodes, _⟩ => do
      if buffered then
        let state ← emitNodes context nodes state.indent
        pure state.dedent
      else
        let state ← state.body (emitNodes context nodes)
        pure state.blank

def emitBody (context : Context) : Option (Block Node) → State → Except Error State
  | none, state => state.body pure
  | some ⟨nodes, _⟩, state => state.body (emitNodes context nodes)

/-- The branches of a selection, after those whose labels wait for a block. The default takes
what falls through to it, so it drops the labels; one is added if there is none. -/
def emitBranches (context : Context) : List Node → List String → Bool → State → Except Error State
  | [], labels, hasDefault, state => do
    let state ←
      if labels.isEmpty then pure state
      else do
        let state ← (state.line (branchHead labels)).body pure
        pure state.blank
    pure (if hasDefault then state else state.line "else: discard")
  | .branch ⟨label, block, location⟩ :: rest, labels, hasDefault, state => do
    let branch : Branch Node := ⟨label, block, location⟩
    if branch.isDefault then
      let state ← emitBody context block (state.line "else:")
      emitBranches context rest [] true state.blank
    else
      let labels := labels ++ [Nim.normalizeQuotes label]
      match block with
      | none => emitBranches context rest labels hasDefault state
      | some ⟨nodes, _⟩ =>
        let state ← (state.line (branchHead labels)).body (emitNodes context nodes)
        emitBranches context rest [] hasDefault state.blank
  | node :: rest, labels, hasDefault, state => do
    let state ← emitNode context node state
    emitBranches context rest labels hasDefault state

end

end NimTemplate.Compile
