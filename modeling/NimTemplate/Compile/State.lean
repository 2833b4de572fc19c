import NimTemplate.Compile.Error
import NimTemplate.Compile.MixinTable
import NimTemplate.Expr.Eval
import NimTemplate.Markup.Dialect
import NimTemplate.Nim.Quotes

/-! What a compilation is given, what it keeps, and how it puts out text and expressions. An
expression whose value is known becomes text. -/

namespace NimTemplate.Compile

structure Options where
  /-- The doctype before the template names one. -/
  doctype : Option String := none
  /-- The file that errors name and filters are told of. -/
  file : Option String := none
  /-- The type that the rendering procedure of a module takes. -/
  receiver : Option String := none
  /-- Whether expressions with a known value become text. -/
  fold : Bool := true
deriving DecidableEq, Repr

structure Context where
  options : Options
  filters : FilterRegistry

structure State where
  draft : Nim.Draft
  dialect : Markup.Dialect
  doctypeSeen : Bool
  tagSeen : Bool
  mixins : MixinTable
  warnings : List Warning
deriving DecidableEq, Repr

def State.initial (options : Options) : State where
  draft := .empty
  dialect := options.doctype.elim .unset .ofName
  doctypeSeen := false
  tagSeen := false
  mixins := .empty
  warnings := []

/-- The value of an expression, unless all of them are left to rendering. -/
def Context.known? (context : Context) (source : String) : Option Value :=
  if context.options.fold then constant? source else none

/-- The values of expressions, if every one is known. -/
def Context.allKnown? (context : Context) (sources : List String) : Option (List Value) :=
  sources.mapM context.known?

/-- An error at a node. -/
def Context.fail (context : Context) (fault : Fault) (location : Location) : Error :=
  Error.locate location context.options.file (.structural fault {})

namespace State

def edit (state : State) (change : Nim.Draft → Nim.Draft) : State :=
  { state with draft := change state.draft }

def line (state : State) (statement : String) : State := state.edit (·.pushLine statement)

def blank (state : State) : State := state.edit (·.pushBlank)

def text (state : State) (content : String) : State := state.edit (·.appendText content)

def expr (state : State) (source : String) : State := state.edit (·.appendExpr source)

def indent (state : State) : State := state.edit (·.indent)

def dedent (state : State) : State := state.edit (·.dedent)

def warn (state : State) (feature : Feature) (location : Location) : State :=
  { state with warnings := state.warnings ++ [⟨feature, location.line⟩] }

/-- Puts out the value of an expression, of which `code` is the Nim form. -/
def value (state : State) (context : Context) (source code : String) (escape : Bool) : State :=
  match context.known? source with
  | some value => state.text (if escape then Markup.escapeText value.render else value.render)
  | none => state.expr (if escape then "jade.escape($(" ++ code ++ "))" else code)

def trimmed (source : String) : String := String.ofList (Text.trim source.toList)

def segment (context : Context) (state : State) : Segment → State
  | .text content => state.text content
  | .expr source escape =>
    state.value context (trimmed source) (Nim.normalizeQuotes (trimmed source)) escape

/-- Puts out text with expressions in it. -/
def interpolated (state : State) (context : Context) (content : String) (location : Location) :
    Except Error State :=
  match Interpolation.segments content with
  | .ok segments => .ok (segments.foldl (segment context) state)
  | .error error => .error (context.fail (.brace error) location)

/-- Puts out a body one level deeper. A body without lines is a statement that does nothing. -/
def body (state : State) (content : State → Except Error State) : Except Error State := do
  let done ← content state.indent
  pure (if done.draft.size = state.draft.size then done.line "discard" else done).dedent

end State

end NimTemplate.Compile
