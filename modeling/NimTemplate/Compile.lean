import NimTemplate.Compile.Emission
import NimTemplate.Nim.Procedure
import NimTemplate.Template.Reader

/-! Compiling whole templates. When all nodes are put out, the lines of mixins that no call can
reach are emptied. -/

namespace NimTemplate.Compile

structure Output where
  source : String
  warnings : List Warning
deriving DecidableEq, Repr

/-- The code that is left when unused mixins are emptied. -/
def State.finished (state : State) : Nim.Draft := state.mixins.unused.foldl Nim.Draft.erase state.draft

/-- The body of a rendering procedure. -/
def compile (context : Context) (root : Node) : Except Error Output := do
  let state ← emitNode context root (State.initial context.options)
  pure ⟨state.finished.source, state.warnings⟩

/-- A whole module, for a template without filters. -/
def compileModule (options : Options) (root : Node) : Except Error Output := do
  let output ← compile ⟨options, .none⟩ root
  pure { output with source := Nim.moduleOf output.source options.receiver }

/-- The template that a JSON text describes. -/
def readTemplate (text : String) : Except Error Node :=
  match Node.parse? text with
  | some root => .ok root
  | none => .error (.invalidInput "the text describes no template")

end NimTemplate.Compile
