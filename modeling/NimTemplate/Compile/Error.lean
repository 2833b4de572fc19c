import NimTemplate.Compile.Filter
import NimTemplate.Template.Interpolation
import NimTemplate.Template.Node

/-! Why a template does not compile, and what a compilation warns of. -/

namespace NimTemplate.Compile

/-- The line and file an error stems from, as far as known. -/
structure Origin where
  line : Option Nat := none
  file : Option String := none
deriving DecidableEq, Repr

/-- Faults of a template's structure. -/
inductive Fault where
  | content (element : String)
  | brace (error : BraceError)
  | mixinName (source : String)
  | described (message : String)
deriving DecidableEq, Repr

def Fault.message : Fault → String
  | content element => element ++ " is self closing and should not have content."
  | brace error => error.message
  | mixinName source =>
    "mixin name \x60" ++ source ++
      "\x60 is only known at render time; dynamic mixin names are not supported"
  | described message => message

inductive Error where
  | structural (fault : Fault) (origin : Origin)
  | filter (name : String) (error : FilterError) (origin : Origin)
  | invalidInput (message : String)
  | io (message : String)
deriving DecidableEq, Repr

def Origin.suffix (origin : Origin) : String :=
  match origin.file, origin.line with
  | some file, some line => " (" ++ file ++ ":" ++ toString line ++ ")"
  | some file, none => " (" ++ file ++ ")"
  | none, some line => " (line " ++ toString line ++ ")"
  | none, none => ""

/-- What is already known stays; the node's own file goes before the one given for all. -/
def Origin.refine (origin : Origin) (location : Location) (file : Option String) : Origin where
  line := origin.line <|> location.line
  file := origin.file <|> location.file <|> file

namespace Error

def message : Error → String
  | structural fault origin => fault.message ++ origin.suffix
  | filter name error origin => "filter '" ++ name ++ "' failed: " ++ error.message ++ origin.suffix
  | invalidInput message => "Invalid input: " ++ message
  | io message => "IO error: " ++ message

/-- The error with the place of a node. -/
def locate (location : Location) (file : Option String) : Error → Error
  | structural fault origin => structural fault (origin.refine location file)
  | filter name error origin => filter name error (origin.refine location file)
  | error => error

def line? : Error → Option Nat
  | structural _ origin | filter _ _ origin => origin.line
  | _ => none

end Error

/-- Features for which the generated code holds a placeholder. -/
inductive Feature where
  | classJoin
  | attributeBlock
  | mixinAttributes
deriving DecidableEq, Repr

def Feature.name : Feature → String
  | classJoin => "cls"
  | attributeBlock => "attributes"
  | mixinAttributes => "mixin attributes"

def Feature.label (feature : Feature) : String := "unported " ++ feature.name

structure Warning where
  feature : Feature
  line : Option Nat
deriving DecidableEq, Repr

namespace Warning

def message (warning : Warning) : String :=
  "The '" ++ warning.feature.name ++
    "' feature hasn't been ported to Nim yet; the generated code uses a placeholder"

def report (warning : Warning) : String :=
  match warning.line with
  | some line => "Warning at line " ++ toString line ++ ": " ++ warning.message
  | none => "Warning: " ++ warning.message

end Warning

end NimTemplate.Compile
