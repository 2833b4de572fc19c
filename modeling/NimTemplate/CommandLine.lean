import NimTemplate.CommandLine.FileError
import NimTemplate.Compile

/-! The command line: what the arguments ask for, and what comes of it. Files are read and
written elsewhere. -/

namespace NimTemplate.CommandLine

inductive UsageError where
  | unknown (argument : String)
  | unexpectedValue (option : String)
  | missingValue (option : String)
  | repeated (option : String)
  | missing (parameter : String)
deriving DecidableEq, Repr

def UsageError.message : UsageError → String
  | unknown argument => "error: unexpected argument '" ++ argument ++ "' found"
  | unexpectedValue option => "error: unexpected value for '" ++ option ++ "' found; no more were expected"
  | missingValue option => "error: a value is required for '" ++ option ++ "' but none was supplied"
  | repeated option => "error: the argument '" ++ option ++ "' cannot be used multiple times"
  | missing parameter => "error: the following required arguments were not provided: " ++ parameter

/-- Options that take a value. -/
inductive Setting where
  | input
  | output
  | doctype
deriving DecidableEq, Repr

def Setting.name : Setting → String
  | input => "input"
  | output => "output"
  | doctype => "doctype"

def Setting.letter : Setting → Char
  | input => 'i'
  | output => 'o'
  | doctype => 'd'

def Setting.all : List Setting := [input, output, doctype]

/-- Options that are given or not. -/
inductive Switch where
  | noFold
  | bodyOnly
deriving DecidableEq, Repr

def Switch.name : Switch → String
  | noFold => "no-fold"
  | bodyOnly => "body-only"

def Switch.all : List Switch := [noFold, bodyOnly]

/-- The arguments met so far. -/
structure Arguments where
  parameters : List String := []
  settings : List (Setting × String) := []
  switches : List Switch := []
deriving DecidableEq, Repr

inductive Request where
  | run (arguments : Arguments)
  | help
  | version
deriving DecidableEq, Repr

namespace Arguments

def set (arguments : Arguments) (setting : Setting) (value : String) : Except UsageError Arguments :=
  if (arguments.settings.lookup setting).isSome then .error (.repeated ("--" ++ setting.name))
  else .ok { arguments with settings := arguments.settings ++ [(setting, value)] }

def turnOn (arguments : Arguments) (switch : Switch) : Except UsageError Arguments :=
  if switch ∈ arguments.switches then .error (.repeated ("--" ++ switch.name))
  else .ok { arguments with switches := arguments.switches ++ [switch] }

/-- There are two parameters, the template's file and the type of the receiver. -/
def add (arguments : Arguments) (parameter : String) : Except UsageError Arguments :=
  if arguments.parameters.length < 2 then
    .ok { arguments with parameters := arguments.parameters ++ [parameter] }
  else .error (.unknown parameter)

def finish (arguments : Arguments) : Except UsageError Request :=
  match arguments.parameters with
  | [] => .error (.missing "<FILENAME> <TYPENAME>")
  | [_] => .error (.missing "<TYPENAME>")
  | _ => .ok (.run arguments)

end Arguments

/-- The arguments behind the mark that ends options. -/
def plain (arguments : Arguments) : List String → Except UsageError Request
  | [] => arguments.finish
  | parameter :: rest => do plain (← arguments.add parameter) rest

/-- An option is set to the part behind its equals sign, or else to the next argument. -/
inductive Long where
  | setting (setting : Setting) (value : Option String)
  | switch (switch : Switch)
  | help
  | version

def long? (text : List Char) : Except UsageError Long :=
  let name := String.ofList (text.takeWhile (· ≠ '='))
  let value := match text.dropWhile (· ≠ '=') with
    | [] => none
    | _ :: value => some (String.ofList value)
  let bare (option : Long) : Except UsageError Long :=
    if value.isSome then .error (.unexpectedValue ("--" ++ name)) else .ok option
  match Setting.all.find? (·.name == name), Switch.all.find? (·.name == name) with
  | some setting, _ => .ok (.setting setting value)
  | none, some switch => bare (.switch switch)
  | none, none =>
    if name = "help" then bare .help
    else if name = "version" then bare .version
    else .error (.unknown ("--" ++ String.ofList text))

/-- An option of one letter; its value may follow at once, with or without an equals sign. -/
def short? (letter : Char) (text : List Char) : Except UsageError Long :=
  match Setting.all.find? (·.letter == letter) with
  | some setting => .ok (.setting setting (match text with
      | [] => none
      | '=' :: value => some (String.ofList value)
      | value => some (String.ofList value)))
  | none =>
    if letter = 'h' then .ok .help
    else if letter = 'V' then .ok .version
    else .error (.unknown ("-" ++ letter.toString))

/-- The option an argument is, if it is one. A lone hyphen is none. -/
def option? (argument : String) : Except UsageError (Option Long) :=
  match argument.toList with
  | '-' :: '-' :: text => (long? text).map some
  | '-' :: letter :: text => (short? letter text).map some
  | _ => .ok none

/-- Whether an argument cannot be the value of an option before it. -/
def isOptionLike (argument : String) : Bool :=
  match argument.toList with
  | '-' :: _ :: _ => true
  | _ => false

def readFrom (arguments : Arguments) : List String → Except UsageError Request
  | [] => arguments.finish
  | argument :: rest => do
    if argument = "--" then plain arguments rest
    else match ← option? argument with
      | none => readFrom (← arguments.add argument) rest
      | some .help => pure .help
      | some .version => pure .version
      | some (.switch switch) => readFrom (← arguments.turnOn switch) rest
      | some (.setting setting (some value)) => readFrom (← arguments.set setting value) rest
      | some (.setting setting none) =>
        match rest with
        | [] => .error (.missingValue ("--" ++ setting.name))
        | value :: rest =>
          if isOptionLike value then .error (.missingValue ("--" ++ setting.name))
          else readFrom (← arguments.set setting value) rest

def read (arguments : List String) : Except UsageError Request := readFrom {} arguments

/-- What a run leaves behind. -/
inductive Outcome where
  | printed (text : String)
  | written (file text : String)
  | failed (message : String)
deriving DecidableEq, Repr

namespace Arguments

def input (arguments : Arguments) : Option String := arguments.settings.lookup .input

def receiver (arguments : Arguments) : String := arguments.parameters[1]?.getD ""

def options (arguments : Arguments) : Compile.Options where
  doctype := arguments.settings.lookup .doctype
  file := arguments.parameters[0]?
  receiver := some arguments.receiver
  fold := !arguments.switches.contains .noFold

/-- The code for the template in a JSON text. -/
def compile (arguments : Arguments) (text : String) : Except Compile.Error String := do
  let output ← Compile.compile ⟨arguments.options, .none⟩ (← Compile.readTemplate text)
  pure (if arguments.switches.contains .bodyOnly then output.source
    else Nim.moduleOf output.source (some arguments.receiver))

/-- The outcome for an input that was read, or for the reason why it was not. -/
def run (arguments : Arguments) (input : Except FileError String) : Outcome :=
  match input with
  | .error error => .failed error.message
  | .ok text =>
    match arguments.compile text with
    | .error error => .failed error.message
    | .ok source =>
      match arguments.settings.lookup .output with
      | some file => .written file source
      | none => .printed source

end Arguments

/-- What a failed run says on the error output. -/
def report (message : String) : String := "jadenim: " ++ message ++ "\n"

def version : String := "jadenim 0.2.0\n"

def help : String :=
  "Compile a parsed Jade template into Nim rendering code\n\n" ++
  "Usage: jadenim [OPTIONS] <FILENAME> <TYPENAME>\n\n" ++
  "Arguments:\n" ++
  "  <FILENAME>  Template path, reported in diagnostics\n" ++
  "  <TYPENAME>  Nim type the generated \x60render\x60 procedure takes as \x60self\x60\n\n" ++
  "Options:\n" ++
  "  -i, --input <INPUT>      Template tree as JSON (reads from stdin if not provided)\n" ++
  "  -o, --output <OUTPUT>    Output file path (writes to stdout if not provided)\n" ++
  "  -d, --doctype <DOCTYPE>  Doctype to assume before the template declares one\n" ++
  "      --no-fold            Emit every expression as a runtime call\n" ++
  "      --body-only          Print only the procedure body, without the module wrapper\n" ++
  "  -h, --help               Print help\n" ++
  "  -V, --version            Print version\n"

end NimTemplate.CommandLine
