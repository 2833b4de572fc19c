import NimTemplate.CommandLine

/-! The program: reads the input, compiles it, and writes the result where the arguments say. -/

namespace NimTemplate.CommandLine

def reason : IO.Error → FileError
  | .interrupted _ code text | .noFileOrDirectory _ code text => .ofCode text code.toNat
  | .alreadyExists _ code text | .invalidArgument _ code text | .permissionDenied _ code text
  | .resourceExhausted _ code text | .inappropriateType _ code text | .noSuchThing _ code text =>
    .ofCode text code.toNat
  | .otherError code text | .resourceBusy code text | .resourceVanished code text
  | .unsupportedOperation code text | .hardwareFault code text | .unsatisfiedConstraints code text
  | .illegalOperation code text | .protocolError code text | .timeExpired code text =>
    .ofCode text code.toNat
  | .unexpectedEof | .userError _ => .notText

def readInput : Option String → IO String
  | some file => IO.FS.readFile file
  | none => do (← IO.getStdin).readToEnd

def fail (message : String) : IO UInt32 := do
  IO.eprint (report message)
  pure 1

def perform : Outcome → IO UInt32
  | .printed text => do
    IO.print text
    pure 0
  | .written file text => do
    match ← (IO.FS.writeFile file text).toBaseIO with
    | .ok _ => pure 0
    | .error error => fail (reason error).message
  | .failed message => fail message

def execute : Request → IO UInt32
  | .help => do
    IO.print help
    pure 0
  | .version => do
    IO.print version
    pure 0
  | .run arguments => do
    let input ← (readInput arguments.input).toBaseIO
    perform (arguments.run (input.mapError reason))

end NimTemplate.CommandLine

open NimTemplate in
def main (arguments : List String) : IO UInt32 := do
  match CommandLine.read arguments with
  | .ok request => CommandLine.execute request
  | .error error =>
    IO.eprintln error.message
    pure 2
