/-! Why a file cannot be read or written. -/

namespace NimTemplate.CommandLine

inductive FileError where
  | missing
  | notFolder
  | isFolder
  | noSpace
  | nameTooLong
  | notText
  | other (text : String) (code : Nat)
deriving DecidableEq, Repr

namespace FileError

/-- The error behind a number of the operating system, which describes it by a text. -/
def ofCode (text : String) : Nat → FileError
  | 2 => missing
  | 20 => notFolder
  | 21 => isFolder
  | 28 => noSpace
  | 36 => nameTooLong
  | code => other text code

def message : FileError → String
  | missing => "No such file or directory (os error 2)"
  | notFolder => "Not a directory (os error 20)"
  | isFolder => "Is a directory (os error 21)"
  | noSpace => "No space left on device (os error 28)"
  | nameTooLong => "File name too long (os error 36)"
  | notText => "stream did not contain valid UTF-8"
  | other text code => text ++ " (os error " ++ toString code ++ ")"

end FileError

end NimTemplate.CommandLine
