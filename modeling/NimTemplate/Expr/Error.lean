import NimTemplate.Expr.Token

/-! Why an expression has no value known in advance. -/

namespace NimTemplate

/-- Ways in which a text is no expression. -/
inductive ParseFault where
  | emptyHex
  | hexRange
  | octalRange
  | number (text : String)
  | openString
  | newlineInString
  | openEscape
  | escape
  | codePoint
  | character (c : Char)
  | expected (p : Punct)
  | propertyName
  | propertyKey
  | operand
  | trailing
deriving DecidableEq, Repr

/-- Forms of expressions that are left to the rendering program. -/
inductive Limit where
  | leadingZero (text : String)
  | nesting
  | reserved (word : String)
  | astralIndex
  | property (key : String)
deriving DecidableEq, Repr

/-- Operations that would fail in the rendering program too. -/
inductive Misuse where
  | absent (key kind : String)
  | notCallable (type : String)
  | classList (type : String)
deriving DecidableEq, Repr

inductive EvalError where
  | malformed (fault : ParseFault)
  | free (name : String)
  | unsupported (limit : Limit)
  | invalid (misuse : Misuse)
deriving DecidableEq, Repr

def ParseFault.message : ParseFault → String
  | emptyHex => "malformed hex literal"
  | hexRange => "hex literal out of range"
  | octalRange => "octal literal out of range"
  | number text => "malformed number '" ++ text ++ "'"
  | openString => "unterminated string"
  | newlineInString => "newline in string literal"
  | openEscape => "unterminated escape"
  | escape => "malformed escape sequence"
  | codePoint => "invalid code point"
  | character c => "unexpected character '" ++ c.toString ++ "'"
  | expected p => "expected '" ++ p.text ++ "'"
  | propertyName => "expected property name"
  | propertyKey => "expected property key"
  | operand => "expected expression"
  | trailing => "unexpected trailing tokens"

def Limit.message : Limit → String
  | leadingZero text => "leading-zero literal '" ++ text ++ "'"
  | nesting => "nesting too deep"
  | reserved word => "'" ++ word ++ "'"
  | astralIndex => "indexing a string with astral characters"
  | property key => "property '" ++ key ++ "'"

def Misuse.message : Misuse → String
  | absent key kind => "cannot read property '" ++ key ++ "' of " ++ kind
  | notCallable type => type ++ " is not a function"
  | classList type => "cls expects a list, got " ++ type

def EvalError.message : EvalError → String
  | malformed fault => "syntax error: " ++ fault.message
  | free name => "'" ++ name ++ "' is only known at render time"
  | unsupported limit => "unsupported: " ++ limit.message
  | invalid misuse => "invalid operation: " ++ misuse.message

end NimTemplate
