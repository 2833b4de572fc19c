/-! Tokens of the expression language. -/

namespace NimTemplate

inductive Punct where
  | strictEq | strictNe | eq | ne | le | ge | and | or
  | plus | minus | times | divide | modulo | lt | gt | not
  | question | colon | comma | dot
  | openParen | closeParen | openBracket | closeBracket | openBrace | closeBrace
deriving DecidableEq, Repr

namespace Punct

def text : Punct → String
  | strictEq => "===" | strictNe => "!==" | eq => "==" | ne => "!=" | le => "<=" | ge => ">="
  | and => "&&" | or => "||" | plus => "+" | minus => "-" | times => "*" | divide => "/"
  | modulo => "%" | lt => "<" | gt => ">" | not => "!" | question => "?" | colon => ":"
  | comma => "," | dot => "." | openParen => "(" | closeParen => ")" | openBracket => "["
  | closeBracket => "]" | openBrace => "\x7b" | closeBrace => "\x7d"

/-- Every punctuator, with none before a longer one that it begins. -/
def all : List Punct :=
  [strictEq, strictNe, eq, ne, le, ge, and, or, plus, minus, times, divide, modulo, lt, gt, not,
    question, colon, comma, dot, openParen, closeParen, openBracket, closeBracket, openBrace,
    closeBrace]

end Punct

inductive Token where
  | number (x : Float)
  | text (s : String)
  | name (s : String)
  | punct (p : Punct)
deriving DecidableEq

end NimTemplate
