/-! Nim procedures: the one of a module that renders, and those of mixins. Nim takes identifiers for
equal that differ only in underscores or in the case of letters behind the first, so the name of a
mixin is written in small letters and digits. -/

namespace NimTemplate.Nim

def isPlain (c : Char) : Bool := (c.isLower && c != 'x') || c.isDigit

/-- A character that may not stand for itself is written as its code point between two `x`. -/
def encodeChar (c : Char) : List Char :=
  if isPlain c then [c] else 'x' :: Nat.toDigits 16 c.toNat ++ ['x']

/-- The procedure of a mixin. -/
def mixinName (name : String) : String :=
  if name = "" then "jade_mixins"
  else "jade_mixins_" ++ String.ofList (name.toList.flatMap encodeChar)

/-- The head of the rendering procedure, which may take a receiver of a type. -/
def procedureHead : Option String → String
  | some receiver => "proc render*(self: " ++ receiver ++ "): string ="
  | none => "proc render*(): string ="

/-- The module whose procedure runs the given body and returns what it rendered. -/
def moduleOf (body : String) (receiver : Option String) : String :=
  "import jade\n\n" ++ procedureHead receiver ++ "\n  var jade_buf = \"\"\n" ++ body ++ "\n  result = jade_buf\n"

end NimTemplate.Nim
