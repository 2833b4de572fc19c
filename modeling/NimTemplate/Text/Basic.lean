/-! Characters by their kind, and texts between quotes. Character classes of the Unicode standard
are kept as ascending lists of closed code point ranges. -/

namespace NimTemplate.Text

/-- A closed range of code points. -/
abbrev Range := Nat × Nat

/-- The character lies in one of the ranges. -/
def covers (ranges : List Range) (c : Char) : Bool :=
  ranges.any fun range => range.1 ≤ c.toNat && c.toNat ≤ range.2

/-! Blank characters are those with the property White_Space. A byte order mark and the
zero width space are not among them. -/

def blankRanges : List Range :=
  [(0x09, 0x0D), (0x20, 0x20), (0x85, 0x85), (0xA0, 0xA0), (0x1680, 0x1680), (0x2000, 0x200A),
    (0x2028, 0x2029), (0x202F, 0x202F), (0x205F, 0x205F), (0x3000, 0x3000)]

def isBlank (c : Char) : Bool := covers blankRanges c

def trimStart (text : List Char) : List Char := text.dropWhile isBlank

def trimEnd (text : List Char) : List Char := (text.reverse.dropWhile isBlank).reverse

def trim (text : List Char) : List Char := trimEnd (trimStart text)

/-! Hexadecimal digits, in either case. -/

def isHexDigit (c : Char) : Bool :=
  c.isDigit || ('a' ≤ c && c ≤ 'f') || ('A' ≤ c && c ≤ 'F')

def hexDigit (c : Char) : Nat :=
  if c.isDigit then c.toNat - '0'.toNat
  else if 'a' ≤ c then c.toNat - 'a'.toNat + 10
  else c.toNat - 'A'.toNat + 10

def hexNumber (digits : List Char) : Nat := digits.foldl (fun n c => 16 * n + hexDigit c) 0

/-! Double-quoted literals. A quote, a backslash and the control characters below the space
are written as escapes, every other character as itself. -/

namespace Quoted

/-- One character inside a literal. Control characters without a letter of their own are
written with four hexadecimal digits. -/
def escapeChar (c : Char) : List Char :=
  if c = '"' then ['\\', '"']
  else if c = '\\' then ['\\', '\\']
  else if c = '\x08' then ['\\', 'b']
  else if c = '\t' then ['\\', 't']
  else if c = '\n' then ['\\', 'n']
  else if c = '\x0c' then ['\\', 'f']
  else if c = '\r' then ['\\', 'r']
  else if c.toNat < 0x20 then
    ['\\', 'u', '0', '0', Nat.digitChar (c.toNat / 16), Nat.digitChar (c.toNat % 16)]
  else [c]

def escape (text : String) : String := String.ofList (text.toList.flatMap escapeChar)

def literal (text : String) : String := "\"" ++ escape text ++ "\""

end Quoted

end NimTemplate.Text
