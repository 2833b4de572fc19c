import NimTemplate.Value.Json

/-! Attributes of markup as text: escaping, single attributes and class lists. -/

namespace NimTemplate.Markup

def escapeChar : Char → List Char
  | '&' => "&amp;".toList
  | '<' => "&lt;".toList
  | '>' => "&gt;".toList
  | '"' => "&quot;".toList
  | c => [c]

def escapeText (text : String) : String := String.ofList (text.toList.flatMap escapeChar)

def escape (value : Value) : String := escapeText value.toText

def styleField (field : String × Value) : String := field.1 ++ ":" ++ field.2.toText

/-- An object of style properties as one text; other values stay as they are. -/
def style : Value → Value
  | .object fields => .text (";".intercalate (fields.map styleField))
  | value => value

/-- Makes a text safe between single quotes. -/
def escapeApostrophes (text : String) : String :=
  String.ofList (text.toList.flatMap fun c => if c = '\'' then "&apos;".toList else [c])

def quoted (name text : String) : String := " " ++ name ++ "=\"" ++ text ++ "\""

def quotedValue (name : String) (value : Value) (escaped : Bool) : String :=
  quoted name (if escaped then escape value else value.toText)

/-- Whether a list, object or number under the name is written as JSON. -/
def isData (name : String) : Bool := "data".toList.isPrefixOf name.toList

/-- An attribute with its leading space. Truth values and absent ones switch it on or off, and
a terse dialect writes one that is on by its name alone. -/
def attr (name : String) (value : Value) (escaped terse : Bool) : String :=
  let value := if name = "style" then style value else value
  match value with
  | .undefined | .null => ""
  | .bool b => if !b then "" else if terse then " " ++ name else quoted name name
  | .text _ | .builtin _ => quotedValue name value escaped
  | _ =>
    if isData name then " " ++ name ++ "='" ++ escapeApostrophes (value.jsonText?.getD "") ++ "'"
    else quotedValue name value escaped

/-- The texts that are not empty, with a space between two. -/
def joinWords (words : List String) : String := " ".intercalate (words.filter (· != ""))

mutual

/-- The classes a value names: all of a list, those of an object that are switched on. -/
def joinClasses : Value → String
  | .array items => joinWords (joinEach items)
  | .object fields => joinWords ((fields.filter (·.2.isTruthy)).map (·.1))
  | value => value.render

def joinEach : List Value → List String
  | [] => []
  | item :: rest => joinClasses item :: joinEach rest

end

/-- Each class as a text of its own, escaped where its flag says so. Missing flags say no. -/
def classTexts : List Value → List Bool → List Value
  | [], _ => []
  | value :: rest, flags =>
    .text (if flags.head?.getD false then escapeText (joinClasses (.array [value])) else joinClasses value) ::
      classTexts rest flags.tail

/-- The class attribute with its leading space, nothing where no class is named. -/
def classes (values : List Value) (escaped : List Bool) : String :=
  let text := joinClasses (.array (classTexts values escaped))
  if text = "" then "" else quoted "class" text

end NimTemplate.Markup
