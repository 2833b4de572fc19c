import NimTemplate.Compile.State
import NimTemplate.Nim.Quotes

/-! Attributes of elements and mixin calls. Those of an element are put out one by one; next to
attributes that are only known when rendering, and in a mixin call, they make up a table.
Classes are joined into one attribute, which comes last. -/

namespace NimTemplate.Compile

def boolText (b : Bool) : String := if b then "true" else "false"

/-- The attributes other than classes. -/
def plainAttrs (attrs : List Attribute) : List Attribute := attrs.filter (·.name != "class")

def classAttrs (attrs : List Attribute) : List Attribute := attrs.filter (·.name == "class")

def listText (items : List String) : String := "[" ++ ", ".intercalate items ++ "]"

/-- The sources of classes as the items of one Nim list. -/
def classSources (classes : List Attribute) : String :=
  "[" ++ Nim.attributeValue (", ".intercalate (classes.map (·.source))) ++ "]"

/-- The Nim call that writes an attribute when rendering. -/
def attributeCall (attr : Attribute) (terse : Bool) : String :=
  "jade.attr(" ++ ", ".intercalate [Text.Quoted.literal attr.name,
    Nim.attributeValue attr.source, boolText attr.escaped, boolText terse] ++ ")"

/-- The value of an attribute in a table, where it is known. -/
def knownEntry (attr : Attribute) (value : Value) : String :=
  let raw := match value with
    | .text _ => false
    | _ => Markup.isData attr.name
  let value := if attr.escaped && !raw then .text (Markup.escape value) else value
  value.jsonText?.getD "nil"

def computedEntry (attr : Attribute) : String :=
  let code := Nim.attributeValue attr.source
  if !attr.escaped then code
  else if Markup.isData attr.name then "(jade.escape(" ++ code ++ "))"
  else "jade.escape(" ++ code ++ ")"

def entry (context : Context) (attr : Attribute) : String :=
  Text.Quoted.literal attr.name ++ ": " ++
    match context.known? attr.source with
    | some value => knownEntry attr value
    | none => computedEntry attr

/-- A class in a table, where its value is known. -/
def knownClass (value : Value) (escaped : Bool) : Value :=
  .text (if escaped then Markup.escapeText (Markup.joinClasses value) else Markup.joinClasses value)

/-- The joined classes as one text. -/
def knownClasses (classes : List Attribute) (values : List Value) : String :=
  Markup.joinClasses (.array (List.zipWith knownClass values (classes.map (·.escaped))))

namespace State

/-- The attributes as the text of a Nim table. Classes that are not known leave a warning. -/
def attributeTable (state : State) (context : Context) (attrs : List Attribute) (location : Location) :
    String × State :=
  let entries := (plainAttrs attrs).map (entry context)
  let classes := classAttrs attrs
  let (entries, state) :=
    if classes.isEmpty then (entries, state)
    else match context.allKnown? (classes.map (·.source)) with
      | some values => (entries ++ ["\"class\": " ++ Text.Quoted.literal (knownClasses classes values)], state)
      | none => (entries ++ ["\"class\": jade.joinClasses(" ++ classSources classes ++ ")"],
          state.warn .classJoin location)
  ("\x7b" ++ ", ".intercalate entries ++ "\x7d", state)

def attr (context : Context) (state : State) (attr : Attribute) : State :=
  match context.known? attr.source with
  | some value => state.text (Markup.attr attr.name value attr.escaped state.dialect.terse)
  | none => state.expr (attributeCall attr state.dialect.terse)

def classes (state : State) (context : Context) (classes : List Attribute) (location : Location) : State :=
  if classes.isEmpty then state
  else match context.allKnown? (classes.map (·.source)) with
    | some values => state.text (Markup.classes values (classes.map (·.escaped)))
    | none =>
      (state.warn .classJoin location).expr ("jade.cls(" ++ classSources classes ++ ", " ++
        listText (classes.map fun c => boolText c.escaped) ++ ")")

/-- Puts out the attributes of an element. -/
def attributes (state : State) (context : Context) (attributes : Attributes) (location : Location) : State :=
  if attributes.blocks.isEmpty then
    ((plainAttrs attributes.attrs).foldl (attr context) state).classes context
      (classAttrs attributes.attrs) location
  else
    let (table, state) :=
      if attributes.attrs.isEmpty then ([], state)
      else
        let (table, state) := state.attributeTable context attributes.attrs location
        ([table], state)
    (state.warn .attributeBlock location).expr ("jade.attrs(jade.merge(" ++
      listText (table ++ attributes.blocks.map Nim.attributeValue) ++ "), " ++
      boolText state.dialect.terse ++ ")")

end State

end NimTemplate.Compile
