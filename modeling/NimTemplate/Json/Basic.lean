import NimTemplate.Text.Basic

/-! JSON documents. A number is kept as it is written, and an object keeps every member in
order, repeated names included. -/

namespace NimTemplate

inductive Json where
  | null
  | bool (b : Bool)
  | number (literal : String)
  | string (s : String)
  | array (items : List Json)
  | object (members : List (String × Json))

namespace Json

mutual

/-- The document without blanks. -/
def render : Json → String
  | null => "null"
  | bool b => if b then "true" else "false"
  | number literal => literal
  | string s => Text.Quoted.literal s
  | array items => "[" ++ ",".intercalate (renderItems items) ++ "]"
  | object members => "\x7b" ++ ",".intercalate (renderMembers members) ++ "\x7d"

def renderItems : List Json → List String
  | [] => []
  | item :: rest => item.render :: renderItems rest

def renderMembers : List (String × Json) → List String
  | [] => []
  | (name, value) :: rest => (Text.Quoted.literal name ++ ":" ++ value.render) :: renderMembers rest

end

end Json

end NimTemplate
