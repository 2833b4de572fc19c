import NimTemplate.Json.Basic
import NimTemplate.Value.Basic

/-! The JSON form of values. Absent values and functions have none: a list holds `null` in
their place, and an object leaves them out. -/

namespace NimTemplate.Value

mutual

def toJson? : Value → Option Json
  | undefined | builtin _ => none
  | null => some .null
  | bool b => some (.bool b)
  | number x => some ((Number.json? x).elim .null .number)
  | text s => some (.string s)
  | array items => some (.array (jsonItems items))
  | object fields => some (.object (jsonFields fields))

def jsonItems : List Value → List Json
  | [] => []
  | item :: rest => item.toJson?.getD .null :: jsonItems rest

def jsonFields : List (String × Value) → List (String × Json)
  | [] => []
  | (name, value) :: rest =>
    match value.toJson? with
    | some json => (name, json) :: jsonFields rest
    | none => jsonFields rest

end

def jsonText? (value : Value) : Option String := value.toJson?.map Json.render

end NimTemplate.Value
