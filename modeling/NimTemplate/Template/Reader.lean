import NimTemplate.Json.Reader
import NimTemplate.Template.Node

/-! Templates from JSON. A node is an object that tells its kind; members it does not know are
passed over, and one that it knows may not be repeated. -/

namespace NimTemplate

namespace Json

/-- The member of a name, if there is one, and nothing at all if there are several. It is
smaller than the object, so that reading ends. -/
def member? (name : String) :
    (members : List (String × Json)) → Option (Option { json : Json // sizeOf json < sizeOf members })
  | [] => some none
  | (other, value) :: rest =>
    if other = name then
      if rest.any (·.1 == name) then none
      else some (some ⟨value, by simp only [List.cons.sizeOf_spec, Prod.mk.sizeOf_spec]; omega⟩)
    else (member? name rest).map (·.map fun found =>
      ⟨found.1, by have smaller := found.2; simp only [List.cons.sizeOf_spec]; omega⟩)

variable {α : Type} (members : List (String × Json)) (name : String)
  (decode : (json : Json) → sizeOf json < sizeOf members → Option α)

/-- A member that has to be there. -/
def required : Option α := do
  match ← member? name members with
  | none => none
  | some found => decode found.1 found.2

/-- A member that has a value of its own where it is left out. -/
def defaulted (value : α) : Option α := do
  match ← member? name members with
  | none => some value
  | some found => decode found.1 found.2

/-- A member that may be left out or null. -/
def optional : Option (Option α) := do
  match ← member? name members with
  | none => some none
  | some ⟨.null, _⟩ => some none
  | some ⟨json, smaller⟩ => (decode json smaller).map some

def toText? : Json → Option String
  | string s => some s
  | _ => none

def toBool? : Json → Option Bool
  | bool b => some b
  | _ => none

/-- A whole number that is written without sign, point and power, and fits a word of 64 bits. -/
def toNatural? : Json → Option Nat
  | number literal => (Decimal.natural? literal.toList).filter (· < wordSize)
  | _ => none

def toList? (decode : Json → Option α) : Json → Option (List α)
  | array items => items.mapM decode
  | _ => none

end Json

/-- The kind of a node by its name or, within another node, by its number. -/
def Kind.ofJson? : Json → Option Kind
  | .string s => ofName? s
  | json => json.toNatural?.bind (all[·]?)

open Json in
def Location.ofMembers? (members : List (String × Json)) : Option Location := do
  let line ← optional members "line" fun json _ => json.toNatural?
  let column ← optional members "column" fun json _ => json.toNatural?
  let file ← optional members "filename" fun json _ => json.toText?
  pure { line, column, file }

/-- The source of an attribute's value; a truth value stands for its own name. -/
def Attribute.source? : Json → Option String
  | .string s => some s
  | .bool b => some (if b then "true" else "false")
  | _ => none

open Json in
/-- An attribute is an object, or a list of its parts. -/
def Attribute.ofJson? : Json → Option Attribute
  | .array [name, value] => do pure { name := ← name.toText?, source := ← source? value }
  | .array [name, value, escaped] => do
    pure { name := ← name.toText?, source := ← source? value, escaped := ← escaped.toBool? }
  | .object members => do
    let name ← required members "name" fun json _ => json.toText?
    let source ← required members "val" fun json _ => source? json
    let escaped ← defaulted members "escaped" (fun json _ => json.toBool?) true
    pure { name, source, escaped }
  | _ => none

open Json in
def Attributes.attrs? (members : List (String × Json)) : Option (List Attribute) :=
  defaulted members "attrs" (fun json _ => json.toList? Attribute.ofJson?) []

open Json in
def Attributes.ofMembers? (members : List (String × Json)) : Option Attributes := do
  let attrs ← attrs? members
  let blocks ← defaulted members "attributeBlocks" (fun json _ => json.toList? toText?) []
  pure { attrs, blocks }

namespace Node

open Json

mutual

def ofList? : List Json → Option (List Node)
  | [] => some []
  | item :: rest => do
    let node ← ofJson? item
    let nodes ← ofList? rest
    pure (node :: nodes)
termination_by items => (sizeOf items, 0)

def nodesOf? : Json → Option (List Node)
  | .array items => ofList? items
  | _ => none
termination_by json => (sizeOf json, 0)

def blockOf? : Json → Option (Block Node)
  | .object members => blockOfMembers? members
  | _ => none
termination_by json => (sizeOf json, 0)

def blockOfMembers? (members : List (String × Json)) : Option (Block Node) := do
  let nodes ← defaulted members "nodes" (fun json _ => nodesOf? json) []
  let location ← Location.ofMembers? members
  pure { nodes, location }
termination_by (sizeOf members, 0)

def codeOf? : Json → Option (Code Node)
  | .object members => codeOfMembers? members
  | _ => none
termination_by json => (sizeOf json, 0)

def codeOfMembers? (members : List (String × Json)) : Option (Code Node) := do
  let source ← required members "val" fun json _ => json.toText?
  let buffered ← defaulted members "buffer" (fun json _ => json.toBool?) false
  let escaped ← defaulted members "escape" (fun json _ => json.toBool?) false
  let block ← optional members "block" fun json _ => blockOf? json
  let location ← Location.ofMembers? members
  pure { source, buffered, escaped, block, location }
termination_by (sizeOf members, 0)

def tagOfMembers? (members : List (String × Json)) : Option (Tag Node) := do
  let name ← required members "name" fun json _ => json.toText?
  let attributes ← Attributes.ofMembers? members
  let block ← defaulted members "block" (fun json _ => blockOf? json) {}
  let code ← optional members "code" fun json _ => codeOf? json
  let selfClosing ← defaulted members "selfClosing" (fun json _ => json.toBool?) false
  let computed ← defaulted members "buffer" (fun json _ => json.toBool?) false
  let location ← Location.ofMembers? members
  pure { name, attributes, block, code, selfClosing, computed, location }
termination_by (sizeOf members, 0)

def eachOfMembers? (members : List (String × Json)) : Option (Each Node) := do
  let collection ← required members "obj" fun json _ => json.toText?
  let item ← required members "val" fun json _ => json.toText?
  let key ← optional members "key" fun json _ => json.toText?
  let block ← defaulted members "block" (fun json _ => blockOf? json) {}
  let alternative ← optional members "alternative" fun json _ => blockOf? json
  let location ← Location.ofMembers? members
  pure { collection, item, key, block, alternative, location }
termination_by (sizeOf members, 0)

def selectionOfMembers? (members : List (String × Json)) : Option (Selection Node) := do
  let subject ← required members "expr" fun json _ => json.toText?
  let block ← defaulted members "block" (fun json _ => blockOf? json) {}
  let location ← Location.ofMembers? members
  pure { subject, block, location }
termination_by (sizeOf members, 0)

def branchOfMembers? (members : List (String × Json)) : Option (Branch Node) := do
  let label ← required members "expr" fun json _ => json.toText?
  let block ← optional members "block" fun json _ => blockOf? json
  let location ← Location.ofMembers? members
  pure { label, block, location }
termination_by (sizeOf members, 0)

def mixinOfMembers? (members : List (String × Json)) : Option (Mixin Node) := do
  let name ← required members "name" fun json _ => json.toText?
  let parameters ← optional members "args" fun json _ => json.toText?
  let block ← optional members "block" fun json _ => blockOf? json
  let attributes ← Attributes.ofMembers? members
  let call ← defaulted members "call" (fun json _ => json.toBool?) false
  let location ← Location.ofMembers? members
  pure { name, parameters, block, attributes, call, location }
termination_by (sizeOf members, 0)

def blockCommentOfMembers? (members : List (String × Json)) : Option (BlockComment Node) := do
  let text ← required members "val" fun json _ => json.toText?
  let block ← defaulted members "block" (fun json _ => blockOf? json) {}
  let buffered ← defaulted members "buffer" (fun json _ => json.toBool?) false
  let location ← Location.ofMembers? members
  pure { text, block, buffered, location }
termination_by (sizeOf members, 0)

def filterOfMembers? (members : List (String × Json)) : Option (Filter Node) := do
  let name ← required members "name" fun json _ => json.toText?
  let block ← defaulted members "block" (fun json _ => blockOf? json) {}
  let attrs ← Attributes.attrs? members
  let location ← Location.ofMembers? members
  pure { name, block, attrs, location }
termination_by (sizeOf members, 0)

/-- The node of a kind. -/
def ofMembers? (kind : Kind) (members : List (String × Json)) : Option Node := do
  match kind with
  | .block => pure (block (← blockOfMembers? members))
  | .tag => pure (tag (← tagOfMembers? members))
  | .text =>
    pure (text (← required members "val" fun json _ => json.toText?) (← Location.ofMembers? members))
  | .code => pure (code (← codeOfMembers? members))
  | .each => pure (each (← eachOfMembers? members))
  | .selection => pure (selection (← selectionOfMembers? members))
  | .branch => pure (branch (← branchOfMembers? members))
  | .mixin => pure (mixin (← mixinOfMembers? members))
  | .mixinBlock => pure (mixinBlock (← Location.ofMembers? members))
  | .doctype =>
    pure (doctype (← optional members "val" fun json _ => json.toText?) (← Location.ofMembers? members))
  | .comment =>
    let content ← required members "val" fun json _ => json.toText?
    let buffered ← defaulted members "buffer" (fun json _ => json.toBool?) false
    pure (comment content buffered (← Location.ofMembers? members))
  | .blockComment => pure (blockComment (← blockCommentOfMembers? members))
  | .filter => pure (filter (← filterOfMembers? members))
  | .literal =>
    pure (literal (← required members "str" fun json _ => json.toText?) (← Location.ofMembers? members))
termination_by (sizeOf members, 1)

def ofJson? : Json → Option Node
  | .object members => do
    let kind ← required members "type" fun json _ => Kind.ofJson? json
    ofMembers? kind members
  | _ => none
termination_by json => (sizeOf json, 0)

end

/-- Whether a document names its kind, as the outermost node has to. -/
def isNamed : Json → Bool
  | .object members => members.any fun (name, json) => name == "type" && json.toText?.isSome
  | _ => false

/-- The template that a JSON text describes. -/
def parse? (text : String) : Option Node := do
  let json ← Json.parse? text
  if isNamed json then ofJson? json else none

end Node

end NimTemplate
