import NimTemplate.Template.Kind
import NimTemplate.Text.Basic

/-! Parsed templates. The parts that hold other nodes are generic in what they hold, and
`Node` ties them together. -/

namespace NimTemplate

/-- Where a node stands in the template, as far as that is known. -/
structure Location where
  line : Option Nat := none
  column : Option Nat := none
  file : Option String := none
deriving DecidableEq, Repr, Inhabited

/-- A name with the source of its value. -/
structure Attribute where
  name : String
  source : String
  escaped : Bool := true
deriving DecidableEq, Repr, Inhabited

/-- Attributes written one by one, and expressions that yield more of them. -/
structure Attributes where
  attrs : List Attribute := []
  blocks : List String := []
deriving DecidableEq, Repr, Inhabited

def Attributes.isEmpty (attributes : Attributes) : Bool :=
  attributes.attrs.isEmpty && attributes.blocks.isEmpty

structure Block (α : Type) where
  nodes : List α := []
  location : Location := {}
deriving Inhabited

/-- A statement, or an expression whose value is put out. -/
structure Code (α : Type) where
  source : String
  buffered : Bool := false
  escaped : Bool := false
  block : Option (Block α) := none
  location : Location := {}
deriving Inhabited

/-- An element. The name of a computed one is the source of an expression. -/
structure Tag (α : Type) where
  name : String
  attributes : Attributes := {}
  block : Block α := {}
  code : Option (Code α) := none
  selfClosing : Bool := false
  computed : Bool := false
  location : Location := {}
deriving Inhabited

structure Each (α : Type) where
  collection : String
  item : String
  key : Option String := none
  block : Block α := {}
  alternative : Option (Block α) := none
  location : Location := {}
deriving Inhabited

/-- The key variable, where the template names one. -/
def Each.keyName {α : Type} (each : Each α) : Option String :=
  each.key.filter fun key => key != "$index" && key != ""

structure Selection (α : Type) where
  subject : String
  block : Block α := {}
  location : Location := {}
deriving Inhabited

/-- A branch of a selection. One without a block shares that of the next. -/
structure Branch (α : Type) where
  label : String
  block : Option (Block α) := none
  location : Location := {}
deriving Inhabited

def Branch.isDefault {α : Type} (branch : Branch α) : Bool := branch.label == "default"

/-- The definition of a mixin, or a call of one. -/
structure Mixin (α : Type) where
  name : String
  parameters : Option String := none
  block : Option (Block α) := none
  attributes : Attributes := {}
  call : Bool := false
  location : Location := {}
deriving Inhabited

/-- A computed name stands in an interpolation mark. -/
def Mixin.isComputed {α : Type} (mixin : Mixin α) : Bool := mixin.name.toList.head? == some '#'

structure BlockComment (α : Type) where
  text : String
  block : Block α := {}
  buffered : Bool := false
  location : Location := {}
deriving Inhabited

structure Filter (α : Type) where
  name : String
  block : Block α := {}
  attrs : List Attribute := []
  location : Location := {}
deriving Inhabited

inductive Node where
  | block (block : Block Node)
  | tag (tag : Tag Node)
  | text (content : String) (location : Location)
  | code (code : Code Node)
  | each (each : Each Node)
  | selection (selection : Selection Node)
  | branch (branch : Branch Node)
  | mixin (mixin : Mixin Node)
  | mixinBlock (location : Location)
  | doctype (name : Option String) (location : Location)
  | comment (content : String) (buffered : Bool) (location : Location)
  | blockComment (comment : BlockComment Node)
  | filter (filter : Filter Node)
  | literal (content : String) (location : Location)
deriving Inhabited

namespace Node

def kind : Node → Kind
  | block _ => .block
  | tag _ => .tag
  | text _ _ => .text
  | code _ => .code
  | each _ => .each
  | selection _ => .selection
  | branch _ => .branch
  | mixin _ => .mixin
  | mixinBlock _ => .mixinBlock
  | doctype _ _ => .doctype
  | comment _ _ _ => .comment
  | blockComment _ => .blockComment
  | filter _ => .filter
  | literal _ _ => .literal

def isText : Node → Bool
  | text _ _ => true
  | _ => false

def location : Node → Location
  | block b => b.location
  | tag t => t.location
  | text _ location => location
  | code c => c.location
  | each e => e.location
  | selection s => s.location
  | branch b => b.location
  | mixin m => m.location
  | mixinBlock location => location
  | doctype _ location => location
  | comment _ _ location => location
  | blockComment c => c.location
  | filter f => f.location
  | literal _ location => location

/-- Has something to show beside blanks. -/
def hasContent : Node → Bool
  | text content _ => content.toList.any fun c => !Text.isBlank c
  | _ => true

end Node

end NimTemplate
