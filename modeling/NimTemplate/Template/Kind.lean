/-! The kinds of template nodes, with the names that a document gives them. -/

namespace NimTemplate

inductive Kind where
  | block
  | tag
  | text
  | code
  | each
  | selection
  | branch
  | mixin
  | mixinBlock
  | doctype
  | comment
  | blockComment
  | filter
  | literal
deriving DecidableEq, Repr

namespace Kind

def name : Kind → String
  | block => "Block"
  | tag => "Tag"
  | text => "Text"
  | code => "Code"
  | each => "Each"
  | selection => "Case"
  | branch => "When"
  | mixin => "Mixin"
  | mixinBlock => "MixinBlock"
  | doctype => "Doctype"
  | comment => "Comment"
  | blockComment => "BlockComment"
  | filter => "Filter"
  | literal => "Literal"

/-- Every kind, in the order by which they are numbered. -/
def all : List Kind :=
  [block, tag, text, code, each, selection, branch, mixin, mixinBlock, doctype, comment, blockComment,
    filter, literal]

def ofName? (name : String) : Option Kind := all.find? (·.name == name)

theorem ofName?_name (kind : Kind) : ofName? kind.name = some kind := by cases kind <;> decide

end Kind

end NimTemplate
