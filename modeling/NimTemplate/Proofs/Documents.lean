import Mathlib.Data.List.Forall2
import NimTemplate.Proofs.JsonText
import NimTemplate.Proofs.Members

/-! The documents that describe a template. A node is an object that gives its kind and its parts
by their names. The reader takes every text of such a document back to the template. -/

namespace NimTemplate

namespace Json

def IsText (s : String) (json : Json) : Prop := json = .string s

def IsBool (b : Bool) (json : Json) : Prop := json = .bool b

def IsNatural (n : Nat) (json : Json) : Prop := n < wordSize ∧ json = .number (toString n)

def IsList {α : Type} (form : α → Json → Prop) (values : List α) (json : Json) : Prop :=
  ∃ items, json = .array items ∧ List.Forall₂ form values items

theorem reads_text (s : String) : Reads toText? (IsText s) s := by
  rintro json rfl
  rfl

theorem reads_bool (b : Bool) : Reads toBool? (IsBool b) b := by
  rintro json rfl
  rfl

theorem reads_natural (n : Nat) : Reads toNatural? (IsNatural n) n := by
  rintro json ⟨fits, rfl⟩
  have written : (toString n).toList = Decimal.padded 0 n := Nat.toList_repr
  rw [toNatural?, written, Decimal.natural?_padded, Option.filter_some, if_pos (by simpa using fits)]

theorem IsNatural.numbered {n : Nat} {json : Json} (natural : IsNatural n json) : Numbered json := by
  obtain ⟨fits, rfl⟩ := natural
  exact .number (isNumber_natural fits)

theorem reads_list {α : Type} {decode : Json → Option α} {form : α → Json → Prop} {values : List α}
    (each : ∀ value, Reads decode (form value) value) : Reads (toList? decode) (IsList form values) values := by
  rintro json ⟨items, rfl, formed⟩
  rw [toList?]
  induction formed with
  | nil => rfl
  | cons first _ ih =>
    rw [List.mapM_cons, each _ _ first, ih]
    rfl

end Json

open Json

def Location.entries (location : Location) : List Entry :=
  [.optional "line" (location.line.map IsNatural), .optional "column" (location.column.map IsNatural),
    .optional "filename" (location.file.map IsText)]

namespace Attribute

/-- The source of a value as text, or the truth value that has this name. -/
def IsSource (source : String) (json : Json) : Prop :=
  IsText source json ∨ ∃ b : Bool, source = (if b then "true" else "false") ∧ IsBool b json

def entries (attr : Attribute) : List Entry :=
  [.required "name" (IsText attr.name), .required "val" (IsSource attr.source),
    .defaulted "escaped" (IsBool attr.escaped) (attr.escaped = true)]

/-- An attribute is described by an object, or by a list of its parts. -/
inductive IsDescribed (attr : Attribute) : Json → Prop where
  | object {json : Json} : IsObject attr.entries json → IsDescribed attr json
  | pair {source : Json} : IsSource attr.source source → attr.escaped = true →
      IsDescribed attr (.array [.string attr.name, source])
  | triple {source : Json} : IsSource attr.source source →
      IsDescribed attr (.array [.string attr.name, source, .bool attr.escaped])

end Attribute

def Attributes.attrsEntry (attrs : List Attribute) : Entry :=
  .defaulted "attrs" (IsList Attribute.IsDescribed attrs) (attrs = [])

def Attributes.entries (attributes : Attributes) : List Entry :=
  [attrsEntry attributes.attrs, .defaulted "attributeBlocks" (IsList IsText attributes.blocks) (attributes.blocks = [])]

/-- The name of a kind stands under `type`. -/
def Kind.entry (kind : Kind) : Entry := .required "type" (IsText kind.name)

namespace Document

mutual

/-- What an object gives to describe a node, beside its kind. -/
def entries : Node → List Entry
  | .block block => blockEntries block
  | .tag ⟨name, attributes, block, code, selfClosing, computed, location⟩ =>
    [.required "name" (IsText name), .defaulted "block" (IsObject (blockEntries block)) (block = {}),
      .optional "code" (codeForm code), .defaulted "selfClosing" (IsBool selfClosing) (selfClosing = false),
      .defaulted "buffer" (IsBool computed) (computed = false)] ++ attributes.entries ++ location.entries
  | .text content location => .required "val" (IsText content) :: location.entries
  | .code code => codeEntries code
  | .each ⟨collection, item, key, block, alternative, location⟩ =>
    [.required "obj" (IsText collection), .required "val" (IsText item), .optional "key" (key.map IsText),
      .defaulted "block" (IsObject (blockEntries block)) (block = {}),
      .optional "alternative" (blockForm alternative)] ++ location.entries
  | .selection ⟨subject, block, location⟩ =>
    [.required "expr" (IsText subject), .defaulted "block" (IsObject (blockEntries block)) (block = {})] ++
      location.entries
  | .branch ⟨label, block, location⟩ =>
    [.required "expr" (IsText label), .optional "block" (blockForm block)] ++ location.entries
  | .mixin ⟨name, parameters, block, attributes, call, location⟩ =>
    [.required "name" (IsText name), .optional "args" (parameters.map IsText), .optional "block" (blockForm block),
      .defaulted "call" (IsBool call) (call = false)] ++ attributes.entries ++ location.entries
  | .mixinBlock location => location.entries
  | .doctype name location => .optional "val" (name.map IsText) :: location.entries
  | .comment content buffered location =>
    [.required "val" (IsText content), .defaulted "buffer" (IsBool buffered) (buffered = false)] ++ location.entries
  | .blockComment ⟨content, block, buffered, location⟩ =>
    [.required "val" (IsText content), .defaulted "block" (IsObject (blockEntries block)) (block = {}),
      .defaulted "buffer" (IsBool buffered) (buffered = false)] ++ location.entries
  | .filter ⟨name, block, attrs, location⟩ =>
    [.required "name" (IsText name), .defaulted "block" (IsObject (blockEntries block)) (block = {}),
      Attributes.attrsEntry attrs] ++ location.entries
  | .literal content location => .required "str" (IsText content) :: location.entries
termination_by structural node => node

/-- A block within a node, which tells no kind. -/
def blockEntries : Block Node → List Entry
  | ⟨nodes, location⟩ =>
    .defaulted "nodes" (fun json => ∃ items, json = .array items ∧ AreItems nodes items) (nodes = []) ::
      location.entries
termination_by structural block => block

/-- Items that describe nodes one by one. -/
def AreItems : List Node → List Json → Prop
  | [], items => items = []
  | node :: rest, items => ∃ item more, items = item :: more ∧ IsObject (node.kind.entry :: entries node) item ∧
      AreItems rest more
termination_by structural nodes => nodes

def codeEntries : Code Node → List Entry
  | ⟨source, buffered, escaped, block, location⟩ =>
    [.required "val" (IsText source), .defaulted "buffer" (IsBool buffered) (buffered = false),
      .defaulted "escape" (IsBool escaped) (escaped = false), .optional "block" (blockForm block)] ++ location.entries
termination_by structural code => code

def blockForm : Option (Block Node) → Option (Json → Prop)
  | none => none
  | some block => some (IsObject (blockEntries block))
termination_by structural block => block

def codeForm : Option (Code Node) → Option (Json → Prop)
  | none => none
  | some code => some (IsObject (codeEntries code))
termination_by structural code => code

end

/-- The document is an object that gives the kind of the node and its parts. -/
def Describes (json : Json) (node : Node) : Prop := IsObject (node.kind.entry :: entries node) json

/-! Reading the parts that hold no nodes. -/

section

variable {members : List (String × Json)}

theorem location_of_gives {location : Location} (gives : Gives members location.entries) :
    Location.ofMembers? members = some location := by
  obtain ⟨line, gives⟩ := gives.uncons
  obtain ⟨column, gives⟩ := gives.uncons
  obtain ⟨file, _⟩ := gives.uncons
  rw [Location.ofMembers?, optional_of_given line rfl fun n _ => reads_natural n,
    optional_of_given column rfl fun n _ => reads_natural n, optional_of_given file rfl fun s _ => reads_text s]
  rfl

theorem reads_source (source : String) : Reads Attribute.source? (Attribute.IsSource source) source := by
  rintro json (rfl | ⟨b, rfl, rfl⟩)
  · rfl
  · rfl

theorem reads_attribute (attr : Attribute) : Reads Attribute.ofJson? attr.IsDescribed attr := by
  intro json described
  cases described with
  | object isObject =>
    obtain ⟨gives⟩ := isObject
    obtain ⟨name, gives⟩ := gives.uncons
    obtain ⟨source, gives⟩ := gives.uncons
    obtain ⟨escaped, _⟩ := gives.uncons
    rw [Attribute.ofJson?, required_of_given name (reads_text _), required_of_given source (reads_source _),
      defaulted_of_given escaped (reads_bool _)]
    rfl
  | pair source plain =>
    obtain ⟨name, text, escaped⟩ := attr
    obtain rfl : escaped = true := plain
    rw [Attribute.ofJson?, toText?, reads_source text _ source]
    rfl
  | triple source =>
    rw [Attribute.ofJson?, toText?, reads_source attr.source _ source]
    rfl

theorem attrs_of_given {attrs : List Attribute} (given : (Attributes.attrsEntry attrs).IsGiven members) :
    Attributes.attrs? members = some attrs := defaulted_of_given given (reads_list reads_attribute)

theorem attributes_of_gives {attributes : Attributes} (gives : Gives members attributes.entries) :
    Attributes.ofMembers? members = some attributes := by
  obtain ⟨attrs, gives⟩ := gives.uncons
  obtain ⟨blocks, _⟩ := gives.uncons
  rw [Attributes.ofMembers?, attrs_of_given attrs, defaulted_of_given blocks (reads_list reads_text)]
  rfl

theorem reads_kind (kind : Kind) : Reads Kind.ofJson? (IsText kind.name) kind := by
  rintro json rfl
  exact Kind.ofName?_name kind

end

/-! Reading nodes. Each lemma is about one kind, given that the blocks in it are read. -/

def ReadsBlock (block : Block Node) : Prop :=
  ∀ members, Gives members (blockEntries block) → Node.blockOfMembers? members = some block

def ReadsCode (code : Code Node) : Prop :=
  ∀ members, Gives members (codeEntries code) → Node.codeOfMembers? members = some code

def ReadsNode (node : Node) : Prop :=
  ∀ members, Gives members (entries node) → Node.ofMembers? node.kind members = some node

theorem ReadsBlock.reads {block : Block Node} (reads : ReadsBlock block) :
    Reads Node.blockOf? (IsObject (blockEntries block)) block := by
  intro json isObject
  obtain ⟨gives⟩ := isObject
  rw [Node.blockOf?]
  exact reads _ gives

theorem ReadsCode.reads {code : Code Node} (reads : ReadsCode code) :
    Reads Node.codeOf? (IsObject (codeEntries code)) code := by
  intro json isObject
  obtain ⟨gives⟩ := isObject
  rw [Node.codeOf?]
  exact reads _ gives

theorem ReadsNode.reads {node : Node} (reads : ReadsNode node) :
    Reads Node.ofJson? (IsObject (node.kind.entry :: entries node)) node := by
  intro json isObject
  obtain ⟨gives⟩ := isObject
  obtain ⟨kind, gives⟩ := gives.uncons
  rw [Node.ofJson?, required_of_given kind (reads_kind _)]
  exact reads _ gives

section

variable {members : List (String × Json)} {name : String}

theorem block_of_given {block : Block Node} (reads : ReadsBlock block)
    (given : (Entry.defaulted name (IsObject (blockEntries block)) (block = {})).IsGiven members) :
    defaulted members name (fun json _ => Node.blockOf? json) {} = some block :=
  defaulted_of_given given reads.reads

theorem optionalBlock_of_given {block : Option (Block Node)} (reads : ∀ inner, block = some inner → ReadsBlock inner)
    (given : (Entry.optional name (blockForm block)).IsGiven members) :
    optional members name (fun json _ => Node.blockOf? json) = some block := by
  have same : blockForm block = block.map fun inner => IsObject (blockEntries inner) := by cases block <;> rfl
  rw [same] at given
  exact optional_of_given given (by simp [Node.blockOf?]) fun inner found => (reads inner found).reads

theorem optionalCode_of_given {code : Option (Code Node)} (reads : ∀ inner, code = some inner → ReadsCode inner)
    (given : (Entry.optional name (codeForm code)).IsGiven members) :
    optional members name (fun json _ => Node.codeOf? json) = some code := by
  have same : codeForm code = code.map fun inner => IsObject (codeEntries inner) := by cases code <;> rfl
  rw [same] at given
  exact optional_of_given given (by simp [Node.codeOf?]) fun inner found => (reads inner found).reads

theorem code_of_gives {code : Code Node} (block : ∀ inner, code.block = some inner → ReadsBlock inner)
    (gives : Gives members (codeEntries code)) : Node.codeOfMembers? members = some code := by
  obtain ⟨source, buffered, escaped, inner, location⟩ := code
  obtain ⟨own, located⟩ := gives.split
  obtain ⟨source, own⟩ := own.uncons
  obtain ⟨buffered, own⟩ := own.uncons
  obtain ⟨escaped, own⟩ := own.uncons
  obtain ⟨inner, _⟩ := own.uncons
  rw [Node.codeOfMembers?, required_of_given source (reads_text _), defaulted_of_given buffered (reads_bool _),
    defaulted_of_given escaped (reads_bool _), optionalBlock_of_given block inner, location_of_gives located]
  rfl

theorem tag_of_gives {tag : Tag Node} (block : ReadsBlock tag.block)
    (code : ∀ inner, tag.code = some inner → ReadsCode inner) (gives : Gives members (entries (.tag tag))) :
    Node.tagOfMembers? members = some tag := by
  obtain ⟨name, attributes, inner, first, selfClosing, computed, location⟩ := tag
  obtain ⟨gives, located⟩ := gives.split
  obtain ⟨own, attributes⟩ := gives.split
  obtain ⟨name, own⟩ := own.uncons
  obtain ⟨inner, own⟩ := own.uncons
  obtain ⟨first, own⟩ := own.uncons
  obtain ⟨selfClosing, own⟩ := own.uncons
  obtain ⟨computed, _⟩ := own.uncons
  rw [Node.tagOfMembers?, required_of_given name (reads_text _), attributes_of_gives attributes,
    block_of_given block inner, optionalCode_of_given code first, defaulted_of_given selfClosing (reads_bool _),
    defaulted_of_given computed (reads_bool _), location_of_gives located]
  rfl

theorem each_of_gives {each : Each Node} (block : ReadsBlock each.block)
    (alternative : ∀ inner, each.alternative = some inner → ReadsBlock inner)
    (gives : Gives members (entries (.each each))) : Node.eachOfMembers? members = some each := by
  obtain ⟨collection, item, key, inner, other, location⟩ := each
  obtain ⟨own, located⟩ := gives.split
  obtain ⟨collection, own⟩ := own.uncons
  obtain ⟨item, own⟩ := own.uncons
  obtain ⟨key, own⟩ := own.uncons
  obtain ⟨inner, own⟩ := own.uncons
  obtain ⟨other, _⟩ := own.uncons
  rw [Node.eachOfMembers?, required_of_given collection (reads_text _), required_of_given item (reads_text _),
    optional_of_given key rfl fun s _ => reads_text s, block_of_given block inner,
    optionalBlock_of_given alternative other, location_of_gives located]
  rfl

theorem selection_of_gives {selection : Selection Node} (block : ReadsBlock selection.block)
    (gives : Gives members (entries (.selection selection))) : Node.selectionOfMembers? members = some selection := by
  obtain ⟨subject, inner, location⟩ := selection
  obtain ⟨own, located⟩ := gives.split
  obtain ⟨subject, own⟩ := own.uncons
  obtain ⟨inner, _⟩ := own.uncons
  rw [Node.selectionOfMembers?, required_of_given subject (reads_text _), block_of_given block inner,
    location_of_gives located]
  rfl

theorem branch_of_gives {branch : Branch Node} (block : ∀ inner, branch.block = some inner → ReadsBlock inner)
    (gives : Gives members (entries (.branch branch))) : Node.branchOfMembers? members = some branch := by
  obtain ⟨label, inner, location⟩ := branch
  obtain ⟨own, located⟩ := gives.split
  obtain ⟨label, own⟩ := own.uncons
  obtain ⟨inner, _⟩ := own.uncons
  rw [Node.branchOfMembers?, required_of_given label (reads_text _), optionalBlock_of_given block inner,
    location_of_gives located]
  rfl

theorem mixin_of_gives {mixin : Mixin Node} (block : ∀ inner, mixin.block = some inner → ReadsBlock inner)
    (gives : Gives members (entries (.mixin mixin))) : Node.mixinOfMembers? members = some mixin := by
  obtain ⟨name, parameters, inner, attributes, call, location⟩ := mixin
  obtain ⟨gives, located⟩ := gives.split
  obtain ⟨own, attributes⟩ := gives.split
  obtain ⟨name, own⟩ := own.uncons
  obtain ⟨parameters, own⟩ := own.uncons
  obtain ⟨inner, own⟩ := own.uncons
  obtain ⟨call, _⟩ := own.uncons
  rw [Node.mixinOfMembers?, required_of_given name (reads_text _), optional_of_given parameters rfl fun s _ => reads_text s,
    optionalBlock_of_given block inner, attributes_of_gives attributes, defaulted_of_given call (reads_bool _),
    location_of_gives located]
  rfl

theorem blockComment_of_gives {comment : BlockComment Node} (block : ReadsBlock comment.block)
    (gives : Gives members (entries (.blockComment comment))) : Node.blockCommentOfMembers? members = some comment := by
  obtain ⟨text, inner, buffered, location⟩ := comment
  obtain ⟨own, located⟩ := gives.split
  obtain ⟨text, own⟩ := own.uncons
  obtain ⟨inner, own⟩ := own.uncons
  obtain ⟨buffered, _⟩ := own.uncons
  rw [Node.blockCommentOfMembers?, required_of_given text (reads_text _), block_of_given block inner,
    defaulted_of_given buffered (reads_bool _), location_of_gives located]
  rfl

theorem filter_of_gives {filter : Filter Node} (block : ReadsBlock filter.block)
    (gives : Gives members (entries (.filter filter))) : Node.filterOfMembers? members = some filter := by
  obtain ⟨name, inner, attrs, location⟩ := filter
  obtain ⟨own, located⟩ := gives.split
  obtain ⟨name, own⟩ := own.uncons
  obtain ⟨inner, own⟩ := own.uncons
  obtain ⟨attrs, _⟩ := own.uncons
  rw [Node.filterOfMembers?, required_of_given name (reads_text _), block_of_given block inner, attrs_of_given attrs,
    location_of_gives located]
  rfl

end

mutual

theorem reads_node (node : Node) : ReadsNode node := by
  intro members gives
  match node with
  | .block block =>
    rw [Node.kind, Node.ofMembers?, reads_block block members gives]
    rfl
  | .tag ⟨name, attributes, block, code, selfClosing, computed, location⟩ =>
    rw [Node.kind, Node.ofMembers?, tag_of_gives (reads_block block) (reads_codes code) gives]
    rfl
  | .text content location =>
    obtain ⟨content, located⟩ := gives.uncons
    rw [Node.kind, Node.ofMembers?, required_of_given content (reads_text _), location_of_gives located]
    rfl
  | .code code =>
    rw [Node.kind, Node.ofMembers?, reads_code code members gives]
    rfl
  | .each ⟨collection, item, key, block, alternative, location⟩ =>
    rw [Node.kind, Node.ofMembers?, each_of_gives (reads_block block) (reads_blocks alternative) gives]
    rfl
  | .selection ⟨subject, block, location⟩ =>
    rw [Node.kind, Node.ofMembers?, selection_of_gives (reads_block block) gives]
    rfl
  | .branch ⟨label, block, location⟩ =>
    rw [Node.kind, Node.ofMembers?, branch_of_gives (reads_blocks block) gives]
    rfl
  | .mixin ⟨name, parameters, block, attributes, call, location⟩ =>
    rw [Node.kind, Node.ofMembers?, mixin_of_gives (reads_blocks block) gives]
    rfl
  | .mixinBlock location =>
    rw [Node.kind, Node.ofMembers?, location_of_gives gives]
    rfl
  | .doctype name location =>
    obtain ⟨name, located⟩ := gives.uncons
    rw [Node.kind, Node.ofMembers?, optional_of_given name rfl fun s _ => reads_text s, location_of_gives located]
    rfl
  | .comment content buffered location =>
    obtain ⟨own, located⟩ := gives.split
    obtain ⟨content, own⟩ := own.uncons
    obtain ⟨buffered, _⟩ := own.uncons
    rw [Node.kind, Node.ofMembers?, required_of_given content (reads_text _), defaulted_of_given buffered (reads_bool _),
      location_of_gives located]
    rfl
  | .blockComment ⟨content, block, buffered, location⟩ =>
    rw [Node.kind, Node.ofMembers?, blockComment_of_gives (reads_block block) gives]
    rfl
  | .filter ⟨name, block, attrs, location⟩ =>
    rw [Node.kind, Node.ofMembers?, filter_of_gives (reads_block block) gives]
    rfl
  | .literal content location =>
    obtain ⟨content, located⟩ := gives.uncons
    rw [Node.kind, Node.ofMembers?, required_of_given content (reads_text _), location_of_gives located]
    rfl
termination_by structural node

theorem reads_block (block : Block Node) : ReadsBlock block := by
  intro members gives
  match block with
  | ⟨nodes, location⟩ =>
    obtain ⟨items, located⟩ := gives.uncons
    rw [Node.blockOfMembers?, defaulted_of_given items (reads_nodes nodes), location_of_gives located]
    rfl
termination_by structural block

theorem reads_nodes (nodes : List Node) :
    Reads Node.nodesOf? (fun json => ∃ items, json = .array items ∧ AreItems nodes items) nodes := by
  rintro json ⟨items, rfl, described⟩
  rw [Node.nodesOf?]
  match nodes with
  | [] =>
    obtain rfl := described
    rw [Node.ofList?]
  | node :: rest =>
    obtain ⟨item, more, rfl, first, others⟩ := described
    have read := reads_nodes rest (.array more) ⟨more, rfl, others⟩
    rw [Node.nodesOf?] at read
    rw [Node.ofList?, (reads_node node).reads item first, read]
    rfl
termination_by structural nodes

theorem reads_code (code : Code Node) : ReadsCode code := by
  intro members gives
  match code with
  | ⟨source, buffered, escaped, block, location⟩ => exact code_of_gives (reads_blocks block) gives
termination_by structural code

theorem reads_blocks (block : Option (Block Node)) : ∀ inner, block = some inner → ReadsBlock inner := by
  intro inner found
  match block with
  | none => cases found
  | some block =>
    have read := reads_block block
    cases found
    exact read
termination_by structural block

theorem reads_codes (code : Option (Code Node)) : ∀ inner, code = some inner → ReadsCode inner := by
  intro inner found
  match code with
  | none => cases found
  | some code =>
    have read := reads_code code
    cases found
    exact read
termination_by structural code

end

theorem isNamed_of_describes {json : Json} {node : Node} (describes : Describes json node) : Node.isNamed json := by
  obtain ⟨gives⟩ := describes
  obtain ⟨⟨value, once, rfl⟩ | ⟨_, impossible⟩, _⟩ := gives.uncons
  · have listed : Json.string node.kind.name ∈ valuesOf "type" _ := once ▸ List.mem_singleton_self _
    obtain ⟨⟨name, value⟩, kept, same⟩ := List.mem_map.mp listed
    obtain ⟨present, named⟩ := List.mem_filter.mp kept
    obtain rfl : value = .string node.kind.name := same
    exact List.any_eq_true.mpr ⟨(name, _), present, Bool.and_eq_true_iff.mpr ⟨named, rfl⟩⟩
  · cases impossible

/-- Every text of a document that describes a template is read as this template. -/
theorem described_template_is_read {node : Node} {json : Json} {text : String} (describes : Describes json node)
    (writes : WritesDocument json text.toList) (shallow : json.nesting ≤ 127) : Node.parse? text = some node := by
  have read : Node.ofJson? json = some node := (reads_node node).reads json describes
  rw [Node.parse?, parse?_of_writes writes shallow]
  dsimp only [bind, Option.bind]
  rw [if_pos (isNamed_of_describes describes), read]

/-- The kind comes last, a name that tags do not know twice, and a block with a kind of its own. -/
theorem described_link_is_read :
    let node : Node := .tag {
      name := "a"
      attributes := { attrs := [{ name := "href", source := "true" }] }
      block := { nodes := [.text "é\n" {}] }
      location := { line := some 3 } }
    let json : Json := .object [("x", .array []), ("line", .number "3"), ("name", .string "a"), ("x", .null),
      ("code", .null), ("block", .object [("type", .bool true),
        ("nodes", .array [.object [("val", .string "é\n"), ("type", .string "Text")]])]),
      ("attrs", .array [.object [("val", .bool true), ("name", .string "href")]]), ("buffer", .bool false),
      ("type", .string "Tag")]
    Describes json node ∧ WritesDocument json json.render.toList ∧ json.nesting ≤ 127 ∧
      Node.parse? json.render = some node := by
  intro node json
  have text : Describes (.object [("val", .string "é\n"), ("type", .string "Text")]) (.text "é\n" {}) :=
    .mk (.cons (.once rfl rfl) (.cons (.once rfl rfl) (.cons (.leftOut rfl rfl) (.cons (.leftOut rfl rfl)
      (.cons (.leftOut rfl rfl) .nil)))))
  have block : IsObject (blockEntries { nodes := [.text "é\n" {}] }) (.object [("type", .bool true),
      ("nodes", .array [.object [("val", .string "é\n"), ("type", .string "Text")]])]) :=
    .mk (.cons (.once rfl ⟨_, rfl, _, _, rfl, text, rfl⟩) (.cons (.leftOut rfl rfl) (.cons (.leftOut rfl rfl)
      (.cons (.leftOut rfl rfl) .nil))))
  have attr : Attribute.IsDescribed { name := "href", source := "true" }
      (.object [("val", .bool true), ("name", .string "href")]) :=
    .object (.mk (.cons (.once rfl rfl) (.cons (.once rfl (.inr ⟨true, rfl, rfl⟩)) (.cons (.leftOut rfl rfl) .nil))))
  have line : IsNatural 3 (.number "3") := ⟨by decide, rfl⟩
  have describes : Describes json node :=
    .mk (.cons (.once rfl rfl) (.cons (.once rfl rfl) (.cons (.once rfl block) (.cons (.once rfl rfl)
      (.cons (.leftOut rfl rfl) (.cons (.once rfl rfl) (.cons (.once rfl ⟨_, rfl, .cons attr .nil⟩)
      (.cons (.leftOut rfl rfl) (.cons (.once rfl line) (.cons (.leftOut rfl rfl) (.cons (.leftOut rfl rfl) .nil)))))))))))
  have writes : WritesDocument json json.render.toList := by
    have numbered : Numbered json := by simp [json, line.numbered]
    simpa using WritesDocument.mk (List.forall_mem_nil _) numbered.writes_render (List.forall_mem_nil _)
  exact ⟨describes, writes, by decide, described_template_is_read describes writes (by decide)⟩

end Document

end NimTemplate
