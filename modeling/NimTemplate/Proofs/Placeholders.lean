import NimTemplate.Proofs.AttributeOrder
import NimTemplate.Proofs.FoldingControl
import NimTemplate.Proofs.Literals
import NimTemplate.Proofs.Operations

/-! Warnings and placeholders. Attributes that are only known when rendering leave code that calls for
something not there, or a note in its place. Each such placeholder is warned of once, and nothing else
is. -/

namespace NimTemplate.Compile

/-- Whether the classes among the attributes do not all have known values. -/
def hasUnknownClass (context : Context) (attrs : List Attribute) : Bool :=
  attrs.any fun attr => attr.name == "class" && (context.known? attr.source).isNone

/-- What is warned of at a node. -/
def nodeWarnings (context : Context) : Node → List Warning
  | .tag tag =>
    (if hasUnknownClass context tag.attributes.attrs then [⟨.classJoin, tag.location.line⟩] else []) ++
      (if tag.attributes.blocks.isEmpty then [] else [⟨.attributeBlock, tag.location.line⟩])
  | .mixin mixin =>
    if mixin.call && !mixin.attributes.isEmpty then
      (if hasUnknownClass context mixin.attributes.attrs then [⟨.classJoin, mixin.location.line⟩] else []) ++
        [⟨.mixinAttributes, mixin.location.line⟩]
    else []
  | _ => []

/-! The warnings of a walk. -/

theorem allKnown?_isSome (context : Context) (sources : List String) :
    (context.allKnown? sources).isSome = sources.all fun source => (context.known? source).isSome := by
  unfold Context.allKnown?
  induction sources with
  | nil => rfl
  | cons source sources ih =>
    rw [List.mapM_cons, List.all_cons, ← ih]
    cases context.known? source with
    | none => rfl
    | some value =>
      cases sources.mapM context.known? <;> rfl

theorem classWarnings_eq (context : Context) (attrs : List Attribute) (location : Location) :
    classWarnings context (classAttrs attrs) location =
      if hasUnknownClass context attrs then [⟨.classJoin, location.line⟩] else [] := by
  have same : ((classAttrs attrs).isEmpty || (context.allKnown? ((classAttrs attrs).map (·.source))).isSome) =
      !hasUnknownClass context attrs := by
    rw [allKnown?_isSome, hasUnknownClass, classAttrs, List.all_map, List.all_filter, List.not_any_eq_all_not]
    cases empty : (attrs.filter (·.name == "class")).isEmpty with
    | true =>
      rw [Bool.true_or, eq_comm, List.all_eq_true]
      intro attr member
      have other := List.filter_eq_nil_iff.mp (List.isEmpty_iff.mp empty) attr member
      simp [other]
    | false =>
      rw [Bool.false_or]
      congr 1
      funext attr
      cases known : context.known? attr.source <;> simp [known]
  rw [classWarnings, same]
  cases hasUnknownClass context attrs <;> rfl

mutual

theorem warnings_eq_collect (context : Context) (step : Step) :
    step.warnings context = step.collect (Site.warnings context) (callWarnings context) := by
  match step with
  | .put _ | .line _ | .blank | .mode _ => rfl
  | .nested steps | .body steps | .visit _ steps => exact warningsAll_eq_collectAll context steps
  | .mixin mixin steps => exact congrArg (callWarnings context mixin ++ ·) (warningsAll_eq_collectAll context steps)
termination_by structural step

theorem warningsAll_eq_collectAll (context : Context) (steps : List Step) :
    warningsAll context steps = collectAll (Site.warnings context) (callWarnings context) steps := by
  match steps with
  | [] => rfl
  | step :: rest =>
    rw [warningsAll, collectAll, warnings_eq_collect context step, warningsAll_eq_collectAll context rest]
termination_by structural steps

end

theorem warnings_attributeSites (context : Context) (attributes : Attributes) (location : Location) (terse : Bool) :
    (attributeSites attributes location terse).flatMap (Site.warnings context) =
      classWarnings context (classAttrs attributes.attrs) location ++
        (if attributes.blocks.isEmpty then [] else [⟨.attributeBlock, location.line⟩]) := by
  unfold attributeSites
  cases attributes.blocks.isEmpty with
  | false => simp [Site.warnings]
  | true =>
    have plain : ((plainAttrs attributes.attrs).map (Site.attr · terse)).flatMap (Site.warnings context) = [] := by
      simp [List.flatMap_map, Site.warnings]
    simp only [if_true, List.flatMap_append, plain, List.nil_append, List.append_nil]
    cases empty : (classAttrs attributes.attrs).isEmpty with
    | true => simp [classWarnings, empty]
    | false => simp [Site.warnings]

theorem collect_warnings (context : Context) (stop : Stop) :
    stop.collect (Site.warnings context) (callWarnings context) = nodeWarnings context stop.node := by
  obtain ⟨node, mode⟩ := stop
  cases node with
  | tag tag => exact (warnings_attributeSites ..).trans (congrArg (· ++ _) (classWarnings_eq ..))
  | mixin mixin =>
    rw [nodeWarnings, ← classWarnings_eq]
    rfl
  | _ => rfl

/-- The warnings of a plan are those of the nodes on its way. -/
theorem warnings_of_planned {context : Context} {root : Node} {plan : Step} {mode : Mode}
    (planned : planNode context root mode = .ok plan) :
    plan.warnings context = (route root mode).flatMap fun stop => nodeWarnings context stop.node := by
  have only : OnlyAttributes (Site.warnings context) := ⟨fun _ => rfl, fun _ _ _ => rfl⟩
  rw [warnings_eq_collect, collect_of_planned only planned]
  exact List.flatMap_congr fun stop _ => collect_warnings context stop

/-! The code of attributes. -/

/-- The entries of a table of attributes. -/
def tableEntries (context : Context) (attrs : List Attribute) : List String :=
  (plainAttrs attrs).map (entry context) ++ classEntry context (classAttrs attrs)

/-- The note that stands for the attributes of a mixin call. -/
def mixinNote (context : Context) (mixin : Mixin Node) : String :=
  "# FIXME unported mixin attributes: " ++
    if mixin.attributes.blocks.isEmpty then tableText context mixin.attributes.attrs
    else "jade.merge(" ++ listText (tableText context mixin.attributes.attrs :: mixin.attributes.blocks) ++ ")"

/-- The Nim expression of a site, unless it is text. -/
def Site.expr? (context : Context) (site : Site) : Option String :=
  match site.piece context with
  | .expr code => some code
  | .text _ => none

/-- The code that the attributes of a node leave to rendering, part by part: calls, or the entries of
a table and then what the table is put into. -/
def Stop.attributeCode (context : Context) (stop : Stop) : List String :=
  match stop.node with
  | .tag tag =>
    let terse := (stop.mode.enterTag tag.name).dialect.terse
    if tag.attributes.blocks.isEmpty then
      (attributeSites tag.attributes tag.location terse).filterMap (Site.expr? context)
    else tableEntries context tag.attributes.attrs ++ [mergeCall (mergedTables context tag.attributes) terse]
  | .mixin mixin =>
    if mixin.call && !mixin.attributes.isEmpty then
      tableEntries context mixin.attributes.attrs ++ [mixinNote context mixin]
    else []
  | _ => []

/-- How placeholders begin. -/
def placeholderMarks : List (String × Feature) :=
  [("jade.cls(", .classJoin), ("\"class\": jade.joinClasses(", .classJoin), ("jade.attrs(jade.merge(", .attributeBlock),
    ("# FIXME unported mixin attributes: ", .mixinAttributes)]

/-- What the code of attributes is a placeholder for, if it is one. -/
def placeholder? (code : String) : Option Feature :=
  (placeholderMarks.find? fun mark => mark.1.toList.isPrefixOf code.toList).map (·.2)

theorem placeholder?_append (start rest : String) :
    placeholder? (start ++ rest) =
      (placeholderMarks.find? fun mark => mark.1.toList.isPrefixOf (start.toList ++ rest.toList)).map (·.2) := by
  rw [placeholder?, String.toList_append]

theorem placeholder?_classCall (members : List Attribute) : placeholder? (classCall members) = some .classJoin := by
  simp only [classCall, String.append_assoc]
  exact placeholder?_append "jade.cls(" _

theorem placeholder?_mergeCall (tables : List String) (terse : Bool) :
    placeholder? (mergeCall tables terse) = some .attributeBlock := by
  change placeholder? ("jade.attrs(jade.merge(" ++ listText tables ++ "), " ++ boolText terse ++ ")") = _
  simp only [String.append_assoc]
  exact placeholder?_append "jade.attrs(jade.merge(" _

theorem placeholder?_attributeCall (attr : Attribute) (terse : Bool) :
    placeholder? (attributeCall attr terse) = none := by
  simp only [attributeCall, String.append_assoc]
  exact placeholder?_append "jade.attr(" _

theorem placeholder?_mixinNote (context : Context) (mixin : Mixin Node) :
    placeholder? (mixinNote context mixin) = some .mixinAttributes :=
  placeholder?_append "# FIXME unported mixin attributes: " _

theorem placeholder?_unknownClasses (classes : List Attribute) :
    placeholder? ("\"class\": jade.joinClasses(" ++ classSources classes ++ ")") = some .classJoin := by
  rw [String.append_assoc]
  exact placeholder?_append "\"class\": jade.joinClasses(" _

theorem placeholder?_knownClasses (classes : String) :
    placeholder? ("\"class\": " ++ Text.Quoted.literal classes) = none := by
  simp only [Text.Quoted.literal, String.append_assoc]
  rw [← String.append_assoc]
  exact placeholder?_append ("\"class\": " ++ "\"") _

/-- A text that starts with a literal starts with no other. -/
theorem eq_of_literal_append {name other : String} {rest more : List Char}
    (same : (Text.Quoted.literal name).toList ++ rest = (Text.Quoted.literal other).toList ++ more) : name = other := by
  have body : ∀ (text : String) (behind : List Char),
      Token.stringBody '"' ((Text.Quoted.literal text).toList ++ behind).tail = .ok (text.toList, behind) := by
    intro text behind
    have whole : ((Text.Quoted.literal text).toList ++ behind).tail =
        text.toList.flatMap Text.Quoted.escapeChar ++ '"' :: behind := by
      simp [Text.Quoted.literal, Text.Quoted.escape]
    rw [whole, Token.stringBody_escape]
  have bodies := body name rest
  rw [same, body other more] at bodies
  exact (String.toList_inj.mp (Prod.mk.inj (Except.ok.inj bodies)).1).symm

/-- An attribute that is not a class makes no entry for the classes. -/
theorem placeholder?_entry (context : Context) {attr : Attribute} (other : attr.name ≠ "class") :
    placeholder? (entry context attr) = none := by
  obtain ⟨value, same⟩ : ∃ value, entry context attr = Text.Quoted.literal attr.name ++ value :=
    ⟨_, String.append_assoc ..⟩
  have apart : "\"class\": jade.joinClasses(".toList.isPrefixOf (entry context attr).toList = false := by
    rw [Bool.eq_false_iff, ne_eq, List.isPrefixOf_iff_prefix, same, String.toList_append]
    rintro ⟨rest, starts⟩
    apply other
    exact eq_of_literal_append (starts.symm.trans
      (rfl : _ = (Text.Quoted.literal "class").toList ++ (": jade.joinClasses(".toList ++ rest)))
  have quoted : ∃ rest, (entry context attr).toList = '"' :: rest := by
    rw [same, Text.Quoted.literal]
    exact ⟨_, by simp only [String.toList_append, List.append_assoc]; rfl⟩
  obtain ⟨rest, quoted⟩ := quoted
  rw [placeholder?, Option.map_eq_none_iff, List.find?_eq_none]
  intro mark member
  simp only [placeholderMarks, List.mem_cons, List.not_mem_nil, or_false] at member
  -- Of the marks, only that of joined classes begins with a quote.
  rcases member with rfl | rfl | rfl | rfl
  · simp [quoted]
  · exact Bool.eq_false_iff.mp apart
  · simp [quoted]
  · simp [quoted]

/-! The warnings of a node are for the placeholders in its code, in order. -/

/-- What the placeholders in the code of a node stand for. -/
def Stop.placeholders (context : Context) (stop : Stop) : List Feature :=
  (stop.attributeCode context).filterMap placeholder?

theorem placeholders_plainEntries (context : Context) (attrs : List Attribute) :
    ((plainAttrs attrs).map (entry context)).filterMap placeholder? = [] := by
  rw [List.filterMap_eq_nil_iff]
  intro code member
  obtain ⟨attr, plain, rfl⟩ := List.mem_map.mp member
  have other : attr.name ≠ "class" := by simpa using (List.mem_filter.mp plain).2
  exact placeholder?_entry context other

theorem placeholders_classEntry (context : Context) (classes : List Attribute) (location : Location) :
    ((classEntry context classes).filterMap placeholder?).map (Warning.mk · location.line) =
      classWarnings context classes location := by
  unfold classEntry classWarnings
  cases classes.isEmpty with
  | true => rfl
  | false =>
    cases context.allKnown? (classes.map (·.source)) with
    | some values =>
      rw [Bool.false_or, if_neg Bool.false_ne_true, List.filterMap_cons_none (placeholder?_knownClasses _)]
      rfl
    | none =>
      rw [Bool.false_or, if_neg Bool.false_ne_true, List.filterMap_cons_some (placeholder?_unknownClasses _)]
      rfl

theorem placeholders_tableEntries (context : Context) (attrs : List Attribute) (location : Location) :
    ((tableEntries context attrs).filterMap placeholder?).map (Warning.mk · location.line) =
      classWarnings context (classAttrs attrs) location := by
  rw [tableEntries, List.filterMap_append, placeholders_plainEntries, List.nil_append, placeholders_classEntry]

theorem Site.expr?_eq (context : Context) (site : Site) :
    site.expr? context = if (site.text? context.known?).isSome then none else some (site.code context) := by
  rw [expr?, piece]
  cases site.text? context.known? <;> rfl

theorem placeholder?_attr (context : Context) (attr : Attribute) (terse : Bool) :
    ((Site.attr attr terse).expr? context).bind placeholder? = none := by
  have call : placeholder? (Site.code context (.attr attr terse)) = none := placeholder?_attributeCall attr terse
  rw [Site.expr?_eq]
  split
  · rfl
  · rw [Option.bind_some, call]

theorem placeholders_classes (context : Context) {members : List Attribute} (location : Location)
    (some : members.isEmpty = false) :
    (((Site.classes members location).expr? context).bind placeholder?).toList.map (Warning.mk · location.line) =
      classWarnings context members location := by
  have shown : (Site.text? context.known? (.classes members location)).isSome =
      (context.allKnown? (members.map (·.source))).isSome := Option.isSome_map
  rw [Site.expr?_eq, shown, classWarnings, some, Bool.false_or]
  cases (context.allKnown? (members.map (·.source))).isSome with
  | true =>
    rw [if_pos rfl, if_pos rfl]
    rfl
  | false =>
    have call : placeholder? (Site.code context (.classes members location)) = Option.some .classJoin :=
      placeholder?_classCall members
    rw [if_neg Bool.false_ne_true, Option.bind_some, call]
    rfl

theorem placeholders_attributeSites (context : Context) {attributes : Attributes} (location : Location) (terse : Bool)
    (unmerged : attributes.blocks.isEmpty) :
    (((attributeSites attributes location terse).filterMap (Site.expr? context)).filterMap placeholder?).map
        (Warning.mk · location.line) =
      classWarnings context (classAttrs attributes.attrs) location := by
  have plain : ((plainAttrs attributes.attrs).map (Site.attr · terse)).filterMap
      (fun site => (site.expr? context).bind placeholder?) = [] := by
    rw [List.filterMap_eq_nil_iff]
    intro site member
    obtain ⟨attr, _, rfl⟩ := List.mem_map.mp member
    exact placeholder?_attr context attr terse
  rw [List.filterMap_filterMap, attributeSites, if_pos unmerged, List.filterMap_append, plain, List.nil_append]
  cases empty : (classAttrs attributes.attrs).isEmpty with
  | true => simp [classWarnings, empty]
  | false =>
    rw [← placeholders_classes context location empty, if_neg Bool.false_ne_true, List.filterMap_cons]
    cases (Site.expr? context (.classes (classAttrs attributes.attrs) location)).bind placeholder? <;> rfl

/-- Each warning of a node is for one placeholder in its code. -/
theorem nodeWarnings_eq (context : Context) (stop : Stop) :
    nodeWarnings context stop.node = (stop.placeholders context).map (⟨·, stop.node.location.line⟩) := by
  obtain ⟨node, mode⟩ := stop
  unfold Stop.placeholders Stop.attributeCode
  cases node with
  | tag tag =>
    simp only [nodeWarnings]
    rw [← classWarnings_eq context tag.attributes.attrs tag.location]
    split
    · rw [List.append_nil]
      exact (placeholders_attributeSites context tag.location _ ‹_›).symm
    · rw [List.filterMap_append, List.filterMap_cons_some (placeholder?_mergeCall ..), List.map_append]
      exact congrArg (· ++ _) (placeholders_tableEntries ..).symm
  | mixin mixin =>
    simp only [nodeWarnings]
    split
    · rw [← classWarnings_eq, List.filterMap_append, List.filterMap_cons_some (placeholder?_mixinNote ..),
        List.map_append]
      exact congrArg (· ++ _) (placeholders_tableEntries ..).symm
    · rfl
  | _ => rfl

/-! The code of attributes in what is done to the draft. -/

/-- Whether a site is for attributes. -/
def Site.isAttributes : Site → Bool
  | .attr _ _ | .classes _ _ | .merged _ _ _ => true
  | _ => false

def attributeOperation (context : Context) (site : Site) : List Nim.Operation :=
  if site.isAttributes then [site.operation context] else []

def noteOperations (context : Context) (mixin : Mixin Node) : List Nim.Operation :=
  if mixin.call && !mixin.attributes.isEmpty then [.line (mixinNote context mixin)] else []

/-- What is done to the draft for the attributes of a node. -/
def Stop.attributeOperations (context : Context) : Stop → List Nim.Operation :=
  Stop.collect (attributeOperation context) (noteOperations context)

mutual

theorem collect_sublist_operations (context : Context) (step : Step) (state : State) :
    (step.collect (attributeOperation context) (noteOperations context)).Sublist (step.operations context state) := by
  match step with
  | .put site =>
    rw [Step.collect, attributeOperation]
    split
    · exact .refl _
    · exact List.nil_sublist _
  | .line _ | .blank | .mode _ => exact List.nil_sublist _
  | .nested steps | .body steps =>
    have inside := collectAll_sublist_operations context steps state.indent
    exact (inside.trans (List.sublist_append_left ..)).cons _
  | .mixin mixin steps =>
    have inside := collectAll_sublist_operations context steps (state.enterMixin context mixin).indent
    have noted : (noteOperations context mixin).Sublist (mixinStart context mixin) := List.sublist_append_left ..
    exact noted.append ((inside.trans (List.sublist_append_left ..)).cons _)
  | .visit _ steps => exact collectAll_sublist_operations context steps state
termination_by structural step

theorem collectAll_sublist_operations (context : Context) (steps : List Step) (state : State) :
    (collectAll (attributeOperation context) (noteOperations context) steps).Sublist
      (operationsAll context steps state) := by
  match steps with
  | [] => exact .refl _
  | step :: rest =>
    exact (collect_sublist_operations context step state).append (collectAll_sublist_operations context rest _)
termination_by structural steps

end

/-- What is done for attributes stands among the operations of a plan, in the order of its way. -/
theorem attributeOperations_of_planned {context : Context} {root : Node} {plan : Step} {state : State}
    (planned : planNode context root state.mode = .ok plan) :
    ((route root state.mode).flatMap (Stop.attributeOperations context)).Sublist (plan.operations context state) := by
  have only : OnlyAttributes (attributeOperation context) := ⟨fun _ => rfl, fun _ _ _ => rfl⟩
  have ordered := collect_sublist_operations context plan state
  rwa [collect_of_planned only planned] at ordered

/-- The sites of the attributes of a node. -/
def Stop.attributeSites (stop : Stop) : List Site :=
  match stop.node with
  | .tag tag => Compile.attributeSites tag.attributes tag.location (stop.mode.enterTag tag.name).dialect.terse
  | _ => []

theorem isAttributes_attributeSites (attributes : Attributes) (location : Location) (terse : Bool) :
    ∀ site ∈ attributeSites attributes location terse, site.isAttributes := by
  unfold attributeSites
  intro site member
  split at member
  · rcases List.mem_append.mp member with plain | classes
    · obtain ⟨attr, _, rfl⟩ := List.mem_map.mp plain
      rfl
    · split at classes
      · cases classes
      · cases List.mem_singleton.mp classes
        rfl
  · cases List.mem_singleton.mp member
    rfl

mutual

theorem filter_sites (step : Step) :
    step.sites.filter Site.isAttributes = step.collect (fun site => [site].filter Site.isAttributes) fun _ => [] := by
  match step with
  | .put _ | .line _ | .blank | .mode _ => rfl
  | .nested steps | .body steps | .visit _ steps | .mixin _ steps => exact filter_sitesOf steps
termination_by structural step

theorem filter_sitesOf (steps : List Step) :
    (sitesOf steps).filter Site.isAttributes =
      collectAll (fun site => [site].filter Site.isAttributes) (fun _ => []) steps := by
  match steps with
  | [] => rfl
  | step :: rest => rw [sitesOf, List.filter_append, filter_sites step, filter_sitesOf rest, collectAll]
termination_by structural steps

end

/-- No site of a plan is for attributes but those of the nodes on its way. -/
theorem attributeSites_of_planned {context : Context} {root : Node} {plan : Step} {mode : Mode}
    (planned : planNode context root mode = .ok plan) :
    plan.sites.filter Site.isAttributes = (route root mode).flatMap Stop.attributeSites := by
  have only : OnlyAttributes fun site => [site].filter Site.isAttributes := ⟨fun _ => rfl, fun _ _ _ => rfl⟩
  rw [filter_sites, collect_of_planned only planned]
  refine List.flatMap_congr fun stop _ => ?_
  obtain ⟨node, mode⟩ := stop
  cases node with
  | tag tag =>
    have all := isAttributes_attributeSites tag.attributes tag.location (mode.enterTag tag.name).dialect.terse
    have kept (sites : List Site) :
        sites.flatMap (fun site => [site].filter Site.isAttributes) = sites.filter Site.isAttributes := by
      rw [← List.filter_flatMap, List.flatMap_singleton']
    exact (kept _).trans (List.filter_eq_self.mpr all)
  | _ => rfl

/-- The Nim code that an operation writes, if it writes some. -/
def writtenCode? : Nim.Operation → Option String
  | .expr source => some source
  | .line statement => some statement
  | _ => none

/-- The parts of code are what the operations write: all that they write is among the parts, and each
part stands in what one of them writes. -/
structure ArePartsOf (parts : List String) (operations : List Nim.Operation) : Prop where
  whole : ∀ operation ∈ operations, ∀ code ∈ writtenCode? operation, code ∈ parts
  within : ∀ part ∈ parts, ∃ operation ∈ operations, ∃ code ∈ writtenCode? operation, part.toList <:+: code.toList

theorem infix_intercalate {part : String} {parts : List String} (member : part ∈ parts) (separator : String) :
    part.toList <:+: (separator.intercalate parts).toList := by
  obtain ⟨index, found⟩ := List.mem_iff_getElem?.mp (List.mem_map_of_mem (f := String.toList) member)
  rw [String.toList_intercalate, List.intercalate]
  apply List.infix_of_mem_flatten
  rw [← List.getElem?_intersperse_two_mul] at found
  exact List.mem_of_getElem? found

theorem infix_between (before code behind : String) : code.toList <:+: (before ++ code ++ behind).toList := by
  rw [String.toList_append, String.toList_append]
  exact List.infix_append ..

theorem infix_tableText {context : Context} {attrs : List Attribute} {part : String}
    (member : part ∈ tableEntries context attrs) : part.toList <:+: (tableText context attrs).toList :=
  (infix_intercalate member ", ").trans (infix_between ..)

theorem infix_listText {part : String} {parts : List String} (member : part ∈ parts) :
    part.toList <:+: (listText parts).toList :=
  (infix_intercalate member ", ").trans (infix_between ..)

theorem infix_mergeCall {table : String} {tables : List String} (member : table ∈ tables) (terse : Bool) :
    table.toList <:+: (mergeCall tables terse).toList := by
  have outer : (listText tables).toList <:+: (mergeCall tables terse).toList := by
    change _ <:+: ("jade.attrs(jade.merge(" ++ listText tables ++ "), " ++ boolText terse ++ ")").toList
    rw [String.append_assoc, String.append_assoc]
    exact infix_between ..
  exact (infix_listText member).trans outer

theorem infix_mixinNote (context : Context) (mixin : Mixin Node) :
    (tableText context mixin.attributes.attrs).toList <:+: (mixinNote context mixin).toList := by
  change _ <:+: ("# FIXME unported mixin attributes: " ++ _).toList
  rw [String.toList_append]
  refine List.IsInfix.trans ?_ (List.suffix_append ..).isInfix
  split
  · exact List.infix_refl _
  · exact (infix_listText List.mem_cons_self).trans (infix_between ..)

theorem writtenCode?_operation (context : Context) (site : Site) :
    writtenCode? (site.operation context) = site.expr? context := by
  unfold Site.operation Site.expr?
  cases site.piece context <;> rfl

theorem ArePartsOf.sites (context : Context) {sites : List Site} (all : ∀ site ∈ sites, site.isAttributes) :
    ArePartsOf (sites.filterMap (Site.expr? context)) (sites.flatMap (attributeOperation context)) where
  whole operation performed code written := by
    obtain ⟨site, member, here⟩ := List.mem_flatMap.mp performed
    rw [attributeOperation, if_pos (all site member)] at here
    cases List.mem_singleton.mp here
    rw [writtenCode?_operation] at written
    exact List.mem_filterMap.mpr ⟨site, member, written⟩
  within part found := by
    obtain ⟨site, member, written⟩ := List.mem_filterMap.mp found
    refine ⟨site.operation context, List.mem_flatMap.mpr ⟨site, member, ?_⟩, part, ?_, List.infix_refl _⟩
    · rw [attributeOperation, if_pos (all site member)]
      exact List.mem_singleton_self _
    · rw [writtenCode?_operation]
      exact written

theorem ArePartsOf.around {entries : List String} {operation : Nim.Operation} {code : String}
    (written : writtenCode? operation = some code) (inside : ∀ entry ∈ entries, entry.toList <:+: code.toList) :
    ArePartsOf (entries ++ [code]) [operation] where
  whole other performed text shown := by
    cases List.mem_singleton.mp performed
    rw [written] at shown
    cases shown
    exact List.mem_append_right _ (List.mem_singleton_self _)
  within part member := by
    refine ⟨operation, List.mem_singleton_self _, code, written, ?_⟩
    rcases List.mem_append.mp member with entry | last
    · exact inside part entry
    · cases List.mem_singleton.mp last
      exact List.infix_refl _

theorem infix_mergedTables {context : Context} {attributes : Attributes} {part : String} (terse : Bool)
    (member : part ∈ tableEntries context attributes.attrs) :
    part.toList <:+: (mergeCall (mergedTables context attributes) terse).toList := by
  have written : attributes.attrs.isEmpty = false := by
    rw [List.isEmpty_eq_false_iff]
    intro none
    rw [none] at member
    cases member
  have table : tableText context attributes.attrs ∈ mergedTables context attributes := by
    rw [mergedTables, written]
    exact List.mem_cons_self
  exact (infix_tableText member).trans (infix_mergeCall table terse)

/-- The code of the attributes of a node is what is written for them. -/
theorem attributeCode_parts (context : Context) (stop : Stop) :
    ArePartsOf (stop.attributeCode context) (stop.attributeOperations context) := by
  obtain ⟨node, mode⟩ := stop
  have nothing : ArePartsOf [] [] := ⟨by simp, by simp⟩
  cases node with
  | tag tag =>
    simp only [Stop.attributeCode]
    split
    · exact .sites context (isAttributes_attributeSites _ _ _)
    · rename_i merged
      have single : Stop.attributeOperations context ⟨.tag tag, mode⟩ =
          [Site.operation context (.merged tag.attributes tag.location (mode.enterTag tag.name).dialect.terse)] := by
        change (attributeSites ..).flatMap _ = _
        rw [attributeSites, if_neg merged]
        rfl
      rw [single]
      exact .around rfl fun _ => infix_mergedTables _
  | mixin mixin =>
    have noted : Stop.attributeOperations context ⟨.mixin mixin, mode⟩ = noteOperations context mixin := rfl
    rw [noted, noteOperations]
    simp only [Stop.attributeCode]
    split
    · exact .around rfl fun _ member => (infix_tableText member).trans (infix_mixinNote context mixin)
    · exact nothing
  | _ => exact nothing

theorem placeholders_eq_nil_iff (context : Context) (stop : Stop) :
    stop.placeholders context = [] ↔ ∀ code ∈ stop.attributeCode context, placeholder? code = none :=
  List.filterMap_eq_nil_iff

/-- The warnings are those of the visited nodes, in order, and each is for one placeholder in the code
of a node's attributes; so there are none if and only if no placeholder is generated. The code of
attributes is what is written for them: it is all among what the draft is made of, and nothing else
that is put out is for attributes. -/
theorem warnings_mark_placeholders {context : Context} {root : Node} {output : Output}
    (compiled : compile context root = .ok output) :
    ∃ (visits : List Visit) (sites : List Site) (operations : List Nim.Operation), visitsOf context root = .ok visits ∧
      output.warnings = visits.flatMap (fun visit => nodeWarnings context visit.node) ∧
      output.warnings = visits.flatMap (fun visit =>
        (visit.stop.placeholders context).map (⟨·, visit.node.location.line⟩)) ∧
      (output.warnings = [] ↔ ∀ visit ∈ visits, ∀ code ∈ visit.stop.attributeCode context, placeholder? code = none) ∧
      (∀ visit ∈ visits, ArePartsOf (visit.stop.attributeCode context) (visit.stop.attributeOperations context)) ∧
      (visits.flatMap fun visit => visit.stop.attributeOperations context).Sublist operations ∧
      sites.filter Site.isAttributes = visits.flatMap (·.stop.attributeSites) ∧
      operations.filterMap Nim.Operation.piece? = sites.map (Site.piece context) ∧
      ∃ state, emitNode context root (.initial context.options) = .ok state ∧
        state.draft = operations.foldl Nim.Operation.apply (State.initial context.options).draft ∧
        output.source = state.finished.source := by
  obtain ⟨state, emitted, rfl⟩ := compile_eq_ok compiled
  obtain ⟨plan, planned, rfl⟩ := planned_of_emitted emitted
  have stops := stops_of_planned planned
  have visited : visitsOf context root = .ok (plan.visits context (.initial context.options)) := by
    change _ <$> planNode context root (State.initial context.options).mode = _
    rw [planned]
    rfl
  have warned : (plan.run context (.initial context.options)).warnings =
      (plan.visits context (.initial context.options)).flatMap fun visit => nodeWarnings context visit.node := by
    rw [warnings_run, warnings_of_planned planned, ← stops, List.flatMap_map]
    rfl
  have marked : (plan.run context (.initial context.options)).warnings =
      (plan.visits context (.initial context.options)).flatMap fun visit =>
        (visit.stop.placeholders context).map (⟨·, visit.node.location.line⟩) :=
    warned.trans (List.flatMap_congr fun visit _ => nodeWarnings_eq context visit.stop)
  refine ⟨_, plan.sites, plan.operations context _, visited, warned, marked, ?_,
    fun visit _ => attributeCode_parts context visit.stop, ?_, ?_, pieces_operations .., _, emitted,
    draft_run context plan _, rfl⟩
  · rw [marked, List.flatMap_eq_nil_iff]
    simp only [List.map_eq_nil_iff, placeholders_eq_nil_iff]
  · have ordered := attributeOperations_of_planned planned
    rwa [← stops, List.flatMap_map] at ordered
  · rw [attributeSites_of_planned planned, ← stops, List.flatMap_map]

/-- An element with a class and a table to merge, and a mixin call with an attribute. -/
def markedTemplate : Node :=
  .block { nodes := [
    .tag { name := "a", attributes := ⟨[⟨"class", "'x'", true⟩], ["rest"]⟩, block := {},
           location := { line := some 1 } },
    .mixin { name := "m", attributes := ⟨[⟨"id", "'y'", true⟩], []⟩, call := true, location := { line := some 2 } }] }

/-- Without folding the class is not known either. -/
theorem merged_classes_and_call_are_marked :
    ∃ output visits, compile ⟨{ fold := false }, .none⟩ markedTemplate = .ok output ∧
      visitsOf ⟨{ fold := false }, .none⟩ markedTemplate = .ok visits ∧
      output.warnings = [⟨.classJoin, some 1⟩, ⟨.attributeBlock, some 1⟩, ⟨.mixinAttributes, some 2⟩] ∧
      ¬ ∀ visit ∈ visits, ∀ code ∈ visit.stop.attributeCode ⟨{ fold := false }, .none⟩, placeholder? code = none := by
  have warned : Output.warnings <$> compile ⟨{ fold := false }, .none⟩ markedTemplate =
      .ok [⟨.classJoin, some 1⟩, ⟨.attributeBlock, some 1⟩, ⟨.mixinAttributes, some 2⟩] := rfl
  cases compiled : compile ⟨{ fold := false }, .none⟩ markedTemplate with
  | error error =>
    rw [compiled] at warned
    cases warned
  | ok output =>
    rw [compiled] at warned
    have warnings := Except.ok.inj warned
    obtain ⟨visits, _, _, visited, _, _, unmarked, _⟩ := warnings_mark_placeholders compiled
    refine ⟨output, visits, rfl, visited, warnings, fun none => ?_⟩
    rw [unmarked.mpr none] at warnings
    cases warnings

end NimTemplate.Compile
