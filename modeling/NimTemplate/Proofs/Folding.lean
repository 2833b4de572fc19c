import NimTemplate.Proofs.StraightLine

/-! Expressions whose value is known. Whether they become text is decided site by site: the plan
of a template is the same either way, and so is every piece except those of known values. -/

namespace NimTemplate.Compile

/-- The same compilation with known values made text, or with all of them left to rendering. -/
def Context.withFold (context : Context) (fold : Bool) : Context :=
  { context with options := { context.options with fold } }

mutual

theorem planNode_withFold (context : Context) (fold : Bool) (node : Node) (mode : Mode) :
    planNode (context.withFold fold) node mode = planNode context node mode := by
  match node with
  | .block ⟨nodes, place⟩ => rw [planNode, planNode, planNodes_withFold context fold nodes]
  | .tag ⟨name, attributes, ⟨nodes, place⟩, code, selfClosing, computed, location⟩ =>
    rw [planNode, planNode]
    simp only [planFirst_withFold context fold code, planNodes_withFold context fold nodes]
    rfl
  | .text content location => rfl
  | .code code => rw [planNode, planNode, planCode_withFold context fold code]
  | .each ⟨collection, item, key, ⟨nodes, place⟩, alternative, location⟩ =>
    rw [planNode, planNode, planNodes_withFold context fold nodes]
    match alternative with
    | none => rfl
    | some ⟨others, elsewhere⟩ => simp only [planNodes_withFold context fold others]
  | .selection ⟨subject, ⟨nodes, place⟩, location⟩ =>
    rw [planNode, planNode, planBranches_withFold context fold nodes]
  | .branch ⟨label, block, location⟩ => rw [planNode, planNode, planBody_withFold context fold block]
  | .mixin ⟨name, parameters, block, attributes, call, location⟩ =>
    rw [planNode, planNode, planBody_withFold context fold block]
    rfl
  | .mixinBlock location => rfl
  | .doctype name location => rfl
  | .comment content buffered location => rfl
  | .blockComment ⟨content, ⟨nodes, place⟩, buffered, location⟩ =>
    rw [planNode, planNode, planNodes_withFold context fold nodes]
  | .filter filter => rfl
  | .literal content location => rfl
termination_by structural node

theorem planNodes_withFold (context : Context) (fold : Bool) (nodes : List Node) (mode : Mode) :
    planNodes (context.withFold fold) nodes mode = planNodes context nodes mode := by
  match nodes with
  | [] => rfl
  | node :: rest =>
    rw [planNodes, planNodes, planNode_withFold context fold node]
    simp only [planNodes_withFold context fold rest]
termination_by structural nodes

theorem planCode_withFold (context : Context) (fold : Bool) (code : Code Node) (mode : Mode) :
    planCode (context.withFold fold) code mode = planCode context code mode := by
  match code with
  | ⟨source, buffered, escaped, none, location⟩ => rfl
  | ⟨source, buffered, escaped, some ⟨nodes, place⟩, location⟩ =>
    exact congrArg (· >>= _) (planNodes_withFold context fold nodes mode)
termination_by structural code

theorem planFirst_withFold (context : Context) (fold : Bool) (code : Option (Code Node)) (mode : Mode) :
    planFirst (context.withFold fold) code mode = planFirst context code mode := by
  match code with
  | none => rfl
  | some code => exact planCode_withFold context fold code mode
termination_by structural code

theorem planBody_withFold (context : Context) (fold : Bool) (block : Option (Block Node)) (mode : Mode) :
    planBody (context.withFold fold) block mode = planBody context block mode := by
  match block with
  | none => rfl
  | some ⟨nodes, place⟩ => exact planNodes_withFold context fold nodes mode
termination_by structural block

theorem planBranches_withFold (context : Context) (fold : Bool) (nodes : List Node) (labels : List String)
    (hasDefault : Bool) (mode : Mode) :
    planBranches (context.withFold fold) nodes labels hasDefault mode =
      planBranches context nodes labels hasDefault mode := by
  match nodes with
  | [] => rfl
  | node :: rest =>
    have here := planNode_withFold context fold node
    have later := planBranches_withFold context fold rest
    cases node with
    | branch branch =>
      obtain ⟨label, block, location⟩ := branch
      have inside := planBody_withFold context fold block
      rw [planBranches, planBranches]
      simp only [inside, later]
      cases block with
      | none => rfl
      | some block =>
        have content : planNodes (context.withFold fold) block.nodes = planNodes context block.nodes := funext inside
        simp only [content]
    | _ => simp only [planBranches, here, later]
termination_by structural nodes

end

/-- Whether a site shows values that it names itself, and no attributes only known when rendering. -/
def Site.isBare : Site → Bool
  | .merged _ _ _ => false
  | _ => true

/-- A piece with the value of its site put in, where that is known. -/
def Site.folded (site : Site) : Nim.Piece → Nim.Piece
  | .text content => .text content
  | .expr code =>
    match site.text? constant? with
    | some content => .text content
    | none => .expr code

private theorem known_withFold (context : Context) :
    (context.withFold false).known? = (fun _ => none) ∧ (context.withFold true).known? = constant? :=
  ⟨rfl, rfl⟩

/-- What a site leaves to rendering depends on its values alone. -/
private theorem Site.code_withFold (context : Context) {site : Site} (bare : site.isBare) (fold other : Bool) :
    site.code (context.withFold fold) = site.code (context.withFold other) := by
  cases site with
  | merged attributes location terse => cases bare
  | _ => rfl

/-- A site without values is the same text whatever is known, and one with values is no text if
nothing is known. -/
private theorem Site.text?_unknown (site : Site) :
    (∃ content, ∀ find, site.text? find = some content) ∨ site.text? (fun _ => none) = none := by
  cases site with
  | text content => exact .inl ⟨content, fun _ => rfl⟩
  | classes members location =>
    cases members with
    | nil => exact .inl ⟨_, fun _ => rfl⟩
    | cons member others => exact .inr rfl
  | _ => exact .inr rfl

/-- With known values made text, a site puts out what it would put out without, with its value put
in. -/
theorem Site.piece_withFold (context : Context) {site : Site} (bare : site.isBare) :
    site.piece (context.withFold true) = site.folded (site.piece (context.withFold false)) := by
  obtain ⟨unknown, known⟩ := known_withFold context
  rcases site.text?_unknown with ⟨content, constant⟩ | unfolded
  · rw [piece, piece, constant, constant]
    rfl
  · rw [piece, piece, known, unknown, unfolded, code_withFold context bare true false]
    rfl

private theorem bare_attributeSites {attributes : Attributes} (none : attributes.blocks.isEmpty) (location : Location)
    (terse : Bool) : (attributeSites attributes location terse).all Site.isBare := by
  rw [attributeSites, if_pos none]
  split <;> simp [Site.isBare]

private theorem bare_startTag {tag : Tag Node} (none : tag.attributes.blocks.isEmpty) (terse : Bool) :
    (startTag tag terse).all Site.isBare := by
  have name : (tagNameSite tag).isBare := by
    unfold tagNameSite
    split <;> rfl
  simp only [startTag, List.all_cons, name, bare_attributeSites none, Bool.and_true]
  rfl

private theorem bare_endTag (tag : Tag Node) : (endTag tag).all Site.isBare := by
  unfold endTag tagNameSite
  split <;> rfl

private theorem bare_contentSites (content : String) : (contentSites content).all Site.isBare := by
  unfold contentSites
  split
  next segments _ =>
    rw [List.all_map, List.all_eq_true]
    intro segment _
    cases segment <;> rfl
  next => rfl

mutual

theorem bare_rendering (filtered : Filter Node → Except FilterError String) (node : Node) (mode : Mode)
    (straight : node.isStraight (·.blocks.isEmpty)) : (rendering filtered node mode).1.all Site.isBare := by
  match node with
  | .block ⟨nodes, place⟩ => exact bare_renderingAll filtered nodes mode straight
  | .tag ⟨name, attributes, ⟨nodes, place⟩, code, selfClosing, computed, location⟩ =>
    simp only [Node.isStraight, Bool.and_eq_true] at straight
    have opening : (openingSites mode name).all Site.isBare := by
      unfold openingSites
      split <;> rfl
    have start := @bare_startTag ⟨name, attributes, ⟨nodes, place⟩, code, selfClosing, computed, location⟩
      straight.1.1 (mode.enterTag name).dialect.terse
    have first : (code.toList.map codeSite).all Site.isBare := by simp [Site.isBare, codeSite]
    have content := bare_renderingAll filtered nodes (mode.enterTag name) straight.2
    rw [rendering]
    split
    · simp only [List.all_append, opening, start, List.all_cons, List.all_nil, Site.isBare, Bool.and_true]
    · simp only [List.all_append, opening, start, List.all_cons, first, content, bare_endTag, Site.isBare,
        Bool.and_true]
  | .text content location => exact bare_contentSites content
  | .code code => rfl
  | .doctype name location => rfl
  | .comment content buffered location => cases buffered <;> rfl
  | .blockComment ⟨content, ⟨nodes, place⟩, buffered, location⟩ =>
    have inside := bare_renderingAll filtered nodes mode straight
    rw [rendering]
    split
    · simp only [List.all_cons, List.all_append, inside, Site.isBare, List.all_nil, Bool.and_true]
    · rfl
  | .filter filter =>
    rw [rendering]
    split
    · exact bare_contentSites _
    · rfl
  | .literal content location => rfl
  | .each _ | .selection _ | .branch _ | .mixin _ | .mixinBlock _ => simp [Node.isStraight] at straight
termination_by structural node

theorem bare_renderingAll (filtered : Filter Node → Except FilterError String) (nodes : List Node) (mode : Mode)
    (straight : allStraight (·.blocks.isEmpty) nodes) : (renderingAll filtered nodes mode).1.all Site.isBare := by
  match nodes with
  | [] => rfl
  | node :: rest =>
    simp only [allStraight, Bool.and_eq_true] at straight
    have here := bare_rendering filtered node mode straight.1
    have later := bare_renderingAll filtered rest (rendering filtered node mode).2 straight.2
    change ((rendering filtered node mode).1 ++ if node.isText && rest.head?.any Node.isText then
      .text "\n" :: (renderingAll filtered rest (rendering filtered node mode).2).1
      else (renderingAll filtered rest (rendering filtered node mode).2).1).all Site.isBare = true
    rw [List.all_append, here]
    split
    · exact later
    · exact later
termination_by structural nodes

end

/-- The operands of a template with known values made text are those without, each with the value
of its site put in. -/
theorem documentPieces_withFold (context : Context) {root : Node} (straight : root.isStraight (·.blocks.isEmpty)) :
    documentPieces (context.withFold true) root =
      List.zipWith Site.folded (documentSites (context.withFold false) root)
        (documentPieces (context.withFold false) root) := by
  have same : documentSites (context.withFold true) root = documentSites (context.withFold false) root := rfl
  have bare : ∀ site ∈ documentSites (context.withFold false) root, site.isBare :=
    List.all_eq_true.mp (bare_rendering _ root _ straight)
  rw [documentPieces, documentPieces, same, List.zipWith_map_right, List.zipWith_self]
  exact List.map_congr_left fun site member => Site.piece_withFold context (bare site member)

/-- Making known values text is a substitution in the operands: each one whose site shows known
values becomes their text, and nothing else is moved, added or lost. Templates compile with it
exactly when they compile without. -/
theorem folding_is_substitution {context : Context} {root : Node} {fold : Bool} {output : Output}
    (straight : root.isStraight (·.blocks.isEmpty)) (compiled : compile (context.withFold fold) root = .ok output) :
    ∃ plain folded, emitNode (context.withFold false) root (.initial context.options) = .ok plain ∧
      emitNode (context.withFold true) root (.initial context.options) = .ok folded ∧
      compile (context.withFold false) root = .ok ⟨plain.finished.source, plain.warnings⟩ ∧
      compile (context.withFold true) root = .ok ⟨folded.finished.source, folded.warnings⟩ ∧
      plain.draft = (documentPieces (context.withFold false) root).foldl Nim.Draft.put .empty ∧
      plain.finished = Nim.oneStatement (Nim.condensed (documentPieces (context.withFold false) root)) ∧
      folded.finished = Nim.oneStatement (Nim.condensed
        (List.zipWith Site.folded (documentSites (context.withFold false) root)
          (documentPieces (context.withFold false) root))) := by
  obtain ⟨state, emitted, _⟩ := compile_eq_ok compiled
  obtain ⟨step, planned, _⟩ := planned_of_emitted emitted
  -- One plan serves both choices, so both walks succeed when one does.
  have emits : ∀ choice, emitNode (context.withFold choice) root (.initial context.options) =
      .ok (step.run (context.withFold choice) (.initial context.options)) := by
    intro choice
    rw [planNode_withFold] at planned
    rw [emitNode_follows, planNode_withFold]
    exact congrArg _ planned
  have compiles : ∀ choice, compile (context.withFold choice) root =
      .ok ⟨(step.run (context.withFold choice) (.initial context.options)).finished.source,
        (step.run (context.withFold choice) (.initial context.options)).warnings⟩ := by
    intro choice
    have known := emits choice
    rw [compile, show State.initial (context.withFold choice).options = .initial context.options from rfl, known]
    rfl
  refine ⟨_, _, emits false, emits true, compiles false, compiles true, ?_, ?_, ?_⟩
  · exact (draft_straight straight (emits false)).1
  · exact finished_straight straight (emits false)
  · rw [finished_straight straight (emits true), documentPieces_withFold context straight]

/-- A paragraph with known values, one of them empty, and with values only known when rendering. -/
def noteTemplate : Node :=
  .tag { name := "p", attributes := ⟨[⟨"id", "'x'", true⟩, ⟨"class", "'a'", true⟩, ⟨"class", "kind", true⟩], []⟩,
         block := { nodes := [.text "#\x7b'b'\x7d#\x7bname\x7d#\x7b''\x7d" {}, .text "!" {}] } }

theorem note_is_folded :
    ∃ plain folded, emitNode ⟨{ fold := false }, .none⟩ noteTemplate (.initial {}) = .ok plain ∧
      emitNode ⟨{ fold := true }, .none⟩ noteTemplate (.initial {}) = .ok folded ∧
      plain.finished = Nim.oneStatement [.text "<p", .expr "jade.attr(\"id\", \"x\", true, false)",
        .expr "jade.cls([\"a\", kind], [true, true])", .text ">", .expr "jade.escape($(\"b\"))",
        .expr "jade.escape($(name))", .expr "jade.escape($(\"\"))", .text "\n!</p>"] ∧
      folded.finished = Nim.oneStatement [.text "<p id=\"x\"", .expr "jade.cls([\"a\", kind], [true, true])",
        .text ">b", .expr "jade.escape($(name))", .text "\n!</p>"] := by
  have planned : (planNode ⟨{}, .none⟩ noteTemplate (.initial {})).toOption.isSome := by decide +kernel
  obtain ⟨step, planned⟩ := Option.isSome_iff_exists.mp planned
  obtain ⟨output, compiled⟩ := compiled_of_planned (eq_ok_of_toOption planned)
  obtain ⟨plain, folded, emitsPlain, emitsFolded, -, -, -, finishedPlain, finishedFolded⟩ :=
    @folding_is_substitution ⟨{}, .none⟩ noteTemplate true output (by decide) compiled
  have sites : documentSites ⟨{ fold := false }, .none⟩ noteTemplate =
      [.text "<", .text "p", .attr ⟨"id", "'x'", true⟩ false,
        .classes [⟨"class", "'a'", true⟩, ⟨"class", "kind", true⟩] {}, .text ">", .value "'b'" "\"b\"" true,
        .value "name" "name" true, .value "''" "\"\"" true, .text "\n", .text "!", .text "</", .text "p", .text ">"] := by
    decide +kernel
  have pieces : documentPieces ⟨{ fold := false }, .none⟩ noteTemplate =
      [.text "<", .text "p", .expr "jade.attr(\"id\", \"x\", true, false)",
        .expr "jade.cls([\"a\", kind], [true, true])", .text ">", .expr "jade.escape($(\"b\"))",
        .expr "jade.escape($(name))", .expr "jade.escape($(\"\"))", .text "\n", .text "!", .text "</", .text "p",
        .text ">"] := by
    rw [documentPieces, sites]
    decide
  refine ⟨plain, folded, emitsPlain, emitsFolded, ?_, ?_⟩
  · refine finishedPlain.trans (congrArg Nim.oneStatement ?_)
    exact (congrArg Nim.condensed pieces).trans (by decide)
  · refine finishedFolded.trans (congrArg Nim.oneStatement ?_)
    have x : constant? "'x'" = some (.text "x") := constant?_of_text (eq_ok_of_toOption (by decide +kernel))
    have b : constant? "'b'" = some (.text "b") := constant?_of_text (eq_ok_of_toOption (by decide +kernel))
    have empty : constant? "''" = some (.text "") := constant?_of_text (eq_ok_of_toOption (by decide +kernel))
    have lexed : Token.all "name".toList = .ok [.name "name"] := eq_ok_of_toOption (by decide +kernel)
    have name : constant? "name" = none := constant?_of_name lexed (by decide) (by decide)
    have lexed : Token.all "kind".toList = .ok [.name "kind"] := eq_ok_of_toOption (by decide +kernel)
    have kind : constant? "kind" = none := constant?_of_name lexed (by decide) (by decide)
    have classes : ["'a'", "kind"].mapM constant? = none := by
      rw [List.mapM_cons, List.mapM_cons, kind]
      cases constant? "'a'" <;> rfl
    change Nim.condensed (List.zipWith Site.folded (documentSites ⟨{ fold := false }, .none⟩ noteTemplate)
      (documentPieces ⟨{ fold := false }, .none⟩ noteTemplate)) = _
    rw [sites, pieces]
    simp only [List.zipWith_cons_cons, List.zipWith_nil_left, List.map_cons, List.map_nil, Site.folded, Site.text?,
      x, b, empty, name, classes]
    decide

end NimTemplate.Compile
