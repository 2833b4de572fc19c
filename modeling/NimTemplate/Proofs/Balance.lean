import NimTemplate.Proofs.Constancy
import NimTemplate.Proofs.Events

/-! The walk keeps its balance. Levels are left only where they were entered, also in walks that
fail, and behind a node the level is the one before it. Lines are added behind those that are
there; of these only the last can change, if it is an open statement, and then only at its end. -/

namespace NimTemplate.Nim

/-- The operands of a statement that went on: its last text may have become longer, and others
may follow. -/
inductive Continues (before : List Piece) : List Piece → Prop where
  | more (rest : List Piece) : Continues before (before ++ rest)
  | longer {first : List Piece} {content : String} (ends : before = first ++ [.text content]) (added : String)
      (rest : List Piece) : Continues before (first ++ .text (content ++ added) :: rest)

theorem Continues.cons {before after : List Piece} (continues : Continues before after) (first : Piece) :
    Continues (first :: before) (first :: after) := by
  cases continues with
  | more rest => exact .more rest
  | longer ends added rest =>
    rw [← List.cons_append]
    exact .longer (by rw [ends, List.cons_append]) added rest

theorem Continues.trans {first second third : List Piece} (here : Continues first second)
    (later : Continues second third) : Continues first third := by
  cases later with
  | more rest =>
    cases here with
    | more early =>
      rw [List.append_assoc]
      exact .more _
    | longer ends added early =>
      rw [List.append_assoc, List.cons_append]
      exact .longer ends added _
  | @longer start content ends added rest =>
    -- The text that becomes longer is the last one so far: the old last, or one that was added.
    cases here with
    | more early =>
      rcases List.eq_nil_or_concat early with rfl | ⟨others, last, rfl⟩
      · rw [List.append_nil] at ends
        exact .longer ends added rest
      · rw [List.concat_eq_append, ← List.append_assoc] at ends
        obtain ⟨rfl, _⟩ := List.append_inj' ends rfl
        rw [List.append_assoc]
        exact .more _
    | @longer kept old same extra early =>
      rcases List.eq_nil_or_concat early with rfl | ⟨others, last, rfl⟩
      · obtain ⟨rfl, rfl⟩ : kept = start ∧ old ++ extra = content := by simpa using ends
        rw [String.append_assoc]
        exact .longer same _ rest
      · rw [List.concat_eq_append, ← List.cons_append, ← List.append_assoc] at ends
        obtain ⟨rfl, _⟩ := List.append_inj' ends rfl
        rw [List.append_assoc, List.cons_append]
        exact .longer same extra _

theorem addPiece_continues (pieces : List Piece) (piece : Piece) : Continues pieces (addPiece pieces piece) := by
  fun_induction addPiece pieces piece with
  | case1 piece => exact .more [piece]
  | case2 content more => exact @Continues.longer _ [] content rfl more []
  | case3 first rest piece _ ih => exact ih.cons first

/-- Joining more operands only goes on with those that are joined. -/
theorem joinTexts_continues (pieces more : List Piece) : Continues (joinTexts pieces) (joinTexts (pieces ++ more)) := by
  induction more generalizing pieces with
  | nil =>
    have same := @Continues.more (joinTexts pieces) []
    rwa [List.append_nil] at same ⊢
  | cons piece more ih =>
    have step := addPiece_continues (joinTexts pieces) piece
    rw [addPiece_joinTexts] at step
    have rest := ih (pieces ++ [piece])
    rw [List.append_assoc, List.singleton_append] at rest
    exact step.trans rest

/-- The lines of one draft behind those of another, at its level or deeper. All lines are kept,
or all but the last: that one may go on if it is an open statement at one of the given levels. -/
inductive Continued (mayGoOn : Nat → Prop) (before after : Draft) : Prop where
  | kept {added : List String} (lines : after.lines = before.lines ++ added)
      (deep : ∀ line ∈ added, line = "" ∨ (indentation before.level).toList <+: line.toList)
  | extended {earlier added : List String} {statement : Append} {pieces : List Piece}
      (last : before.last = some statement) (level : mayGoOn statement.level)
      (continues : Continues statement.pieces pieces) (here : before.lines = earlier ++ [statement.line])
      (lines : after.lines = earlier ++ { statement with pieces }.line :: added)
      (deep : ∀ line ∈ added, line = "" ∨ (indentation before.level).toList <+: line.toList)

/-- The operands that go on with a run are those up to the first entry that shares no line with it. -/
private theorem split_run (level : Nat) (entries : List Entry) :
    ∃ (more : List Piece) (others : List Entry), entries = more.map (.append level) ++ others ∧
      ∀ piece, ∀ next ∈ others.head?, Entry.shares (.append level piece) next = false := by
  induction entries with
  | nil => exact ⟨[], [], rfl, by simp⟩
  | cons entry entries ih =>
    by_cases joins : ∃ piece, entry = .append level piece
    · obtain ⟨piece, rfl⟩ := joins
      obtain ⟨more, others, rfl, apart⟩ := ih
      exact ⟨piece :: more, others, rfl, apart⟩
    · refine ⟨[], entry :: entries, rfl, ?_⟩
      rintro piece next ⟨⟩
      cases entry with
      | line content => rfl
      | append other operand =>
        have different : level ≠ other := by
          rintro rfl
          exact joins ⟨operand, rfl⟩
        simpa [Entry.shares] using different

theorem Fills.continued {before after : Draft} {entries run : List Entry} (filled : Fills before entries after)
    (holds : Holds before run) : Continued (before.level ≤ ·) before after := by
  have shown := filled.lines holds
  cases holds with
  | closed last => exact .kept (filled.lines_of_closed last) (linesOf_within filled.within)
  | @opened level first rest last =>
    obtain ⟨more, others, rfl, apart⟩ := split_run level entries
    have deep : ∀ line ∈ linesOf others, line = "" ∨ (indentation before.level).toList <+: line.toList :=
      linesOf_within fun entry member => filled.within entry (List.mem_append_right _ member)
    have here : before.lines = before.finished.toList ++ [(⟨level, joinTexts (first :: rest), false⟩ : Append).line] := by
      simp [Draft.lines, last]
    have joined : after.lines = before.finished.toList ++
        (⟨level, joinTexts (first :: rest ++ more), false⟩ : Append).line :: linesOf others := by
      rw [shown, ← List.append_assoc, ← List.map_append, linesOf_append, List.cons_append, linesOf_run]
      · rfl
      · intro end_ member next head
        obtain ⟨piece, _, rfl⟩ := List.mem_map.mp (List.mem_of_mem_getLast? member)
        exact apart piece next head
    cases more with
    | nil =>
      refine .kept ?_ deep
      rw [joined, here, List.append_nil, List.append_assoc]
      rfl
    | cons piece more =>
      have level : before.level ≤ level := filled.within (.append level piece) (by simp)
      exact .extended last level (joinTexts_continues _ _) here joined deep

/-- The levels start at one, and the open statement is as operands leave it. -/
structure Draft.IsSound (draft : Draft) : Prop where
  deep : 1 ≤ draft.level
  holds : ∃ run, Holds draft run

namespace Draft.IsSound

theorem empty : Draft.empty.IsSound := ⟨Nat.le_refl 1, [], .closed rfl⟩

theorem fills {before after : Draft} {entries : List Entry} (sound : before.IsSound) (filled : Fills before entries after) :
    after.IsSound := by
  obtain ⟨run, holds⟩ := sound.holds
  obtain ⟨next, kept, _⟩ := filled.shown holds
  exact ⟨by rw [filled.level]; exact sound.deep, next, kept⟩

theorem indent {draft : Draft} (sound : draft.IsSound) : draft.indent.IsSound := by
  obtain ⟨run, holds⟩ := sound.holds
  exact ⟨Nat.le_succ_of_le sound.deep, run, holds.of_same rfl⟩

theorem dedent {draft : Draft} (sound : draft.IsSound) : draft.dedent.IsSound := by
  obtain ⟨run, holds⟩ := sound.holds
  exact ⟨Nat.le_max_right _ _, run, holds.of_same rfl⟩

theorem line {draft : Draft} (sound : draft.IsSound) (statement : String) : (draft.pushLine statement).IsSound :=
  sound.fills (.line draft statement)

theorem blank {draft : Draft} (sound : draft.IsSound) : draft.pushBlank.IsSound := sound.fills (.blank draft)

theorem operation {draft : Draft} (sound : draft.IsSound) (operation : Operation) : (operation.apply draft).IsSound := by
  obtain ⟨run, holds⟩ := sound.holds
  obtain ⟨next, kept, _⟩ := holds.step operation
  refine ⟨?_, next, kept⟩
  rw [level_apply]
  cases operation with
  | indent => exact Nat.le_add_left 1 _
  | dedent => exact Nat.le_max_right _ _
  | line | blank | text | expr => exact sound.deep

end Draft.IsSound

theorem Proceeds.isSound {before after : Draft} (proceeds : Proceeds before after) (sound : before.IsSound) :
    after.IsSound := by
  obtain ⟨entries, filled, _⟩ := proceeds
  exact sound.fills filled

end NimTemplate.Nim

namespace NimTemplate.Compile

open Nim (Entry Fills Proceeds)

/-- The states of compilations. Some compilation comes to a node or leaves a level in them, or is
on its way from there, whatever the operations on the code are. -/
inductive Reached (context : Context) : State → Prop where
  | event {root : Node} {event : Event} (happens : event ∈ nodeEvents context root (.initial context.options)) :
      Reached context event.state
  | between {state after : State} (operation : Nim.Operation) (reached : Reached context state)
      (same : after.draft = operation.apply state.draft) : Reached context after

/-! Every state of a walk is sound, and the levels it leaves are not the first. -/

def Event.IsSafe : Event → Prop
  | visit _ state => state.draft.IsSound
  | dedent state => state.draft.IsSound ∧ 1 < state.draft.level

def AllSafe (events : List Event) : Prop := ∀ event ∈ events, event.IsSafe

theorem AllSafe.nil : AllSafe [] := by
  intro event member
  cases member

theorem AllSafe.append {first rest : List Event} (before : AllSafe first) (behind : AllSafe rest) :
    AllSafe (first ++ rest) := by
  intro event member
  rcases List.mem_append.mp member with here | later
  · exact before event here
  · exact behind event later

theorem AllSafe.cons {event : Event} {rest : List Event} (here : event.IsSafe) (behind : AllSafe rest) :
    AllSafe (event :: rest) := by
  intro other member
  rcases List.mem_cons.mp member with rfl | later
  · exact here
  · exact behind other later

theorem AllSafe.onward {result : Except Error State} {next : State → List Event}
    (safe : ∀ done, result = .ok done → AllSafe (next done)) : AllSafe (Compile.onward result next) := by
  cases result with
  | error error => exact .nil
  | ok done => exact safe done rfl

/-- A level that was entered in a sound state can be left. -/
theorem dedent_safe {outer inner : State} {entries : List Entry} (sound : outer.draft.IsSound)
    (filled : Fills outer.indent.draft entries inner.draft) : (Event.dedent inner).IsSafe := by
  have level : outer.indent.draft.level = outer.draft.level + 1 := rfl
  have deep := sound.deep
  refine ⟨sound.indent.fills filled, ?_⟩
  rw [filled.level, level]
  omega

theorem bodyEvents_safe {state : State} {content : State → Except Error State} {inside : State → List Event}
    (sound : state.draft.IsSound)
    (within : ∀ {done}, content state.indent = .ok done → Proceeds state.indent.draft done.draft)
    (safe : ∀ {state : State}, state.draft.IsSound → AllSafe (inside state)) :
    AllSafe (state.bodyEvents content inside) := by
  refine (safe sound.indent).append (.onward fun done emitted => .cons ?_ .nil)
  obtain ⟨entries, filled, _⟩ := within emitted
  rw [State.filled]
  split
  · exact dedent_safe sound (filled.trans (.line done.draft "discard"))
  · exact dedent_safe sound filled

/-- The same for what is in a body. -/
private theorem nodesBody_safe {context : Context} {nodes : List Node} {state : State} (sound : state.draft.IsSound)
    (safe : ∀ {state : State}, state.draft.IsSound → AllSafe (nodesEvents context nodes state)) :
    AllSafe (state.bodyEvents (emitNodes context nodes) (nodesEvents context nodes)) :=
  bodyEvents_safe sound (emitNodes_proceeds sound.indent.deep) safe

private theorem emptyBody_safe {state : State} (sound : state.draft.IsSound) :
    AllSafe (state.bodyEvents pure fun _ => []) := by
  refine bodyEvents_safe sound ?_ fun _ => .nil
  rintro done ⟨⟩
  exact .refl _

private theorem tag_safe (context : Context) (tag : Tag Node) {state : State} (sound : state.draft.IsSound)
    (first : ∀ {code : Code Node} {state : State}, tag.code = some code → state.draft.IsSound →
      AllSafe (codeEvents context code state))
    (content : ∀ {state : State}, state.draft.IsSound → AllSafe (nodesEvents context tag.block.nodes state)) :
    AllSafe (nodeEvents context (.tag tag) state) := by
  have started := (startTag_proceeds state context tag sound.deep).trans (text_proceeds _ ">")
  obtain ⟨name, attributes, ⟨nodes, place⟩, code, selfClosing, computed, location⟩ := tag
  rw [nodeEvents]
  refine .cons sound ?_
  split
  · exact .nil
  · cases code with
    | none => exact content (started.isSound sound)
    | some code =>
      refine (first rfl (started.isSound sound)).append (.onward fun done emitted => content ?_)
      exact (emitCode_proceeds (started.deep sound.deep) emitted).isSound (started.isSound sound)

private theorem each_safe (context : Context) (each : Each Node) {state : State} (sound : state.draft.IsSound)
    (content : ∀ {state : State}, state.draft.IsSound → AllSafe (nodesEvents context each.block.nodes state))
    (others : ∀ {block : Block Node} {state : State}, each.alternative = some block → state.draft.IsSound →
      AllSafe (nodesEvents context block.nodes state)) :
    AllSafe (nodeEvents context (.each each) state) := by
  obtain ⟨collection, item, key, ⟨nodes, place⟩, alternative, location⟩ := each
  have noted := sound.line ("# iterate " ++ Nim.normalizeQuotes collection)
  match alternative with
  | none =>
    rw [nodeEvents]
    exact .cons sound (nodesBody_safe (noted.line _) content)
  | some ⟨otherwise, elsewhere⟩ =>
    rw [nodeEvents]
    -- The loop stands in a condition, whose level is left by hand behind the loop.
    have condition := noted.line ("if " ++ Nim.normalizeQuotes collection ++ ".len > 0:")
    have loop := condition.indent.line
    refine .cons sound ((nodesBody_safe (loop _) content).append (.onward fun done emitted => ?_))
    obtain ⟨entries, filled, _⟩ := body_proceeds (loop _).deep (emitNodes_proceeds (Nat.le_add_left 1 _)) emitted
    have ended := (Fills.line _ _).trans (filled.trans (.blank done.draft))
    refine .cons (dedent_safe condition ended) (nodesBody_safe ?_ (others rfl))
    exact (condition.indent.fills ended).dedent.line "else:"

private theorem branch_safe (context : Context) (branch : Branch Node) (rest : List Node) (labels : List String)
    (hasDefault : Bool) {state : State} (sound : state.draft.IsSound)
    (content : ∀ {state : State}, state.draft.IsSound → AllSafe (blockEvents context branch.block state))
    (later : ∀ labels hasDefault {state : State}, state.draft.IsSound →
      AllSafe (branchesEvents context rest labels hasDefault state)) :
    AllSafe (branchesEvents context (.branch branch :: rest) labels hasDefault state) := by
  obtain ⟨label, block, location⟩ := branch
  have ends : ∀ {head : String} {done : State}, emitBody context block (state.line head) = .ok done →
      done.blank.draft.IsSound :=
    fun emitted => ((emitBody_proceeds (sound.line _).deep emitted).isSound (sound.line _)).blank
  rw [branchesEvents]
  split
  · exact (content (sound.line _)).append (.onward fun done emitted => later _ _ (ends emitted))
  · cases block with
    | none => exact later _ _ sound
    | some block => exact (content (sound.line _)).append (.onward fun done emitted => later _ _ (ends emitted))

private theorem other_safe (context : Context) (node : Node) (rest : List Node) (labels : List String)
    (hasDefault : Bool) {state : State} (sound : state.draft.IsSound) (other : ∀ branch, node ≠ .branch branch)
    (here : AllSafe (nodeEvents context node state))
    (later : ∀ {state : State}, state.draft.IsSound → AllSafe (branchesEvents context rest labels hasDefault state)) :
    AllSafe (branchesEvents context (node :: rest) labels hasDefault state) := by
  have skipped : ∀ label block location, node = .branch ⟨label, block, location⟩ → False :=
    fun _ _ _ same => other _ same
  rw [branchesEvents.eq_3 _ _ _ _ _ _ skipped]
  exact here.append (.onward fun done emitted => later ((emitNode_proceeds sound.deep emitted).isSound sound))

mutual

theorem nodeEvents_safe (context : Context) (node : Node) {state : State} (sound : state.draft.IsSound) :
    AllSafe (nodeEvents context node state) := by
  match node with
  | .block ⟨nodes, place⟩ =>
    rw [nodeEvents]
    exact .cons sound (nodesEvents_safe context nodes sound)
  | .tag ⟨name, attributes, ⟨nodes, place⟩, none, selfClosing, computed, location⟩ =>
    exact tag_safe context _ sound nofun (nodesEvents_safe context nodes)
  | .tag ⟨name, attributes, ⟨nodes, place⟩, some code, selfClosing, computed, location⟩ =>
    refine tag_safe context _ sound ?_ (nodesEvents_safe context nodes)
    rintro _ state ⟨⟩ sound
    exact codeEvents_safe context code sound
  | .code code =>
    rw [nodeEvents]
    exact .cons sound (codeEvents_safe context code sound)
  | .each ⟨collection, item, key, ⟨nodes, place⟩, none, location⟩ =>
    exact each_safe context _ sound (nodesEvents_safe context nodes) nofun
  | .each ⟨collection, item, key, ⟨nodes, place⟩, some ⟨others, elsewhere⟩, location⟩ =>
    refine each_safe context _ sound (nodesEvents_safe context nodes) ?_
    rintro _ state ⟨⟩ sound
    exact nodesEvents_safe context others sound
  | .selection ⟨subject, ⟨nodes, place⟩, location⟩ =>
    rw [nodeEvents]
    exact .cons sound (branchesEvents_safe context nodes [] false (sound.line _))
  | .branch ⟨label, block, location⟩ =>
    rw [nodeEvents]
    exact .cons sound (blockEvents_safe context block (sound.line _))
  | .mixin ⟨name, parameters, block, attributes, call, location⟩ =>
    rw [nodeEvents]
    refine .cons sound ?_
    split
    next resolved named =>
      have entered := enterMixin_proceeds state context ⟨name, parameters, block, attributes, call, location⟩ sound.deep
      rw [State.enterMixin, resolvedName, named] at entered
      exact blockEvents_safe context block (entered.isSound sound)
    next => exact .nil
  | .blockComment ⟨content, ⟨nodes, place⟩, buffered, location⟩ =>
    rw [nodeEvents]
    refine .cons sound ?_
    split
    · exact nodesEvents_safe context nodes ((text_proceeds state _).isSound sound)
    · exact .nil
  | .text _ _ | .mixinBlock _ | .doctype _ _ | .comment _ _ _ | .filter _ | .literal _ _ =>
    rw [nodeEvents]
    exact .cons sound .nil
termination_by structural node

theorem nodesEvents_safe (context : Context) (nodes : List Node) {state : State} (sound : state.draft.IsSound) :
    AllSafe (nodesEvents context nodes state) := by
  match nodes with
  | [] => exact .nil
  | node :: rest =>
    rw [nodesEvents]
    refine (nodeEvents_safe context node sound).append (.onward fun done emitted => ?_)
    have behind := (emitNode_proceeds sound.deep emitted).isSound sound
    split
    · exact nodesEvents_safe context rest ((text_proceeds done "\n").isSound behind)
    · exact nodesEvents_safe context rest behind
termination_by structural nodes

theorem codeEvents_safe (context : Context) (code : Code Node) {state : State} (sound : state.draft.IsSound) :
    AllSafe (codeEvents context code state) := by
  have shown : (state.code context code).draft.IsSound := (code_proceeds state context code sound.deep).isSound sound
  match code with
  | ⟨source, buffered, escaped, none, location⟩ => exact .nil
  | ⟨source, true, escaped, some ⟨nodes, place⟩, location⟩ =>
    refine AllSafe.append (nodesEvents_safe context nodes shown.indent) (.onward fun done emitted => ?_)
    obtain ⟨entries, filled, _⟩ := emitNodes_proceeds shown.indent.deep emitted
    exact .cons (dedent_safe shown filled) .nil
  | ⟨source, false, escaped, some ⟨nodes, place⟩, location⟩ =>
    exact nodesBody_safe shown (nodesEvents_safe context nodes)
termination_by structural code

theorem blockEvents_safe (context : Context) (block : Option (Block Node)) {state : State} (sound : state.draft.IsSound) :
    AllSafe (blockEvents context block state) := by
  match block with
  | none => exact emptyBody_safe sound
  | some ⟨nodes, place⟩ => exact nodesBody_safe sound (nodesEvents_safe context nodes)
termination_by structural block

theorem branchesEvents_safe (context : Context) (nodes : List Node) (labels : List String) (hasDefault : Bool)
    {state : State} (sound : state.draft.IsSound) : AllSafe (branchesEvents context nodes labels hasDefault state) := by
  match nodes with
  | [] =>
    rw [branchesEvents]
    split
    · exact .nil
    · exact emptyBody_safe (sound.line _)
  | node :: rest =>
    have here := nodeEvents_safe context node sound
    have later := fun labels hasDefault {state : State} (sound : state.draft.IsSound) =>
      branchesEvents_safe context rest labels hasDefault sound
    cases node with
    | branch branch =>
      obtain ⟨label, block, location⟩ := branch
      exact branch_safe context _ rest labels hasDefault sound (blockEvents_safe context block) later
    | _ => exact other_safe context _ rest labels hasDefault sound (by simp) here (later labels hasDefault)
termination_by structural nodes

end

theorem Reached.isSound {context : Context} {state : State} (reached : Reached context state) : state.draft.IsSound := by
  induction reached with
  | @event root event happens =>
    have safe := nodeEvents_safe context root Nim.Draft.IsSound.empty event happens
    cases event with
    | visit node state => exact safe
    | dedent state => exact safe.1
  | between operation _ same sound =>
    rw [same]
    exact sound.operation operation

/-- In every state that a walk reaches, and for every node: all levels left in the node are
deeper than the first. If the node is put out, these are the levels that the operations on the draft
leave, the level is the same behind the node, and the lines go on from those before it. An open
statement can go on only at the current level or, where the code of a line above was nested, at a
deeper one. -/
theorem walk_is_balanced (context : Context) (node : Node) {state : State} (reached : Reached context state) :
    (∀ inner, .dedent inner ∈ nodeEvents context node state → 1 < inner.draft.level) ∧
      ∀ after, emitNode context node state = .ok after →
        (∃ step, planNode context node state.mode = .ok step ∧
          after.draft = (step.operations context state).foldl Nim.Operation.apply state.draft ∧
          (nodeEvents context node state).filterMap Event.left? =
            Nim.leavings state.draft (step.operations context state)) ∧
        after.draft.level = state.draft.level ∧
          Nim.Continued (state.draft.level ≤ ·) state.draft after.draft := by
  have sound := reached.isSound
  constructor
  · intro inner member
    exact (nodeEvents_safe context node sound _ member).2
  · intro after emitted
    obtain ⟨entries, filled, _⟩ := emitNode_proceeds sound.deep emitted
    obtain ⟨run, holds⟩ := sound.holds
    obtain ⟨step, planned, rfl⟩ := planned_of_emitted emitted
    refine ⟨⟨step, planned, draft_run context step state, ?_⟩, filled.level, filled.continued holds⟩
    rw [nodeEvents_of_planned node state planned, left_events]

/-- Code that shows nothing itself, with text nested below it. -/
def emptyCode (content : String) : Code Node where
  source := "''"
  buffered := true
  escaped := false
  block := some { nodes := [.text content {}] }

def nestedCode (content : String) : Node := .code (emptyCode content)

def nestedPair : Node := .block { nodes := [nestedCode "a", nestedCode "b"] }

/-- Back at the first level, with a statement still open at the second. -/
def nestedState (content : String) : State :=
  { State.initial {} with draft := ⟨#[], some ⟨2, [.text content], false⟩, 1⟩ }

private theorem emitNode_nested :
    emitNode ⟨{}, .none⟩ (nestedCode "a") (.initial {}) = .ok (nestedState "a") ∧
      emitNode ⟨{}, .none⟩ (nestedCode "b") (nestedState "a") = .ok (nestedState "ab") := by
  have lexed : Token.all (expressionOf "''").toList = .ok [.text ""] := eq_ok_of_toOption (by decide +kernel)
  have known : (⟨{}, .none⟩ : Context).known? (expressionOf "''") = some (.text "") := constant?_of_text lexed
  have silent : ∀ content (state : State), state.code ⟨{}, .none⟩ (emptyCode content) = state := by
    intro content state
    change state.value _ (expressionOf "''") (Nim.statement "''") false = state
    rw [State.value, known]
    rfl
  have steps : ∀ content state, emitNode ⟨{}, .none⟩ (nestedCode content) state =
      (emitNodes ⟨{}, .none⟩ [.text content {}] state.indent >>= fun inside => pure inside.dedent) := by
    intro content state
    have unfolded : emitNode ⟨{}, .none⟩ (nestedCode content) state =
        (emitNodes ⟨{}, .none⟩ [.text content {}] (state.code ⟨{}, .none⟩ (emptyCode content)).indent >>=
          fun inside => pure inside.dedent) := rfl
    rw [unfolded, silent]
  rw [steps, steps]
  exact ⟨eq_ok_of_toOption (by decide +kernel), eq_ok_of_toOption (by decide +kernel)⟩

private theorem nestedPair_visits :
    .visit (nestedCode "b") (nestedState "a") ∈ nodeEvents ⟨{}, .none⟩ nestedPair (.initial {}) := by
  have behind : ∀ rest, .visit (nestedCode "b") (nestedState "a") ∈
      nodesEvents ⟨{}, .none⟩ (nestedCode "b" :: rest) (nestedState "a") := by
    intro rest
    exact List.mem_append_left _ List.mem_cons_self
  rw [nestedPair, nodeEvents, nodesEvents, emitNode_nested.1]
  exact List.mem_cons_of_mem _ (List.mem_append_right _ (behind []))

theorem nested_code_is_balanced :
    Reached ⟨{}, .none⟩ (nestedState "a") ∧
      (∀ inner, .dedent inner ∈ nodeEvents ⟨{}, .none⟩ (nestedCode "b") (nestedState "a") → 1 < inner.draft.level) ∧
      emitNode ⟨{}, .none⟩ (nestedCode "b") (nestedState "a") = .ok (nestedState "ab") ∧
      Nim.Continued (1 ≤ ·) (nestedState "a").draft (nestedState "ab").draft := by
  have reached : Reached ⟨{}, .none⟩ (nestedState "a") := .event nestedPair_visits
  obtain ⟨levels, behind⟩ := walk_is_balanced ⟨{}, .none⟩ (nestedCode "b") reached
  exact ⟨reached, levels, emitNode_nested.2, (behind _ emitNode_nested.2).2.2⟩

/-- The open statement need not be at the level of the node: one that is nested below another
goes on with a statement that was nested below the one before. -/
theorem nested_statement_goes_on :
    .visit (nestedCode "b") (nestedState "a") ∈ nodeEvents ⟨{}, .none⟩ nestedPair (.initial {}) ∧
      emitNode ⟨{}, .none⟩ (nestedCode "b") (nestedState "a") = .ok (nestedState "ab") ∧
      ¬ Nim.Continued (· = (nestedState "a").draft.level) (nestedState "a").draft (nestedState "ab").draft := by
  refine ⟨nestedPair_visits, emitNode_nested.2, fun continued => ?_⟩
  cases continued with
  | kept lines =>
    have first : (nestedState "ab").draft.lines.head? = (nestedState "a").draft.lines.head? := by
      rw [lines]
      rfl
    exact absurd first (by decide)
  | extended last level =>
    cases last
    exact absurd level (by decide)

end NimTemplate.Compile
