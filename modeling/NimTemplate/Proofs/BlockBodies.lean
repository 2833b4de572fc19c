import Mathlib.Data.List.GetD
import NimTemplate.Proofs.Filling
import NimTemplate.Proofs.UnusedMixins

/-! Heads and the bodies below them. When a body is put out it has a line, and all its lines are
deeper than its head. Definitions that nothing calls are emptied later, and a body that holds
nothing else is then as good as empty: its head stays without a body. -/

namespace NimTemplate.Nim

/-- The lines below a head, up to one that shows something at the depth of the head or less. -/
def below (lines : List String) (head : Nat) : List String :=
  (lines.drop (head + 1)).takeWhile fun line =>
    isBlankLine line || decide (depth (lines.getD head "") < depth line)

def hasBody (lines : List String) (head : Nat) : Bool := (below lines head).any fun line => !isBlankLine line

theorem hasBody_of_span {lines : List String} {head stop index : Nat}
    (deeper : ∀ index, head < index → index < stop →
      isBlankLine (lines.getD index "") ∨ depth (lines.getD head "") < depth (lines.getD index ""))
    (behind : head < index) (inside : index < stop) (shown : isBlankLine (lines.getD index "") = false) :
    hasBody lines head := by
  have present : lines[index]? = some (lines.getD index "") := by
    rw [List.getD_eq_getElem?_getD] at shown ⊢
    cases found : lines[index]? with
    | some line => rfl
    | none =>
      rw [found] at shown
      cases shown
  let span := (lines.drop (head + 1)).take (stop - (head + 1))
  have within : ∀ line ∈ span,
      (isBlankLine line || decide (depth (lines.getD head "") < depth line)) = true := by
    intro line member
    obtain ⟨offset, here⟩ := List.mem_iff_getElem?.mp member
    rw [List.getElem?_take, List.getElem?_drop] at here
    split at here
    next short =>
      have place := deeper (head + 1 + offset) (by omega) (by omega)
      have found : lines.getD (head + 1 + offset) "" = line := by
        rw [List.getD_eq_getElem?_getD, here]
        rfl
      rw [found] at place
      simpa using place
    next => cases here
  have split := List.take_append_drop (stop - (head + 1)) (lines.drop (head + 1))
  unfold hasBody below
  rw [← split, List.takeWhile_append_of_pos within, List.any_append, Bool.or_eq_true]
  refine .inl (List.any_eq_true.mpr ⟨lines.getD index "", ?_, by rw [shown]; rfl⟩)
  apply List.mem_iff_getElem?.mpr
  refine ⟨index - (head + 1), ?_⟩
  rw [List.getElem?_take, List.getElem?_drop, if_pos (by omega), ← present]
  congr 1
  omega

end NimTemplate.Nim

namespace NimTemplate.Compile

open Nim (Proceeds)

/-- What stands below a head, from the state right behind the head to the one behind the body. -/
structure Body where
  before : State
  after : State

def Body.head (body : Body) : Nat := body.before.draft.size - 1

def Body.span (body : Body) : Nim.Span := ⟨body.before.draft.size, body.after.draft.size⟩

theorem Body.span_contains (body : Body) (index : Nat) :
    body.span.contains index ↔ body.before.draft.size ≤ index ∧ index < body.after.draft.size :=
  Nim.Span.contains_iff

mutual

def Step.bodies (context : Context) : Step → State → List Body
  | .body steps, state => ⟨state, (Step.body steps).run context state⟩ :: bodiesAll context steps state.indent
  | .mixin mixin steps, state =>
    let head := state.enterMixin context mixin
    ⟨head, head.endBody (runAll context steps head.indent)⟩ :: bodiesAll context steps head.indent
  | .nested steps, state => bodiesAll context steps state.indent
  | .visit _ steps, state => bodiesAll context steps state
  | _, _ => []

def bodiesAll (context : Context) : List Step → State → List Body
  | [], _ => []
  | step :: rest, state => step.bodies context state ++ bodiesAll context rest (step.run context state)

end

def bodiesOf (context : Context) (root : Node) : Except Error (List Body) :=
  (·.bodies context (.initial context.options)) <$> planNode context root (.initial context.options)

/-- A head on a line of its own, and below it lines that are all deeper, of which the first is
not empty. -/
structure Body.IsFilled (body : Body) : Prop where
  head : ∃ earlier statement, Nim.isFlush statement ∧
    body.before.draft.lines = earlier ++ [Nim.indentation body.before.draft.level ++ statement]
  lines : ∃ first rest, first ≠ "" ∧ body.after.draft.lines = body.before.draft.lines ++ first :: rest ∧
    ∀ line ∈ first :: rest, line = "" ∨ (Nim.indentation (body.before.draft.level + 1)).toList <+: line.toList

theorem isFilled_endBody {state inside : State} {head : String} (flush : Nim.isFlush head)
    (deep : 1 ≤ (state.line head).draft.level) (content : Proceeds (state.line head).draft.indent inside.draft) :
    Body.IsFilled ⟨state.line head, (state.line head).endBody inside⟩ := by
  obtain ⟨entries, filled, opens, within, some⟩ := endBody_fills deep content
  have closed : (state.line head).draft.last = none := Nim.Draft.last_push _ _
  obtain ⟨first, rest, same, full⟩ := opens.linesOf (some closed)
  refine ⟨⟨state.draft.lines, head, flush, ?_⟩, first, rest, full, ?_, ?_⟩
  · rw [show (state.line head).draft.level = state.draft.level from Nim.Draft.level_push _ _]
    exact Nim.Draft.lines_push _ _
  · rw [← same]
    exact filled.lines_of_closed closed
  · rw [← same]
    exact Nim.linesOf_within within

/-- A body that nothing can change any more. -/
structure Body.IsSettled (body : Body) (state : State) : Prop where
  filled : body.IsFilled
  kept : body.after.draft.lines <+: state.draft.finished.toList

theorem Body.IsSettled.grows {body : Body} {between after : State} (settled : body.IsSettled between)
    (grows : between.draft.Grows after.draft) : body.IsSettled after :=
  ⟨settled.filled, settled.kept.trans grows.kept⟩

/-- Behind the body of a mixin comes an empty line, unless the body is just filled up. -/
theorem mixinEnd_settles {state : State} {context : Context} {mixin : Mixin Node} {steps : List Step}
    (name : String) (start : Nat) (without : mixin.block = none → steps = []) :
    (state.endBody (runAll context steps state.indent)).draft.lines <+:
      ((state.endBody (runAll context steps state.indent)).mixinEnd mixin name start).draft.finished.toList := by
  unfold State.mixinEnd
  split
  · split
    · exact Nim.Draft.lines_prefix_push _ _
    next bare =>
      simp only [Bool.or_eq_true, not_or, Option.not_isSome_iff_eq_none] at bare
      rw [without bare.1]
      have same : (runAll context [] state.indent).draft.size = state.draft.size := rfl
      have discarded : (state.endBody (runAll context [] state.indent)).draft.last = none := by
        rw [State.endBody, if_pos same]
        change (state.indent.draft.pushLine "discard").last = none
        exact Nim.Draft.last_push _ _
      exact ⟨[], by rw [List.append_nil, Nim.Draft.lines_of_closed discarded]⟩
  · exact Nim.Draft.lines_prefix_push _ _

private theorem settled_within {context : Context} {steps : List Step} {head after : State} {body : Body}
    (member : body ∈ ⟨head, head.endBody (runAll context steps head.indent)⟩ :: bodiesAll context steps head.indent)
    (filled : Body.IsFilled ⟨head, head.endBody (runAll context steps head.indent)⟩)
    (inside : ∀ body ∈ bodiesAll context steps head.indent, body.IsSettled (runAll context steps head.indent))
    (kept : (head.endBody (runAll context steps head.indent)).draft.lines <+: after.draft.finished.toList)
    (grows : (head.endBody (runAll context steps head.indent)).draft.Grows after.draft) : body.IsSettled after := by
  rcases List.mem_cons.mp member with rfl | inner
  · exact ⟨filled, kept⟩
  · exact (inside body inner).grows ((grows_endBody _ _).trans grows)

private theorem mixin_bodies {context : Context} {mixin : Mixin Node} {steps : List Step} {state : State}
    (deep : 1 ≤ state.draft.level) (without : mixin.block = none → steps = [])
    (content : Proceeds (state.enterMixin context mixin).draft.indent
      (runAll context steps (state.enterMixin context mixin).indent).draft)
    (inside : ∀ body ∈ bodiesAll context steps (state.enterMixin context mixin).indent,
      body.IsSettled (runAll context steps (state.enterMixin context mixin).indent)) :
    ∀ body ∈ (Step.mixin mixin steps).bodies context state,
      body.IsSettled ((Step.mixin mixin steps).run context state) := by
  intro body member
  have started := (enterMixin_proceeds state context mixin deep).deep deep
  obtain ⟨called, same, _⟩ := enterMixin_eq state context mixin
  rw [Step.bodies] at member
  rw [Step.run]
  rw [same] at started content inside member ⊢
  exact settled_within member (isFilled_endBody (isFlush_mixinLine _ _) started content) inside
    (mixinEnd_settles _ _ without) (grows_mixinEnd _ _ _ _)

theorem Built.bodies (context : Context) {mode : Mode} {stops : List Stop} {steps : List Step}
    (built : Built mode stops steps) (state : State) (deep : 1 ≤ state.draft.level) :
    ∀ body ∈ bodiesAll context steps state, body.IsSettled (runAll context steps state) := by
  have onward : ∀ (steps : List Step) (state : State), state.draft.Grows (runAll context steps state).draft :=
    fun steps state => (runAll_walked context steps state).grows
  induction built generalizing state with
  | nil =>
    intro body member
    cases member
  | put site _ later => exact later (state.put context site) ((Proceeds.put _ _).deep deep)
  | line _ _ later => exact later (state.line _) ((Proceeds.line deep _).deep deep)
  | mode next _ later => exact later (state.inMode next) deep
  | @nested _ _ _ steps rest content _ inside later =>
    intro body member
    let ended := (runAll context steps state.indent).dedent
    have level := (content.proceeds context state.indent (Nat.le_add_left 1 _)).nested deep
    rcases List.mem_append.mp member with inner | others
    · have settled := inside state.indent (Nat.le_add_left 1 _) body inner
      exact settled.grows ((Nim.Draft.Grows.dedent _).trans (onward rest ended))
    · exact later ended (level.deep deep) body others
  | @block _ _ _ steps rest head flush content _ inside later =>
    intro body member
    let ended := (state.line head).endBody (runAll context steps (state.line head).indent)
    have started : Proceeds state.draft (state.line head).draft := .line deep head
    have filling := content.proceeds context (state.line head).indent (Nat.le_add_left 1 _)
    have level := (Built.block flush content .nil).proceeds context state deep
    have grows := onward rest ended.blank
    rcases List.mem_append.mp (show body ∈ _ ++ bodiesAll context rest ended.blank from member) with inner | others
    · refine settled_within inner (isFilled_endBody flush (started.deep deep) filling) ?_ ?_ ?_
      · exact inside (state.line head).indent (Nat.le_add_left 1 _)
      · exact (Nim.Draft.lines_prefix_push ended.draft "").trans grows.kept
      · exact (Nim.Draft.Grows.push ended.draft "").trans grows
    · exact later ended.blank (level.deep deep) body others
  | @mixin _ _ _ steps rest mixin without content _ inside later =>
    intro body member
    have level := (Built.mixin without content .nil).proceeds context state deep
    have filling := content.proceeds context (state.enterMixin context mixin).indent (Nat.le_add_left 1 _)
    have nested := inside (state.enterMixin context mixin).indent (Nat.le_add_left 1 _)
    rcases List.mem_append.mp member with inner | others
    · exact (mixin_bodies deep without filling nested body inner).grows (onward rest _)
    · exact later ((Step.mixin mixin steps).run context state) (level.deep deep) body others
  | @visit _ _ _ steps rest node content _ inside later =>
    intro body member
    have level := content.proceeds context state deep
    rcases List.mem_append.mp member with inner | others
    · exact (inside state deep body inner).grows (onward rest _)
    · exact later (runAll context steps state) (level.deep deep) body others

/-! The lines of a body among all lines of the code. -/

theorem Body.IsFilled.headLine {body : Body} (filled : body.IsFilled) {lines : List String}
    (kept : body.after.draft.lines <+: lines) :
    ∃ statement, Nim.isFlush statement ∧
      lines.getD body.head "" = Nim.indentation body.before.draft.level ++ statement := by
  obtain ⟨earlier, statement, flush, here⟩ := filled.head
  obtain ⟨first, rest, _, added, _⟩ := filled.lines
  obtain ⟨others, rfl⟩ := kept
  refine ⟨statement, flush, ?_⟩
  have place : body.head = earlier.length := by
    rw [Body.head, Nim.Draft.size_eq_length, here]
    simp
  rw [place, added, here]
  simp

theorem Body.IsFilled.bodyLine {body : Body} (filled : body.IsFilled) {lines : List String}
    (kept : body.after.draft.lines <+: lines) {index : Nat} (inside : body.span.contains index) :
    lines.getD index "" = "" ∨
      (Nim.indentation (body.before.draft.level + 1)).toList <+: (lines.getD index "").toList := by
  obtain ⟨first, rest, _, added, deep⟩ := filled.lines
  obtain ⟨others, rfl⟩ := kept
  rw [body.span_contains, Nim.Draft.size_eq_length, Nim.Draft.size_eq_length] at inside
  apply deep
  have offset : index - body.before.draft.lines.length < (first :: rest).length := by
    rw [added, List.length_append] at inside
    omega
  rw [added, List.append_assoc, List.getD_append_right _ _ _ _ inside.1, List.getD_append _ _ _ _ offset,
    List.getD_eq_getElem _ _ offset]
  exact List.getElem_mem offset

theorem getD_finished (state : State) (index : Nat) :
    state.finished.lines.getD index "" =
      if state.mixins.unused.any (·.contains index) then "" else state.draft.lines.getD index "" := by
  rw [state.lines_finished, List.getD_eq_getElem?_getD, List.getD_eq_getElem?_getD, List.getElem?_mapIdx]
  cases state.draft.lines[index]? with
  | none => simp
  | some line => rfl

theorem Body.IsFilled.hasBody {body : Body} (filled : body.IsFilled) {final : State}
    (kept : body.after.draft.lines <+: final.draft.lines)
    (left : Nim.isBlankLine (final.finished.lines.getD body.head "") = false) {index : Nat}
    (inside : body.span.contains index) (shown : Nim.isBlankLine (final.finished.lines.getD index "") = false) :
    Nim.hasBody final.finished.lines body.head := by
  obtain ⟨statement, flush, headLine⟩ := filled.headLine kept
  have head : final.finished.lines.getD body.head "" = Nim.indentation body.before.draft.level ++ statement := by
    rw [getD_finished] at left ⊢
    split at left
    · cases left
    next live => rw [if_neg live, headLine]
  have place : body.head + 1 = body.before.draft.size := by
    obtain ⟨earlier, statement, _, here⟩ := filled.head
    rw [Body.head, Nim.Draft.size_eq_length, here]
    simp
  have range : ∀ index, body.span.contains index ↔ body.head < index ∧ index < body.after.draft.size := by
    intro index
    rw [body.span_contains]
    omega
  refine Nim.hasBody_of_span ?_ ((range index).mp inside).1 ((range index).mp inside).2 shown
  intro other behind before
  rw [head, getD_finished final other, Nim.depth_indented _ flush]
  split
  · exact .inl rfl
  · rcases filled.bodyLine kept ((range other).mpr ⟨behind, before⟩) with empty | starts
    · left
      rw [empty]
      rfl
    · right
      have deeper := Nim.depth_of_prefix starts
      omega

/-- Every head that is left has a body, if there is a line in its body that shows something and
is left. What was put out below a head is never empty, so a head is left without a body only if
all that its body showed was in definitions that nothing calls. -/
theorem heads_have_bodies {context : Context} {root : Node} {output : Output}
    (compiled : compile context root = .ok output) :
    ∃ final visits bodies, emitNode context root (.initial context.options) = .ok final ∧
      visitsOf context root = .ok visits ∧ bodiesOf context root = .ok bodies ∧
      output.source = "\n".intercalate final.finished.lines ∧
      ∀ body ∈ bodies, body.IsFilled ∧ body.after.draft.lines <+: final.draft.lines ∧
        (Nim.isBlankLine (final.finished.lines.getD body.head "") = false →
          Nim.hasBody final.finished.lines body.head ∨
            ∀ index, body.span.contains index → IsDead context final.mixins visits index ∨
              Nim.isBlankLine (final.draft.lines.getD index "")) := by
  obtain ⟨final, emitted, same⟩ := compile_eq_ok compiled
  obtain ⟨step, planned, rfl⟩ := planned_of_emitted emitted
  have known : planNode context root (.initial context.options) = .ok step := planned
  have settled := (built_of_planned known).bodies context (.initial context.options) (Nat.le_refl 1)
  rw [bodiesAll, bodiesAll, List.append_nil] at settled
  refine ⟨_, step.visits context (.initial context.options), step.bodies context (.initial context.options),
    emitted, by rw [visitsOf, known]; rfl, by rw [bodiesOf, known]; rfl, by rw [same, Nim.Draft.source], ?_⟩
  intro body member
  have filled := (settled body member).filled
  have kept := (settled body member).kept.trans (Nim.Draft.finished_prefix_lines _)
  refine ⟨filled, kept, fun left => ?_⟩
  by_cases shown : ∃ index, body.span.contains index ∧
      Nim.isBlankLine ((step.run context (.initial context.options)).finished.lines.getD index "") = false
  · obtain ⟨index, inside, shown⟩ := shown
    exact .inl (filled.hasBody kept left inside shown)
  · right
    intro index inside
    rw [← isDead_iff (noted_of_planned known) index]
    by_cases dead : (step.run context (.initial context.options)).mixins.unused.any (·.contains index)
    · exact .inl dead
    · right
      by_contra visible
      refine shown ⟨index, inside, ?_⟩
      rw [getD_finished, if_neg dead]
      simpa using visible

/-- A loop whose body starts with a definition that nothing calls. -/
def definitionLoop (rest : List Node) : Node :=
  .each { collection := "xs", item := "x",
          block := { nodes := .mixin { name := "m", block := some { nodes := [.text "a" {}] } } :: rest } }

def loopState (behind : List String) : State :=
  { State.initial {} with
    draft := ⟨#[
      "  # iterate xs",
      "  for x in xs:",
      "    template jade_mixins_m(jade_block: stmt): stmt \x7b.dirty.\x7d =",
      "      jade_buf.add(\"a\")",
      ""] ++ behind, none, 1⟩
    mixins := ⟨[("m", ⟨false, [⟨2, 5⟩]⟩)], false⟩ }

private theorem emitNode_loop :
    emitNode ⟨{}, .none⟩ (definitionLoop []) (.initial {}) = .ok (loopState [""]) ∧
      emitNode ⟨{}, .none⟩ (definitionLoop [.text "b" {}]) (.initial {}) =
        .ok (loopState ["    jade_buf.add(\"b\")", ""]) := by
  exact ⟨eq_ok_of_toOption (by decide +kernel), eq_ok_of_toOption (by decide +kernel)⟩

private theorem heads_loop :
    List.map Body.head <$> bodiesOf ⟨{}, .none⟩ (definitionLoop []) = .ok [1, 2] ∧
      List.map Body.head <$> bodiesOf ⟨{}, .none⟩ (definitionLoop [.text "b" {}]) = .ok [1, 2] := by
  exact ⟨eq_ok_of_toOption (by decide +kernel), eq_ok_of_toOption (by decide +kernel)⟩

private theorem exists_head {context : Context} {root : Node} {bodies : List Body} {first : Nat} {rest : List Nat}
    (heads : List.map Body.head <$> bodiesOf context root = .ok (first :: rest))
    (listed : bodiesOf context root = .ok bodies) : ∃ body ∈ bodies, body.head = first := by
  rw [listed] at heads
  have places : bodies.map Body.head = first :: rest := Except.ok.inj heads
  have member : first ∈ bodies.map Body.head := by
    rw [places]
    exact List.mem_cons_self
  exact List.mem_map.mp member

theorem definition_loop_has_body :
    ∃ output final bodies, compile ⟨{}, .none⟩ (definitionLoop [.text "b" {}]) = .ok output ∧
      emitNode ⟨{}, .none⟩ (definitionLoop [.text "b" {}]) (.initial {}) = .ok final ∧
      bodiesOf ⟨{}, .none⟩ (definitionLoop [.text "b" {}]) = .ok bodies ∧
      final.finished.lines = ["  # iterate xs", "  for x in xs:", "", "", "", "    jade_buf.add(\"b\")", ""] ∧
      ∃ body ∈ bodies, body.head = 1 ∧ body.IsFilled ∧ Nim.hasBody final.finished.lines body.head := by
  have compiled : ∃ output, compile ⟨{}, .none⟩ (definitionLoop [.text "b" {}]) = .ok output := by
    rw [compile, emitNode_loop.2]
    exact ⟨_, rfl⟩
  obtain ⟨output, compiled⟩ := compiled
  obtain ⟨final, visits, bodies, emitted, _, listed, _, all⟩ := heads_have_bodies compiled
  have evaluated : final = loopState ["    jade_buf.add(\"b\")", ""] := by
    rw [emitNode_loop.2] at emitted
    exact (Except.ok.inj emitted).symm
  obtain ⟨body, member, place⟩ := exists_head heads_loop.2 listed
  subst evaluated
  refine ⟨output, _, bodies, compiled, emitted, listed, rfl, body, member, place, (all body member).1, ?_⟩
  rw [place]
  decide

/-- A body with nothing in it but a definition that nothing calls is emptied as a whole. -/
theorem definition_loop_is_emptied :
    ∃ output final bodies, compile ⟨{}, .none⟩ (definitionLoop []) = .ok output ∧
      emitNode ⟨{}, .none⟩ (definitionLoop []) (.initial {}) = .ok final ∧
      bodiesOf ⟨{}, .none⟩ (definitionLoop []) = .ok bodies ∧
      output.source = "  # iterate xs\n  for x in xs:\n\n\n\n" ∧
      ∃ body ∈ bodies, Nim.isBlankLine (final.finished.lines.getD body.head "") = false ∧
        Nim.hasBody final.finished.lines body.head = false := by
  have listed : ∃ bodies, bodiesOf ⟨{}, .none⟩ (definitionLoop []) = .ok bodies := by
    cases made : bodiesOf ⟨{}, .none⟩ (definitionLoop []) with
    | ok bodies => exact ⟨bodies, rfl⟩
    | error error => exact absurd heads_loop.1 (by rw [made]; exact nofun)
  obtain ⟨bodies, listed⟩ := listed
  obtain ⟨body, member, place⟩ := exists_head heads_loop.1 listed
  refine ⟨⟨(loopState [""]).finished.source, []⟩, loopState [""], bodies, ?_, emitNode_loop.1, listed, ?_, body,
    member, ?_, ?_⟩
  · rw [compile, emitNode_loop.1]
    rfl
  · decide
  · rw [place]
    decide
  · rw [place]
    decide

end NimTemplate.Compile
