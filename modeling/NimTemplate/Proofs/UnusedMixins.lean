import NimTemplate.Proofs.MixinTable
import NimTemplate.Proofs.Visits

/-! Definitions of mixins that nothing calls. The table of mixins holds exactly what the visits
of the walk tell: which lines belong to a definition, and which names are called. Emptying the
lines of definitions without calls therefore touches no line that was put out outside of them. -/

namespace NimTemplate.Compile

namespace Visit

/-- The visited node is a definition of the name. -/
def Defines (visit : Visit) (context : Context) (name : String) : Prop :=
  ∃ mixin, visit.node = .mixin mixin ∧ mixin.call = false ∧ mixinName context mixin = .ok name

def Calls (visit : Visit) (context : Context) (name : String) : Prop :=
  ∃ mixin, visit.node = .mixin mixin ∧ mixin.call = true ∧ mixinName context mixin = .ok name

/-- The visited node is a mixin, defined or called, whose name is computed. -/
def IsComputed (visit : Visit) : Prop := ∃ mixin, visit.node = .mixin mixin ∧ mixin.isComputed

end Visit

/-- The table behind some visits holds what was in it before them and what they tell. -/
structure Noted (context : Context) (before : MixinTable) (visits : List Visit) (after : MixinTable) : Prop where
  records : ∀ name span, after.Records name span ↔
    before.Records name span ∨ ∃ visit ∈ visits, visit.Defines context name ∧ visit.span = span
  uses : ∀ name, after.Uses name ↔ before.Uses name ∨ ∃ visit ∈ visits, visit.Calls context name
  computed : after.computedCall ↔ before.computedCall ∨ ∃ visit ∈ visits, visit.IsComputed
  distinct : before.Distinct → after.Distinct

namespace Noted

theorem refl (context : Context) (table : MixinTable) : Noted context table [] table where
  records := by simp
  uses := by simp
  computed := by simp
  distinct := id

theorem append {context : Context} {before between after : MixinTable} {first rest : List Visit}
    (here : Noted context before first between) (later : Noted context between rest after) :
    Noted context before (first ++ rest) after where
  records name span := by
    rw [later.records, here.records, or_assoc]
    simp only [List.mem_append, or_and_right, exists_or]
  uses name := by
    rw [later.uses, here.uses, or_assoc]
    simp only [List.mem_append, or_and_right, exists_or]
  computed := by
    rw [later.computed, here.computed, or_assoc]
    simp only [List.mem_append, or_and_right, exists_or]
  distinct start := later.distinct (here.distinct start)

/-- Nodes other than mixins leave the table alone. -/
theorem visit {context : Context} {before after : MixinTable} {visits : List Visit} {visit : Visit}
    (other : ∀ mixin, visit.node ≠ .mixin mixin) (noted : Noted context before visits after) :
    Noted context before (visit :: visits) after where
  records name span := by
    have silent : ¬ visit.Defines context name := fun ⟨mixin, same, _⟩ => other mixin same
    simp [noted.records, silent]
  uses name := by
    have silent : ¬ visit.Calls context name := fun ⟨mixin, same, _⟩ => other mixin same
    simp [noted.uses, silent]
  computed := by
    have silent : ¬ visit.IsComputed := fun ⟨mixin, same, _⟩ => other mixin same
    simp [noted.computed, silent]
  distinct := noted.distinct

end Noted

namespace State

@[simp] theorem mixins_endBody (state inside : State) : (state.endBody inside).mixins = inside.mixins := by
  unfold endBody
  split <;> rfl

@[simp] theorem mixins_callAttributes (state : State) (context : Context) (mixin : Mixin Node) :
    (state.callAttributes context mixin).mixins = state.mixins := by
  unfold callAttributes
  split
  · rfl
  · rw [attributeTable_eq]
    rfl

theorem mixins_noteComputed (state : State) (mixin : Mixin Node) :
    (state.noteComputed mixin).mixins = if mixin.isComputed then state.mixins.markComputed else state.mixins := by
  unfold noteComputed
  split <;> rfl

theorem mixins_enterMixin (state : State) (context : Context) (mixin : Mixin Node) :
    (state.enterMixin context mixin).mixins =
      if mixin.call then (state.noteComputed mixin).mixins.markUsed (resolvedName context mixin)
      else (state.noteComputed mixin).mixins := by
  unfold enterMixin mixinHead
  split
  · exact mixins_callAttributes _ _ _
  · rfl

theorem records_enterMixin (state : State) (context : Context) (mixin : Mixin Node) (name : String) (span : Nim.Span) :
    (state.enterMixin context mixin).mixins.Records name span ↔ state.mixins.Records name span := by
  have noted : (state.noteComputed mixin).mixins.Records name span ↔ state.mixins.Records name span := by
    rw [mixins_noteComputed]
    split <;> exact Iff.rfl
  rw [mixins_enterMixin]
  split
  · rw [MixinTable.records_markUsed, noted]
  · exact noted

theorem uses_enterMixin (state : State) (context : Context) (mixin : Mixin Node) (name : String) :
    (state.enterMixin context mixin).mixins.Uses name ↔
      state.mixins.Uses name ∨ (mixin.call = true ∧ resolvedName context mixin = name) := by
  have noted : (state.noteComputed mixin).mixins.Uses name ↔ state.mixins.Uses name := by
    rw [mixins_noteComputed]
    split <;> exact Iff.rfl
  rw [mixins_enterMixin]
  split
  next call => rw [MixinTable.uses_markUsed, noted, eq_comm (a := name)]; simp [call]
  next call => rw [noted]; simp [call]

theorem computed_enterMixin (state : State) (context : Context) (mixin : Mixin Node) :
    (state.enterMixin context mixin).mixins.computedCall ↔ state.mixins.computedCall ∨ mixin.isComputed := by
  have noted : (state.noteComputed mixin).mixins.computedCall ↔ state.mixins.computedCall ∨ mixin.isComputed := by
    rw [mixins_noteComputed]
    split
    next computed => simp [MixinTable.markComputed, computed]
    next named => simp [named]
  rw [mixins_enterMixin]
  split <;> exact noted

theorem distinct_enterMixin {state : State} (context : Context) (mixin : Mixin Node)
    (distinct : state.mixins.Distinct) : (state.enterMixin context mixin).mixins.Distinct := by
  have noted : (state.noteComputed mixin).mixins.Distinct := by
    rw [mixins_noteComputed]
    split <;> exact distinct
  rw [mixins_enterMixin]
  split
  · exact MixinTable.distinct_markUsed noted _
  · exact noted

theorem mixins_mixinEnd (state : State) (mixin : Mixin Node) (name : String) (start : Nat) :
    (state.mixinEnd mixin name start).mixins =
      if mixin.call then state.mixins
      else state.mixins.addDefinition name ⟨start, (state.mixinEnd mixin name start).draft.size⟩ := by
  unfold mixinEnd
  split
  · split <;> rfl
  · rfl

end State

/-- The plan of a mixin is a step for it, and its name is known. -/
theorem planNode_mixin {context : Context} {mixin : Mixin Node} {mode : Mode} {step : Step}
    (planned : planNode context (.mixin mixin) mode = .ok step) :
    (∃ steps, step = .mixin mixin steps) ∧ mixinName context mixin = .ok (resolvedName context mixin) := by
  obtain ⟨name, parameters, block, attributes, call, location⟩ := mixin
  rw [planNode] at planned
  obtain ⟨resolved, named, planned⟩ := bind_eq_ok planned
  obtain ⟨steps, inside, same⟩ := bind_eq_ok planned
  cases same
  refine ⟨⟨steps, rfl⟩, ?_⟩
  rw [resolvedName, named]
  rfl

theorem Noted.mixin {context : Context} {mixin : Mixin Node} {steps : List Step} {state : State} {visits : List Visit}
    (named : mixinName context mixin = .ok (resolvedName context mixin))
    (inside : Noted context (state.enterMixin context mixin).mixins visits
      (runAll context steps (state.enterMixin context mixin).indent).mixins) :
    Noted context state.mixins (⟨.mixin mixin, state, (Step.mixin mixin steps).run context state⟩ :: visits)
      ((Step.mixin mixin steps).run context state).mixins := by
  -- A call is noted before the content and a definition behind it; what is held does not tell.
  have ending : ((Step.mixin mixin steps).run context state).mixins =
      if mixin.call then (runAll context steps (state.enterMixin context mixin).indent).mixins
      else (runAll context steps (state.enterMixin context mixin).indent).mixins.addDefinition
        (resolvedName context mixin) ⟨state.draft.size, ((Step.mixin mixin steps).run context state).draft.size⟩ := by
    rw [Step.run, State.mixins_mixinEnd, State.mixins_endBody]
  generalize (Step.mixin mixin steps).run context state = after at ending ⊢
  refine ⟨fun name span => ?_, fun name => ?_, ?_, fun start => ?_⟩
  · have here : (⟨.mixin mixin, state, after⟩ : Visit).Defines context name ↔
        mixin.call = false ∧ resolvedName context mixin = name := by
      simp [Visit.Defines, named]
    have closing : after.mixins.Records name span ↔
        (runAll context steps (state.enterMixin context mixin).indent).mixins.Records name span ∨
          (mixin.call = false ∧ resolvedName context mixin = name) ∧ ⟨state.draft.size, after.draft.size⟩ = span := by
      rw [ending]
      split
      next call => simp [call]
      next call => simp [call, MixinTable.records_addDefinition, eq_comm]
    simp only [closing, inside.records, State.records_enterMixin, List.mem_cons, exists_eq_or_imp, here, Visit.span]
    rw [or_assoc, or_comm (a := ∃ _, _)]
  · have here : (⟨.mixin mixin, state, after⟩ : Visit).Calls context name ↔
        mixin.call = true ∧ resolvedName context mixin = name := by
      simp [Visit.Calls, named]
    have closing : after.mixins.Uses name ↔
        (runAll context steps (state.enterMixin context mixin).indent).mixins.Uses name := by
      rw [ending]
      split
      · exact Iff.rfl
      · exact MixinTable.uses_addDefinition _ _ _ _
    simp only [closing, inside.uses, State.uses_enterMixin, List.mem_cons, exists_eq_or_imp, here]
    exact or_assoc
  · have here : (⟨.mixin mixin, state, after⟩ : Visit).IsComputed ↔ mixin.isComputed := by
      simp [Visit.IsComputed]
    have closing : after.mixins.computedCall =
        (runAll context steps (state.enterMixin context mixin).indent).mixins.computedCall := by
      rw [ending]
      split <;> rfl
    simp only [closing, inside.computed, State.computed_enterMixin, List.mem_cons, exists_eq_or_imp, here]
    exact or_assoc
  · have within := inside.distinct (State.distinct_enterMixin context mixin start)
    rw [ending]
    split
    · exact within
    · exact MixinTable.distinct_addDefinition within _ _

mutual

theorem run_noted {context : Context} (step : Step) {state : State} (planned : step.IsPlanned context state.mode) :
    Noted context state.mixins (step.visits context state) (step.run context state).mixins := by
  match step with
  | .put _ | .line _ | .blank | .mode _ => exact .refl context state.mixins
  | .nested steps =>
    have inside : ArePlanned context steps state.indent.mode := planned
    exact runAll_noted steps inside
  | .body steps =>
    have inside : ArePlanned context steps state.indent.mode := planned
    rw [Step.run, State.mixins_endBody]
    exact runAll_noted steps inside
  | .mixin mixin steps =>
    have entered : ((state.enterMixin context mixin).indent).mode = state.mode := State.mode_enterMixin _ _ _
    have inside : ArePlanned context steps (state.enterMixin context mixin).indent.mode := by
      rw [entered]
      exact planned.2
    exact .mixin (planNode_mixin planned.1).2 (runAll_noted steps inside)
  | .visit node steps =>
    -- A mixin is planned as a step of its own, so this node is none.
    refine .visit ?_ (runAll_noted steps planned.2)
    rintro mixin rfl
    obtain ⟨⟨others, same⟩, _⟩ := planNode_mixin planned.1
    cases same
termination_by structural step

theorem runAll_noted {context : Context} (steps : List Step) {state : State}
    (planned : ArePlanned context steps state.mode) :
    Noted context state.mixins (visitsAll context steps state) (runAll context steps state).mixins := by
  match steps with
  | [] => exact .refl context state.mixins
  | step :: rest =>
    have later : ArePlanned context rest (step.run context state).mode := by
      rw [mode_run]
      exact planned.2
    exact (run_noted step planned.1).append (runAll_noted rest later)
termination_by structural steps

end

theorem noted_of_planned {context : Context} {root : Node} {step : Step}
    (planned : planNode context root (.initial context.options) = .ok step) :
    Noted context .empty (step.visits context (.initial context.options))
      (step.run context (.initial context.options)).mixins :=
  @run_noted context step (.initial context.options) (planNode_isPlanned root planned)

/-- A body has a line of its own, whatever its content puts out. -/
theorem size_endBody {state inside : State} (grown : state.draft.size ≤ inside.draft.size) :
    state.draft.size + 1 ≤ (state.endBody inside).draft.size := by
  unfold State.endBody
  split
  next same =>
    have pushed : (inside.line "discard").dedent.draft.size = inside.draft.size + 1 := Nim.Draft.size_push _ _
    omega
  next different =>
    have kept : inside.dedent.draft.size = inside.draft.size := rfl
    omega

/-- A definition starts on a new line, takes three lines at least and leaves no statement open:
nothing before it is changed by it, and nothing in it can be changed behind it. -/
theorem definition_settles {context : Context} {mixin : Mixin Node} {before after : State}
    (definition : mixin.call = false) (emitted : emitNode context (.mixin mixin) before = .ok after) :
    before.draft.lines <+: after.draft.lines ∧ after.draft.last = none ∧
      before.draft.size + 3 ≤ after.draft.size := by
  obtain ⟨step, planned, rfl⟩ := planned_of_emitted emitted
  obtain ⟨⟨steps, rfl⟩, _⟩ := planNode_mixin planned
  obtain ⟨head, started⟩ := draft_enterMixin_definition before context definition
  have content : (before.enterMixin context mixin).draft.Grows
      (runAll context steps (before.enterMixin context mixin).indent).draft :=
    (Nim.Draft.Grows.indent _).trans (runAll_walked context steps (before.enterMixin context mixin).indent).grows
  have ended := content.trans (grows_endBody (before.enterMixin context mixin) _)
  have longer := size_endBody content.size
  have closed : ((Step.mixin mixin steps).run context before).draft =
      ((before.enterMixin context mixin).endBody
        (runAll context steps (before.enterMixin context mixin).indent)).draft.push "" := by
    rw [Step.run, State.mixinEnd, definition]
    rfl
  rw [closed]
  rw [started] at ended longer
  refine ⟨?_, Nim.Draft.last_push _ _, ?_⟩
  · -- The head closes what was open before, so those lines are finished from here on.
    rw [Nim.Draft.lines_push]
    have settled := before.draft.lines_prefix_push head
    exact ((settled.trans ended.kept).trans (Nim.Draft.finished_prefix_lines _)).trans (List.prefix_append _ _)
  · rw [Nim.Draft.size_push] at longer ⊢
    omega

/-- Two spans have no line in common, or one lies within the other. -/
def AreNested (first second : Nim.Span) : Prop :=
  first.stop ≤ second.start ∨ second.stop ≤ first.start ∨
    (first.start ≤ second.start ∧ second.stop ≤ first.stop) ∨
    (second.start ≤ first.start ∧ first.stop ≤ second.stop)

theorem Visit.Related.areNested {first second : Visit} (related : first.Related second) :
    AreNested first.span second.span := by
  rcases related with (encloses | precedes) | (encloses | precedes)
  · exact .inr (.inr (.inl ⟨encloses.begins.size, encloses.ends.size⟩))
  · exact .inl precedes.size
  · exact .inr (.inr (.inr ⟨encloses.begins.size, encloses.ends.size⟩))
  · exact .inr (.inl precedes.size)

/-- The lines of a visit, once it is over, against all visits of the walk and its end. -/
structure Visit.Settled (visit : Visit) (visits : List Visit) (final : State) : Prop where
  /-- The visit only adds lines. -/
  adds : visit.before.draft.lines <+: visit.after.draft.lines
  /-- Another visit is over before it, or part of it, or leaves its lines as they are. -/
  kept : ∀ other ∈ visits, other.span.stop ≤ visit.span.start ∨
    (visit.span.start ≤ other.span.start ∧ other.span.stop ≤ visit.span.stop) ∨
    visit.after.draft.lines <+: other.after.draft.lines
  /-- Its lines are still there at the end. -/
  stays : visit.after.draft.lines <+: final.draft.lines

theorem Walked.settled {start final : State} {visits : List Visit} (walked : Walked start visits final)
    {visit : Visit} (member : visit ∈ visits) (adds : visit.before.draft.lines <+: visit.after.draft.lines)
    (closed : visit.after.draft.last = none) : visit.Settled visits final where
  adds := adds
  kept other present := by
    rcases walked.related member present with (encloses | precedes) | (encloses | precedes)
    · exact .inr (.inl ⟨encloses.begins.size, encloses.ends.size⟩)
    · exact .inr (.inr ((precedes.trans (walked.moves other present)).lines_of_closed closed))
    · exact .inr (.inr (encloses.ends.lines_of_closed closed))
    · exact .inl precedes.size
  stays := (walked.ends visit member).lines_of_closed closed

theorem State.lines_finished (state : State) :
    state.finished.lines = state.draft.lines.mapIdx fun index line =>
      if state.mixins.unused.any (·.contains index) then "" else line :=
  Nim.Draft.lines_foldl_erase _ _

/-- A line that lies in a definition which nothing can call. -/
def IsDead (context : Context) (table : MixinTable) (visits : List Visit) (index : Nat) : Prop :=
  (∀ visit ∈ visits, ¬ visit.IsComputed) ∧
    ∃ name span, table.Records name span ∧ span.contains index ∧ ∀ visit ∈ visits, ¬ visit.Calls context name

theorem isDead_iff {context : Context} {table : MixinTable} {visits : List Visit}
    (noted : Noted context .empty visits table) (index : Nat) :
    table.unused.any (·.contains index) ↔ IsDead context table visits index := by
  have distinct := noted.distinct List.nodup_nil
  have computed : table.computedCall = false ↔ ∀ visit ∈ visits, ¬ visit.IsComputed := by
    rw [← Bool.not_eq_true, noted.computed]
    simp [MixinTable.empty]
  have uses : ∀ name, ¬ table.Uses name ↔ ∀ visit ∈ visits, ¬ visit.Calls context name := by
    intro name
    rw [noted.uses]
    simp [MixinTable.Uses, MixinTable.empty]
  simp only [List.any_eq_true, MixinTable.mem_unused distinct, computed, uses, IsDead]
  constructor
  · rintro ⟨span, ⟨named, name, recorded, uncalled⟩, inside⟩
    exact ⟨named, name, span, recorded, inside, uncalled⟩
  · rintro ⟨named, name, span, recorded, inside, uncalled⟩
    exact ⟨span, ⟨named, name, recorded, uncalled⟩, inside⟩

/-- The walk over a template records the lines of definitions, and when it is over exactly those
are emptied that nothing can call. -/
theorem unused_mixins_are_emptied {context : Context} {root : Node} {output : Output}
    (compiled : compile context root = .ok output) :
    ∃ final visits, emitNode context root (.initial context.options) = .ok final ∧
      visitsOf context root = .ok visits ∧
      (∀ visit ∈ visits, emitNode context visit.node visit.before = .ok visit.after) ∧
      -- What is recorded are the lines of the definitions, and these are theirs alone.
      (∀ name span, final.mixins.Records name span ↔
        ∃ visit ∈ visits, visit.Defines context name ∧ visit.span = span) ∧
      (∀ name, ∀ visit ∈ visits, visit.Defines context name → visit.Settled visits final) ∧
      (∀ name span, final.mixins.Records name span →
        span.start + 3 ≤ span.stop ∧ span.stop ≤ final.draft.lines.length) ∧
      (∀ name other span range, final.mixins.Records name span → final.mixins.Records other range →
        AreNested span range) ∧
      -- The lines keep their places, and only dead ones are emptied.
      output.source = "\n".intercalate final.finished.lines ∧
      final.finished.lines.length = final.draft.lines.length ∧
      ∀ index < final.draft.lines.length,
        (IsDead context final.mixins visits index → final.finished.lines[index]? = some "") ∧
        (¬ IsDead context final.mixins visits index →
          final.finished.lines[index]? = final.draft.lines[index]?) := by
  obtain ⟨final, emitted, same⟩ := compile_eq_ok compiled
  obtain ⟨step, planned, rfl⟩ := planned_of_emitted emitted
  have isPlanned := planNode_isPlanned root planned
  have walked := run_walked context step (.initial context.options)
  have noted := run_noted step isPlanned
  have emits := visits_emit step isPlanned
  have listed : visitsOf context root = .ok (step.visits context (.initial context.options)) := by
    have known : planNode context root (.initial context.options) = .ok step := planned
    rw [visitsOf, known]
    rfl
  generalize step.visits context (.initial context.options) = visits at *
  generalize step.run context (.initial context.options) = final at *
  have records : ∀ name span, final.mixins.Records name span ↔
      ∃ visit ∈ visits, visit.Defines context name ∧ visit.span = span := by
    intro name span
    rw [noted.records]
    simp [MixinTable.Records, State.initial, MixinTable.empty]
  have definitions : ∀ name, ∀ visit ∈ visits, visit.Defines context name →
      visit.Settled visits final ∧ visit.span.start + 3 ≤ visit.span.stop := by
    rintro name visit member ⟨mixin, isMixin, definition, named⟩
    have emitted := emits visit member
    rw [isMixin] at emitted
    obtain ⟨adds, closed, long⟩ := definition_settles definition emitted
    exact ⟨walked.settled member adds closed, long⟩
  have lines : final.finished.lines = final.draft.lines.mapIdx fun index line =>
      if final.mixins.unused.any (·.contains index) then "" else line :=
    Nim.Draft.lines_foldl_erase _ _
  refine ⟨final, visits, emitted, listed, emits, records, ?_, ?_, ?_, ?_, ?_, ?_⟩
  · intro name visit member defines
    exact (definitions name visit member defines).1
  · intro name span recorded
    obtain ⟨visit, member, defines, rfl⟩ := (records name span).mp recorded
    refine ⟨(definitions name visit member defines).2, ?_⟩
    rw [← Nim.Draft.size_eq_length]
    exact (walked.ends visit member).size
  · intro name other span range first second
    obtain ⟨visit, one, _, rfl⟩ := (records name span).mp first
    obtain ⟨next, two, _, rfl⟩ := (records other range).mp second
    exact (walked.related one two).areNested
  · rw [same, Nim.Draft.source]
  · rw [lines, List.length_mapIdx]
  · intro index inside
    rw [← isDead_iff noted, lines, List.getElem?_mapIdx, List.getElem?_eq_getElem inside]
    refine ⟨fun dead => ?_, fun live => ?_⟩
    · simp [dead]
    · simp [live]

/-- A mixin that is called, with the definition of one that is not inside it. -/
def cardTemplate : Node :=
  .block { nodes := [
    .mixin { name := "card", block := some { nodes := [
      .mixin { name := "badge", block := some { nodes := [.literal "b" {}] } },
      .literal "c" {}] } },
    .mixin { name := "card", call := true },
    .literal "end" {}] }

def cardDraft : Nim.Draft where
  finished := #[
    "  template jade_mixins_card(jade_block: stmt): stmt \x7b.dirty.\x7d =",
    "    template jade_mixins_badge(jade_block: stmt): stmt \x7b.dirty.\x7d =",
    "      jade_buf.add(\"b\")",
    "",
    "    jade_buf.add(\"c\")",
    "",
    "  jade_mixins_card():",
    "    discard"]
  last := some ⟨1, [.text "end"], false⟩
  level := 1

def cardMixins : MixinTable :=
  ⟨[("badge", ⟨false, [⟨1, 4⟩]⟩), ("card", ⟨true, [⟨0, 6⟩]⟩)], false⟩

private theorem emitNode_card :
    emitNode ⟨{}, .none⟩ cardTemplate (.initial {}) = .ok ⟨cardDraft, .unset, false, false, cardMixins, []⟩ := by
  exact eq_ok_of_toOption (by decide +kernel)

theorem card_badge_is_emptied :
    ∃ output final visits, compile ⟨{}, .none⟩ cardTemplate = .ok output ∧
      emitNode ⟨{}, .none⟩ cardTemplate (.initial {}) = .ok final ∧
      visitsOf ⟨{}, .none⟩ cardTemplate = .ok visits ∧
      (∃ visit ∈ visits, visit.Defines ⟨{}, .none⟩ "badge" ∧ visit.span = ⟨1, 4⟩) ∧
      final.draft.lines = cardDraft.lines ∧ final.finished.lines.length = 9 ∧
      IsDead ⟨{}, .none⟩ final.mixins visits 2 ∧ final.finished.lines[2]? = some "" ∧
      ¬ IsDead ⟨{}, .none⟩ final.mixins visits 4 ∧
      final.finished.lines[4]? = some "    jade_buf.add(\"c\")" := by
  have compiled : ∃ output, compile ⟨{}, .none⟩ cardTemplate = .ok output := by
    rw [compile, emitNode_card]
    exact ⟨_, rfl⟩
  obtain ⟨output, compiled⟩ := compiled
  obtain ⟨final, visits, emitted, listed, -, records, -, -, -, -, length, lines⟩ :=
    unused_mixins_are_emptied compiled
  have evaluated : final = ⟨cardDraft, .unset, false, false, cardMixins, []⟩ := by
    rw [emitNode_card] at emitted
    exact (Except.ok.inj emitted).symm
  subst evaluated
  refine ⟨output, _, visits, compiled, emitted, listed, ?_, rfl, length, ?_, rfl, ?_, rfl⟩
  · exact (records "badge" ⟨1, 4⟩).mp ⟨⟨false, [⟨1, 4⟩]⟩, by decide, by decide⟩
  · refine Classical.byContradiction fun live => ?_
    have kept := (lines 2 (by decide)).2 live
    exact absurd kept (by decide)
  · intro dead
    have emptied := (lines 4 (by decide)).1 dead
    exact absurd emptied (by decide)

end NimTemplate.Compile
