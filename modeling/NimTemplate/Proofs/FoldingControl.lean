import NimTemplate.Proofs.FirstFault
import NimTemplate.Proofs.Folding
import NimTemplate.Proofs.Skeleton

/-! What does not depend on folding. Both choices fail alike; else they call the same mixins, drop
the same definitions and leave the same structural lines. Folding saves warnings about classes
that would have to be joined when rendering, and no others. -/

namespace NimTemplate.Compile

/-! The warnings of a plan. -/

def callWarnings (context : Context) (mixin : Mixin Node) : List Warning :=
  if mixin.call && !mixin.attributes.isEmpty then
    classWarnings context (classAttrs mixin.attributes.attrs) mixin.location ++
      [⟨.mixinAttributes, mixin.location.line⟩]
  else []

mutual

def Step.warnings (context : Context) : Step → List Warning
  | .put site => site.warnings context
  | .nested steps | .body steps | .visit _ steps => warningsAll context steps
  | .mixin mixin steps => callWarnings context mixin ++ warningsAll context steps
  | _ => []

def warningsAll (context : Context) : List Step → List Warning
  | [] => []
  | step :: rest => step.warnings context ++ warningsAll context rest

end

theorem warnings_endBody (state inside : State) : (state.endBody inside).warnings = inside.warnings := by
  unfold State.endBody
  split <;> rfl

theorem warnings_mixinEnd (state : State) (mixin : Mixin Node) (name : String) (start : Nat) :
    (state.mixinEnd mixin name start).warnings = state.warnings := by
  unfold State.mixinEnd
  split
  · split <;> rfl
  · rfl

theorem warnings_enterMixin (state : State) (context : Context) (mixin : Mixin Node) :
    (state.enterMixin context mixin).warnings = state.warnings ++ callWarnings context mixin := by
  have noted : (state.noteComputed mixin).warnings = state.warnings := by
    unfold State.noteComputed
    split <;> rfl
  rw [State.enterMixin, State.mixinHead, callWarnings, ← noted]
  cases mixin.call with
  | false => simp [State.line, State.edit]
  | true =>
    simp only [if_true, Bool.true_and, State.callAttributes]
    cases mixin.attributes.isEmpty with
    | true => simp [State.line, State.edit]
    | false =>
      rw [State.attributeTable_eq]
      simp [State.line, State.edit, State.warn]

mutual

theorem warnings_run (context : Context) (step : Step) (state : State) :
    (step.run context state).warnings = state.warnings ++ step.warnings context := by
  match step with
  | .put site => rfl
  | .line _ | .blank | .mode _ => exact (List.append_nil _).symm
  | .nested steps => exact warnings_runAll context steps state.indent
  | .body steps =>
    rw [Step.run, warnings_endBody]
    exact warnings_runAll context steps state.indent
  | .mixin mixin steps =>
    have inside := warnings_runAll context steps (state.enterMixin context mixin).indent
    have entered : (state.enterMixin context mixin).indent.warnings = _ := warnings_enterMixin state context mixin
    rw [Step.run, warnings_mixinEnd, warnings_endBody, inside, entered, List.append_assoc]
    rfl
  | .visit _ steps => exact warnings_runAll context steps state
termination_by structural step

theorem warnings_runAll (context : Context) (steps : List Step) (state : State) :
    (runAll context steps state).warnings = state.warnings ++ warningsAll context steps := by
  match steps with
  | [] => exact (List.append_nil _).symm
  | step :: rest =>
    rw [runAll, warnings_runAll context rest, warnings_run context step, List.append_assoc]
    rfl
termination_by structural steps

end

/-- Some warnings out of others, in order, where only joined classes are left out. -/
structure Spares (few many : List Warning) : Prop where
  sublist : few.Sublist many
  others : few.filter (·.feature ≠ .classJoin) = many.filter (·.feature ≠ .classJoin)

namespace Spares

theorem refl (warnings : List Warning) : Spares warnings warnings := ⟨List.Sublist.refl _, rfl⟩

theorem append {few many less more : List Warning} (here : Spares few many) (later : Spares less more) :
    Spares (few ++ less) (many ++ more) :=
  ⟨here.sublist.append later.sublist, by rw [List.filter_append, List.filter_append, here.others, later.others]⟩

end Spares

/-- Without folding, classes have to be joined wherever there are some. -/
theorem classWarnings_spares (context : Context) (classes : List Attribute) (location : Location) :
    Spares (classWarnings (context.withFold true) classes location)
      (classWarnings (context.withFold false) classes location) := by
  cases classes with
  | nil => exact .refl []
  | cons first rest =>
    have unknown : (context.withFold false).allKnown? ((first :: rest).map (·.source)) = none := rfl
    have joined : classWarnings (context.withFold false) (first :: rest) location = [⟨.classJoin, location.line⟩] := by
      rw [classWarnings, unknown]
      rfl
    rw [joined]
    unfold classWarnings
    split
    · exact ⟨List.nil_sublist _, rfl⟩
    · exact .refl _

theorem siteWarnings_spares (context : Context) (site : Site) :
    Spares (site.warnings (context.withFold true)) (site.warnings (context.withFold false)) := by
  cases site with
  | classes members location => exact classWarnings_spares context members location
  | merged attributes location terse => exact (classWarnings_spares context _ location).append (.refl _)
  | text _ | value _ _ _ | attr _ _ => exact .refl []

theorem callWarnings_spares (context : Context) (mixin : Mixin Node) :
    Spares (callWarnings (context.withFold true) mixin) (callWarnings (context.withFold false) mixin) := by
  unfold callWarnings
  split
  · exact (classWarnings_spares context _ _).append (.refl _)
  · exact .refl []

mutual

theorem stepWarnings_spares (context : Context) (step : Step) :
    Spares (step.warnings (context.withFold true)) (step.warnings (context.withFold false)) := by
  match step with
  | .put site => exact siteWarnings_spares context site
  | .line _ | .blank | .mode _ => exact .refl []
  | .nested steps | .body steps | .visit _ steps => exact warningsAll_spares context steps
  | .mixin mixin steps => exact (callWarnings_spares context mixin).append (warningsAll_spares context steps)
termination_by structural step

theorem warningsAll_spares (context : Context) (steps : List Step) :
    Spares (warningsAll (context.withFold true) steps) (warningsAll (context.withFold false) steps) := by
  match steps with
  | [] => exact .refl []
  | step :: rest => exact (stepWarnings_spares context step).append (warningsAll_spares context rest)
termination_by structural steps

end

/-! The mixins of a plan are noted along its route, and the route knows nothing of folding. -/

/-- Which names are called, and whether one is computed, can be read off the route. -/
theorem mixins_of_planned {context : Context} {root : Node} {step : Step}
    (planned : planNode context root (.initial context.options) = .ok step) :
    (∀ name, (step.run context (.initial context.options)).mixins.Uses name ↔
      ∃ stop ∈ route root (.initial context.options), ∃ mixin, stop.node = .mixin mixin ∧ mixin.call = true ∧
        mixinName context mixin = .ok name) ∧
    ((step.run context (.initial context.options)).mixins.computedCall ↔
      ∃ stop ∈ route root (.initial context.options), ∃ mixin, stop.node = .mixin mixin ∧ mixin.isComputed) := by
  have noted := noted_of_planned planned
  have stops : (step.visits context (.initial context.options)).map Visit.stop =
      route root (.initial context.options) :=
    stops_of_planned planned
  have along : ∀ holds : Node → Prop, (∃ visit ∈ step.visits context (.initial context.options), holds visit.node) ↔
      ∃ stop ∈ route root (.initial context.options), holds stop.node := by
    intro holds
    rw [← stops]
    simp [Visit.stop]
  constructor
  · intro name
    rw [noted.uses,
      ← along fun node => ∃ mixin, node = .mixin mixin ∧ mixin.call = true ∧ mixinName context mixin = .ok name]
    exact or_iff_right nofun
  · rw [noted.computed, ← along fun node => ∃ mixin, node = .mixin mixin ∧ mixin.isComputed]
    exact or_iff_right nofun

mutual

theorem skeleton_withFold (context : Context) (fold : Bool) (dropped : String → Bool) (step : Step) (level : Nat) :
    step.skeleton (context.withFold fold) dropped level = step.skeleton context dropped level := by
  match step with
  | .put _ | .line _ | .blank | .mode _ => rfl
  | .nested steps | .body steps => exact skeletonAll_withFold context fold dropped steps (level + 1)
  | .mixin mixin steps =>
    rw [Step.skeleton, Step.skeleton, skeletonAll_withFold context fold dropped steps]
    rfl
  | .visit _ steps => exact skeletonAll_withFold context fold dropped steps level
termination_by structural step

theorem skeletonAll_withFold (context : Context) (fold : Bool) (dropped : String → Bool) (steps : List Step)
    (level : Nat) :
    skeletonAll (context.withFold fold) dropped steps level = skeletonAll context dropped steps level := by
  match steps with
  | [] => rfl
  | step :: rest =>
    rw [skeletonAll, skeletonAll, skeleton_withFold context fold dropped step,
      skeletonAll_withFold context fold dropped rest]
termination_by structural steps

end

/-- Folding changes appends and nothing else. Templates fail with it as they fail without, with
the same error. Those that compile call the same mixins and keep the same structural lines, each
at its depth and in the same order. Of the warnings, only those about joined classes are saved. -/
theorem folding_keeps_control_flow (context : Context) (root : Node) :
    (∃ error, compile (context.withFold false) root = .error error ∧
      compile (context.withFold true) root = .error error) ∨
    ∃ plain folded, emitNode (context.withFold false) root (.initial context.options) = .ok plain ∧
      emitNode (context.withFold true) root (.initial context.options) = .ok folded ∧
      compile (context.withFold false) root = .ok ⟨plain.finished.source, plain.warnings⟩ ∧
      compile (context.withFold true) root = .ok ⟨folded.finished.source, folded.warnings⟩ ∧
      (∀ name, plain.mixins.Uses name ↔ folded.mixins.Uses name) ∧
      plain.mixins.computedCall = folded.mixins.computedCall ∧
      plain.finished.lines.filter Nim.isStructural = folded.finished.lines.filter Nim.isStructural ∧
      Spares folded.warnings plain.warnings := by
  cases made : planNode context root (.initial context.options) with
  | error fault =>
    have fails : ∀ fold, compile (context.withFold fold) root = .error fault := by
      intro fold
      rw [compile_eq_error_iff, planNode_withFold]
      exact made
    exact .inl ⟨fault, fails false, fails true⟩
  | ok step =>
    -- One plan serves both choices, so both walks succeed.
    have planned : ∀ fold,
        planNode (context.withFold fold) root (.initial (context.withFold fold).options) = .ok step := by
      intro fold
      rw [planNode_withFold]
      exact made
    have emits : ∀ fold, emitNode (context.withFold fold) root (.initial (context.withFold fold).options) =
        .ok (step.run (context.withFold fold) (.initial context.options)) :=
      fun fold => emitNode_of_planned (planned fold)
    have compiles := fun fold => compile_of_emitted (emits fold)
    obtain ⟨usesPlain, computedPlain⟩ := mixins_of_planned (planned false)
    obtain ⟨usesFolded, computedFolded⟩ := mixins_of_planned (planned true)
    have uses := fun name => (usesPlain name).trans (usesFolded name).symm
    have computed := Bool.eq_iff_iff.mpr (computedPlain.trans computedFolded.symm)
    have drops : (step.run (context.withFold false) (.initial context.options)).mixins.drops =
        (step.run (context.withFold true) (.initial context.options)).mixins.drops := by
      funext name
      rw [Bool.eq_iff_iff, MixinTable.drops_iff, MixinTable.drops_iff]
      exact and_congr (iff_of_eq (congrArg (· = false) computed)) (not_congr (uses name))
    have lines : ∀ fold,
        (step.run (context.withFold fold) (.initial context.options)).finished.lines.filter Nim.isStructural =
          step.skeleton context (step.run (context.withFold fold) (.initial context.options)).mixins.drops 1 := by
      intro fold
      rw [← skeleton_withFold context fold]
      exact skeleton_of_planned (planned fold)
    refine .inr ⟨_, _, emits false, emits true, compiles false, compiles true, uses, computed, ?_, ?_⟩
    · rw [lines, lines, drops]
    · rw [warnings_run, warnings_run]
      exact (Spares.refl _).append (stepWarnings_spares context step)

end NimTemplate.Compile
