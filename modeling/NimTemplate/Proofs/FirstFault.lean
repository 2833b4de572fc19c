import NimTemplate.Proofs.Route

/-! When compiling fails, and with which error. The nodes that a walk visits are those of its
way, in order, and compiling fails exactly where one of them does; the first that fails decides
the error. -/

namespace NimTemplate.Compile

def Visit.stop (visit : Visit) : Stop := ⟨visit.node, visit.before.mode⟩

private theorem visitsAll_block (context : Context) (head : String) (steps rest : List Step) (state : State) :
    visitsAll context (.line head :: .body steps :: .blank :: rest) state =
      visitsAll context steps (state.line head).indent ++
        visitsAll context rest (Step.blank.run context ((Step.body steps).run context (state.line head))) := rfl

/-- The visits of a plan are the stops of the way it is made along. -/
theorem Built.stops_visits (context : Context) {mode : Mode} {stops : List Stop} {steps : List Step}
    (built : Built mode stops steps) (state : State) (starts : state.mode = mode) :
    (visitsAll context steps state).map Visit.stop = stops := by
  induction built generalizing state with
  | nil => rfl
  | put site _ ih => exact ih _ starts
  | line _ _ ih => exact ih _ starts
  | mode next _ ih => exact ih _ (State.mode_inMode state next)
  | nested _ _ inside later =>
    rw [visitsAll, List.map_append]
    refine congrArg₂ _ (inside state.indent starts) (later _ ?_)
    rw [mode_run, starts]
    rfl
  | block _ _ _ inside later =>
    rw [visitsAll_block, List.map_append]
    refine congrArg₂ _ (inside _ starts) (later _ ?_)
    rw [mode_run, mode_run]
    exact congrArg (modeAfterAll _) starts
  | mixin _ _ _ inside later =>
    have entered : ∀ mixin, (state.enterMixin context mixin).indent.mode = state.mode :=
      State.mode_enterMixin state context
    rw [visitsAll, Step.visits, List.cons_append, List.map_cons, List.map_append]
    refine congrArg₂ _ (congrArg _ starts) (congrArg₂ _ (inside _ ((entered _).trans starts)) (later _ ?_))
    rw [mode_run, starts]
    rfl
  | visit node _ _ inside later =>
    rw [visitsAll, Step.visits, List.cons_append, List.map_cons, List.map_append]
    refine congrArg₂ _ (congrArg _ starts) (congrArg₂ _ (inside _ starts) (later _ ?_))
    rw [mode_run, starts]
    rfl

theorem stops_of_planned {context : Context} {node : Node} {state : State} {step : Step}
    (planned : planNode context node state.mode = .ok step) :
    (step.visits context state).map Visit.stop = route node state.mode := by
  have stops := (built_of_planned planned).stops_visits context state rfl
  rwa [visitsAll, visitsAll, List.append_nil] at stops

theorem Fails.unique {context : Context} {mode : Mode} {node : Node} {one other : Error}
    (first : Fails context mode node one) (second : Fails context mode node other) : one = other := by
  cases first with
  | content => cases second with | content => rfl
  | text rejected =>
    cases second with
    | text again => rw [rejected] at again; cases again; rfl
  | mixinName => cases second with | mixinName => rfl
  | filter failed =>
    cases second with
    | filter again => rw [failed] at again; cases again; rfl
    | filtered made => rw [failed] at made; cases made
  | filtered made rejected =>
    cases second with
    | filter failed => rw [made] at failed; cases failed
    | filtered again other =>
      rw [made] at again
      cases again
      rw [rejected] at other
      cases other
      rfl

/-- Nodes fail in their structure or in a filter, in no other way. -/
theorem Fails.kind {context : Context} {mode : Mode} {node : Node} {error : Error} (fails : Fails context mode node error) :
    (∃ fault origin, error = .structural fault origin) ∨ ∃ name cause origin, error = .filter name cause origin := by
  cases fails with
  | content | text | mixinName | filtered => exact .inl ⟨_, _, rfl⟩
  | filter => exact .inr ⟨_, _, _, rfl⟩

/-- Of two ways to divide the stops before one that fails, neither can be the shorter. -/
theorem FailsFirst.unique {context : Context} {stops : List Stop} {one other : Error}
    (first : FailsFirst context stops one) (second : FailsFirst context stops other) : one = other := by
  obtain ⟨before, stop, later, rfl, clear, fails⟩ := first
  obtain ⟨earlier, found, rest, same, pass, failed⟩ := second
  rcases List.append_eq_append_iff.mp same with ⟨more, rfl, ends⟩ | ⟨more, rfl, ends⟩
  · cases more with
    | nil =>
      cases ends
      exact fails.unique failed
    | cons head more =>
      cases ends
      exact absurd fails (pass stop (by simp) one)
  · cases more with
    | nil =>
      cases ends
      exact fails.unique failed
    | cons head more =>
      cases ends
      exact absurd failed (clear found (by simp) other)

theorem AllPass.not_failsFirst {context : Context} {stops : List Stop} (pass : AllPass context stops) (error : Error) :
    ¬ FailsFirst context stops error := by
  rintro ⟨earlier, stop, later, rfl, _, fails⟩
  exact pass stop (by simp) error fails

theorem compile_eq_error_iff {context : Context} {root : Node} {error : Error} :
    compile context root = .error error ↔ planNode context root (.initial context.options) = .error error := by
  have emitted := emitNode_follows context root (.initial context.options)
  rw [show (State.initial context.options).mode = .initial context.options from rfl] at emitted
  rw [compile, emitted]
  cases planNode context root (.initial context.options) with
  | error fault =>
    constructor
    all_goals
      intro failed
      cases failed
      rfl
  | ok step =>
    constructor
    all_goals
      intro failed
      cases failed

/-- Compiling fails if and only if some node fails where the walk comes to it, with the error of
the first such node. It never fails otherwise, and if it does not fail, the nodes that were
visited are exactly those that the statement speaks of. -/
theorem compile_fails_at_first_fault (context : Context) (root : Node) :
    ((∃ error, compile context root = .error error) ↔
      ∃ stop ∈ route root (.initial context.options), ∃ error, Fails context stop.mode stop.node error) ∧
    (∀ error, compile context root = .error error ↔
      FailsFirst context (route root (.initial context.options)) error) ∧
    (∀ message, compile context root ≠ .error (.invalidInput message) ∧
      compile context root ≠ .error (.io message)) ∧
    List.map Visit.stop <$> visitsOf context root =
      (fun _ => route root (.initial context.options)) <$> compile context root := by
  have surveys := planNode_surveys context root (.initial context.options)
  have decides : ∀ error, compile context root = .error error ↔
      FailsFirst context (route root (.initial context.options)) error := by
    intro error
    rw [compile_eq_error_iff]
    cases made : planNode context root (.initial context.options) with
    | ok step =>
      rw [made] at surveys
      cases surveys with
      | ok pass _ => exact ⟨nofun, fun first => absurd first (pass.not_failsFirst error)⟩
    | error fault =>
      rw [made] at surveys
      cases surveys with
      | error fails =>
        constructor
        · rintro ⟨⟩
          exact fails
        · intro first
          rw [fails.unique first]
  refine ⟨⟨?_, ?_⟩, decides, ?_, ?_⟩
  · rintro ⟨error, failed⟩
    obtain ⟨earlier, stop, later, same, _, fails⟩ := (decides error).mp failed
    exact ⟨stop, by simp [same], error, fails⟩
  · rintro ⟨stop, member, error, fails⟩
    cases made : planNode context root (.initial context.options) with
    | error fault => exact ⟨fault, compile_eq_error_iff.mpr made⟩
    | ok step =>
      rw [made] at surveys
      cases surveys with
      | ok pass _ => exact absurd fails (pass stop member error)
  · intro message
    constructor
    all_goals
      intro failed
      obtain ⟨_, _, _, _, _, fails⟩ := (decides _).mp failed
      rcases fails.kind with ⟨_, _, same⟩ | ⟨_, _, _, same⟩ <;> cases same
  · cases made : planNode context root (.initial context.options) with
    | error fault =>
      rw [compile_eq_error_iff.mpr made, visitsOf, made]
      rfl
    | ok step =>
      obtain ⟨output, compiled⟩ := compiled_of_planned made
      rw [compiled, visitsOf, made]
      exact congrArg Except.ok (@stops_of_planned context root (.initial context.options) step made)

end NimTemplate.Compile
