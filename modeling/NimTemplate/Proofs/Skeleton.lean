import NimTemplate.Proofs.Filling
import NimTemplate.Proofs.UnusedMixins

/-! The skeleton of the code: its lines without the appends to the output and without what only
fills a body or leaves a note. When definitions are dropped, the skeleton is what the plan says
and nothing else, whatever the appends look like and wherever they let the lines come to stand. -/

namespace NimTemplate.Nim

/-- The characters of a line behind its indentation. -/
def unindented (line : String) : List Char := line.toList.dropWhile (· == ' ')

def isStructural (line : String) : Bool :=
  line != "" && !"jade_buf.add(".toList.isPrefixOf (unindented line) && unindented line != "discard".toList &&
    !"# FIXME unported mixin attributes".toList.isPrefixOf (unindented line)

theorem unindented_indented (level : Nat) {statement : String} (flush : isFlush statement) :
    unindented (indentation level ++ statement) = statement.toList := by
  have spaces : ∀ c ∈ List.replicate (2 * level) ' ', (c == ' ') = true := by simp
  rw [unindented, String.toList_append, toList_indentation, List.dropWhile_append_of_pos spaces]
  unfold isFlush startsFlush at flush
  cases seen : statement.toList with
  | nil => rfl
  | cons c others =>
    have visible : Text.isBlank c = false := by simpa [seen] using flush
    have other : (c == ' ') = false := by
      rw [beq_eq_false_iff_ne]
      rintro rfl
      rw [isBlank_space] at visible
      cases visible
    rw [List.dropWhile_cons_of_neg (by simp [other])]

theorem isStructural_empty : isStructural "" = false := rfl

theorem isStructural_append (statement : Append) : isStructural statement.line = false := by
  unfold Append.line
  split
  · rfl
  · rw [String.append_assoc, String.append_assoc, isStructural,
      unindented_indented _ (isFlush_append _ (by decide) (by decide)), String.toList_append]
    simp

theorem isStructural_discard (level : Nat) : isStructural (indentation level ++ "discard") = false := by
  rw [isStructural, unindented_indented _ (by decide)]
  simp

theorem isStructural_note (level : Nat) (merged : String) :
    isStructural (indentation level ++ ("# FIXME unported mixin attributes: " ++ merged)) = false := by
  rw [isStructural, unindented_indented _ (isFlush_append _ (by decide) (by decide)), String.toList_append,
    show "# FIXME unported mixin attributes: " = "# FIXME unported mixin attributes" ++ ": " from rfl,
    String.toList_append, List.append_assoc]
  simp

/-- The structural lines that are left when others are hidden. -/
def skeleton (hidden : Nat → Bool) (lines : List String) : List String :=
  (lines.mapIdx fun index line => if hidden index then "" else line).filter isStructural

theorem skeleton_append (hidden : Nat → Bool) (first rest : List String) :
    skeleton hidden (first ++ rest) =
      skeleton hidden first ++ skeleton (fun index => hidden (index + first.length)) rest := by
  rw [skeleton, List.mapIdx_append, List.filter_append]
  rfl

theorem skeleton_congr {hidden other : Nat → Bool} {lines : List String}
    (same : ∀ index < lines.length, hidden index = other index) : skeleton hidden lines = skeleton other lines := by
  unfold skeleton
  congr 1
  apply List.mapIdx_eq_mapIdx_iff.mpr
  intro index inside
  rw [same index inside]

theorem skeleton_of_hidden {hidden : Nat → Bool} {lines : List String} (all : ∀ index < lines.length, hidden index) :
    skeleton hidden lines = [] := by
  apply List.filter_eq_nil_iff.mpr
  intro line member
  obtain ⟨index, inside, rfl⟩ := List.mem_mapIdx.mp member
  rw [if_pos (all index inside)]
  decide

theorem skeleton_singleton (hidden : Nat → Bool) (line : String) :
    skeleton hidden [line] = if hidden 0 then [] else [line].filter isStructural := by
  unfold skeleton
  cases here : hidden 0 with
  | true => simp [here, isStructural_empty]
  | false => simp [here]

namespace Draft

/-- An open statement is no part of the skeleton. -/
theorem skeleton_lines (hidden : Nat → Bool) (draft : Draft) :
    skeleton hidden draft.lines = skeleton hidden draft.finished.toList := by
  unfold lines
  cases draft.last with
  | none => simp
  | some statement =>
    rw [skeleton_append]
    change _ ++ skeleton _ [statement.line] = _
    rw [skeleton_singleton, List.filter_cons_of_neg (by rw [isStructural_append]; decide)]
    simp

theorem skeleton_push (hidden : Nat → Bool) (draft : Draft) (line : String) :
    skeleton hidden (draft.push line).lines =
      skeleton hidden draft.lines ++ if hidden draft.size then [] else [line].filter isStructural := by
  rw [lines_push, skeleton_append, skeleton_singleton, size_eq_length, Nat.zero_add]

theorem skeleton_pushLine {hidden : Nat → Bool} {draft : Draft} (free : hidden draft.size = false) (statement : String) :
    skeleton hidden (draft.pushLine statement).lines =
      skeleton hidden draft.lines ++ [indentation draft.level ++ statement].filter isStructural := by
  rw [pushLine, skeleton_push, free]
  rfl

theorem skeleton_pushBlank (hidden : Nat → Bool) (draft : Draft) :
    skeleton hidden draft.pushBlank.lines = skeleton hidden draft.lines := by
  rw [pushBlank, skeleton_push, List.filter_cons_of_neg (by rw [isStructural_empty]; decide)]
  simp

theorem skeleton_put (hidden : Nat → Bool) (draft : Draft) (piece : Piece) :
    skeleton hidden (draft.put piece).lines = skeleton hidden draft.lines := by
  have appended : ∀ piece, skeleton hidden (draft.append piece).lines = skeleton hidden draft.lines := by
    intro piece
    rw [skeleton_lines]
    unfold append
    split
    next statement opened =>
      split
      · exact (skeleton_lines hidden draft).symm
      · change skeleton hidden draft.close.finished.toList = _
        rw [finished_close]
    next => exact (skeleton_lines hidden draft).symm
  cases piece with
  | expr source => exact appended _
  | text content =>
    change skeleton hidden (draft.appendText content).lines = _
    unfold appendText
    split
    · rfl
    · exact appended _

end Draft

end NimTemplate.Nim

namespace NimTemplate.Compile

open Nim (Proceeds)

/-- A line that lies in a definition of a dropped name. -/
def MixinTable.hides (table : MixinTable) (dropped : String → Bool) (index : Nat) : Bool :=
  table.entries.any fun entry => dropped entry.1 && entry.2.definitions.any (·.contains index)

theorem MixinTable.hides_iff (table : MixinTable) (dropped : String → Bool) (index : Nat) :
    table.hides dropped index ↔ ∃ name span, table.Records name span ∧ dropped name ∧ span.contains index := by
  simp only [hides, List.any_eq_true, Bool.and_eq_true, Prod.exists, Records]
  constructor
  · rintro ⟨name, entry, member, isDropped, span, recorded, inside⟩
    exact ⟨name, span, ⟨entry, member, recorded⟩, isDropped, inside⟩
  · rintro ⟨name, span, ⟨entry, member, recorded⟩, isDropped, inside⟩
    exact ⟨name, entry, member, isDropped, span, recorded, inside⟩

theorem MixinTable.hides_addDefinition (table : MixinTable) (dropped : String → Bool) (name : String) (span : Nim.Span)
    (index : Nat) : (table.addDefinition name span).hides dropped index =
      (table.hides dropped index || (dropped name && span.contains index)) := by
  rw [Bool.eq_iff_iff, Bool.or_eq_true, Bool.and_eq_true, hides_iff, hides_iff]
  simp only [records_addDefinition]
  constructor
  · rintro ⟨other, range, old | ⟨rfl, rfl⟩, isDropped, inside⟩
    · exact .inl ⟨other, range, old, isDropped, inside⟩
    · exact .inr ⟨isDropped, inside⟩
  · rintro (⟨other, range, old, isDropped, inside⟩ | ⟨isDropped, inside⟩)
    · exact ⟨other, range, .inl old, isDropped, inside⟩
    · exact ⟨name, span, .inr ⟨rfl, rfl⟩, isDropped, inside⟩

def State.skeleton (state : State) (dropped : String → Bool) : List String :=
  Nim.skeleton (state.mixins.hides dropped) state.draft.lines

/-- Definitions take lines that are there. -/
def State.IsBounded (state : State) : Prop :=
  ∀ name span, state.mixins.Records name span → span.stop ≤ state.draft.size

theorem State.IsBounded.hides {state : State} (bounded : state.IsBounded) (dropped : String → Bool) {index : Nat}
    (behind : state.draft.size ≤ index) : state.mixins.hides dropped index = false := by
  rw [← Bool.not_eq_true, MixinTable.hides_iff]
  rintro ⟨name, span, recorded, _, inside⟩
  have stop := bounded name span recorded
  have before := (Nim.Span.contains_iff.mp inside).2
  omega

/-- From one state to another by lines of which the given ones are structural and not dropped.
Definitions that are recorded on the way lie in what was added. -/
structure Outlines (dropped : String → Bool) (before : State) (lines : List String) (after : State) : Prop where
  grows : before.draft.Grows after.draft
  kept : ∀ name span, before.mixins.Records name span → after.mixins.Records name span
  fresh : ∀ name span, after.mixins.Records name span → before.mixins.Records name span ∨
    (before.draft.size ≤ span.start ∧ span.stop ≤ after.draft.size)
  shown : before.IsBounded → after.skeleton dropped = before.skeleton dropped ++ lines

namespace Outlines

variable {dropped : String → Bool}

theorem isBounded {before after : State} {lines : List String} (outlines : Outlines dropped before lines after)
    (bounded : before.IsBounded) : after.IsBounded := by
  intro name span recorded
  rcases outlines.fresh name span recorded with old | new
  · exact Nat.le_trans (bounded name span old) outlines.grows.size
  · exact new.2

theorem trans {before between after : State} {first rest : List String} (here : Outlines dropped before first between)
    (later : Outlines dropped between rest after) : Outlines dropped before (first ++ rest) after where
  grows := here.grows.trans later.grows
  kept name span recorded := later.kept name span (here.kept name span recorded)
  fresh name span recorded := by
    rcases later.fresh name span recorded with old | new
    · rcases here.fresh name span old with oldest | made
      · exact .inl oldest
      · exact .inr ⟨made.1, Nat.le_trans made.2 later.grows.size⟩
    · exact .inr ⟨Nat.le_trans here.grows.size new.1, new.2⟩
  shown bounded := by
    rw [later.shown (here.isBounded bounded), here.shown bounded, List.append_assoc]

/-- Lines that were there before are hidden as before. -/
theorem hides_of_lt {before after : State} {lines : List String} (outlines : Outlines dropped before lines after)
    {index : Nat} (early : index < before.draft.size) :
    after.mixins.hides dropped index = before.mixins.hides dropped index := by
  rw [Bool.eq_iff_iff, MixinTable.hides_iff, MixinTable.hides_iff]
  constructor
  · rintro ⟨name, span, recorded, isDropped, inside⟩
    rcases outlines.fresh name span recorded with old | ⟨behind, _⟩
    · exact ⟨name, span, old, isDropped, inside⟩
    · have starts := (Nim.Span.contains_iff.mp inside).1
      omega
  · rintro ⟨name, span, recorded, isDropped, inside⟩
    exact ⟨name, span, outlines.kept name span recorded, isDropped, inside⟩

/-- A change that records no definition. -/
theorem quiet {before after : State} {lines : List String} (grows : before.draft.Grows after.draft)
    (records : ∀ name span, after.mixins.Records name span ↔ before.mixins.Records name span)
    (shown : ∀ hidden : Nat → Bool, (∀ index, before.draft.size ≤ index → hidden index = false) →
      Nim.skeleton hidden after.draft.lines = Nim.skeleton hidden before.draft.lines ++ lines) :
    Outlines dropped before lines after where
  grows := grows
  kept name span recorded := (records name span).mpr recorded
  fresh name span recorded := .inl ((records name span).mp recorded)
  shown bounded := by
    have same : after.mixins.hides dropped = before.mixins.hides dropped := by
      funext index
      rw [Bool.eq_iff_iff, MixinTable.hides_iff, MixinTable.hides_iff]
      simp only [records]
    rw [State.skeleton, same]
    exact shown _ fun index behind => bounded.hides dropped behind

theorem refl (state : State) : Outlines dropped state [] state :=
  quiet (.refl _) (fun _ _ => Iff.rfl) fun _ _ => by rw [List.append_nil]

theorem put (context : Context) (state : State) (site : Site) : Outlines dropped state [] (state.put context site) := by
  refine quiet (grows_put state context site) (fun _ _ => Iff.rfl) fun hidden _ => ?_
  rw [List.append_nil]
  exact Nim.Draft.skeleton_put _ _ _

theorem line (state : State) (statement : String) :
    Outlines dropped state ([Nim.indentation state.draft.level ++ statement].filter Nim.isStructural)
      (state.line statement) := by
  refine quiet (.push _ _) (fun _ _ => Iff.rfl) fun hidden free => ?_
  exact Nim.Draft.skeleton_pushLine (free _ (Nat.le_refl _)) statement

theorem blank (state : State) : Outlines dropped state [] state.blank := by
  refine quiet (.push _ _) (fun _ _ => Iff.rfl) fun hidden _ => ?_
  rw [List.append_nil]
  exact Nim.Draft.skeleton_pushBlank hidden state.draft

theorem indent (state : State) : Outlines dropped state [] state.indent :=
  quiet (.indent _) (fun _ _ => Iff.rfl) fun _ _ => by rw [List.append_nil]; rfl

theorem dedent (state : State) : Outlines dropped state [] state.dedent :=
  quiet (.dedent _) (fun _ _ => Iff.rfl) fun _ _ => by rw [List.append_nil]; rfl

theorem nested {state inside : State} {lines : List String} (outlines : Outlines dropped state.indent lines inside) :
    Outlines dropped state lines inside.dedent := by
  have whole := (indent state).trans (outlines.trans (dedent inside))
  rwa [List.append_nil] at whole

theorem body {state inside : State} {lines : List String} (outlines : Outlines dropped state.indent lines inside) :
    Outlines dropped state lines (state.endBody inside) := by
  unfold State.endBody
  split
  · have filler : Outlines dropped inside _ (inside.line "discard") := line inside "discard"
    rw [List.filter_cons_of_neg (by rw [Nim.isStructural_discard]; decide)] at filler
    have whole := outlines.trans filler
    rw [List.filter_nil, List.append_nil] at whole
    exact whole.nested
  · exact outlines.nested

end Outlines

mutual

/-- The structural lines of a step at a level, without the definitions of dropped names. -/
def Step.skeleton (context : Context) (dropped : String → Bool) : Step → Nat → List String
  | .line statement, level => [Nim.indentation level ++ statement].filter Nim.isStructural
  | .nested steps, level | .body steps, level => skeletonAll context dropped steps (level + 1)
  | .mixin mixin steps, level =>
    if !mixin.call && dropped (resolvedName context mixin) then []
    else [Nim.indentation level ++ mixinLine mixin (resolvedName context mixin)].filter Nim.isStructural ++
      skeletonAll context dropped steps (level + 1)
  | .visit _ steps, level => skeletonAll context dropped steps level
  | _, _ => []

def skeletonAll (context : Context) (dropped : String → Bool) : List Step → Nat → List String
  | [], _ => []
  | step :: rest, level => step.skeleton context dropped level ++ skeletonAll context dropped rest level

end

namespace Outlines

variable {dropped : String → Bool}

/-- A mixin starts with its line; a note before it is not structural. -/
theorem enterMixin (state : State) (context : Context) (mixin : Mixin Node) :
    Outlines dropped state
      ([Nim.indentation state.draft.level ++ mixinLine mixin (resolvedName context mixin)].filter Nim.isStructural)
      (state.enterMixin context mixin) := by
  refine quiet (grows_enterMixin state context mixin) (State.records_enterMixin state context mixin) ?_
  intro hidden free
  obtain ⟨called, same, started⟩ := enterMixin_eq state context mixin
  rw [same]
  change Nim.skeleton hidden (called.draft.pushLine _).lines = _
  rcases started with here | ⟨merged, here⟩
  · rw [here]
    exact Nim.Draft.skeleton_pushLine (free _ (Nat.le_refl _)) _
  · have size : state.draft.size ≤ (state.draft.pushLine ("# FIXME unported mixin attributes: " ++ merged)).size :=
      (Nim.Draft.Grows.push _ _).size
    rw [here, Nim.Draft.skeleton_pushLine (free _ size), Nim.Draft.skeleton_pushLine (free _ (Nat.le_refl _)),
      List.filter_cons_of_neg (by rw [Nim.isStructural_note]; decide), List.filter_nil, List.append_nil]
    rw [Nim.Draft.pushLine, Nim.Draft.level_push]

/-- The definition of a name takes all lines since it was begun. If the name is dropped, none of
them is left. -/
theorem definition {state inside : State} {lines : List String} (name : String)
    (ended : Outlines dropped state lines inside) (settled : state.draft.lines <+: inside.draft.lines) :
    Outlines dropped state (if dropped name then [] else lines)
      { inside.blank with
        mixins := inside.mixins.addDefinition name ⟨state.draft.size, inside.blank.draft.size⟩ } where
  grows := ended.grows.trans (.push _ _)
  kept other span recorded := (MixinTable.records_addDefinition ..).mpr (.inl (ended.kept other span recorded))
  fresh other span recorded := by
    rcases (MixinTable.records_addDefinition ..).mp recorded with old | ⟨_, rfl⟩
    · rcases ended.fresh other span old with oldest | made
      · exact .inl oldest
      · exact .inr ⟨made.1, Nat.le_trans made.2 (Nim.Draft.Grows.push _ _).size⟩
    · exact .inr ⟨Nat.le_refl _, Nat.le_refl _⟩
  shown bounded := by
    have hides := inside.mixins.hides_addDefinition dropped name ⟨state.draft.size, inside.blank.draft.size⟩
    change Nim.skeleton ((inside.mixins.addDefinition name _).hides dropped) inside.blank.draft.lines = _
    generalize (inside.mixins.addDefinition name _).hides dropped = hidden at hides
    split
    next isDropped =>
      obtain ⟨added, split⟩ := settled
      have lines : inside.blank.draft.lines = state.draft.lines ++ (added ++ [""]) := by
        rw [← List.append_assoc, split]
        exact Nim.Draft.lines_push _ _
      have early : Nim.skeleton hidden state.draft.lines = state.skeleton dropped := by
        refine Nim.skeleton_congr fun index early => ?_
        rw [← Nim.Draft.size_eq_length] at early
        have outside : (⟨state.draft.size, inside.blank.draft.size⟩ : Nim.Span).contains index = false := by
          rw [← Bool.not_eq_true, Nim.Span.contains_iff]
          exact fun range => absurd early (Nat.not_lt.mpr range.1)
        rw [hides, ended.hides_of_lt early, outside, Bool.and_false, Bool.or_false]
      have late : Nim.skeleton (fun index => hidden (index + state.draft.lines.length)) (added ++ [""]) = [] := by
        refine Nim.skeleton_of_hidden fun index behind => ?_
        rw [hides, Bool.or_eq_true, Bool.and_eq_true, Nim.Span.contains_iff]
        refine .inr ⟨isDropped, ?_⟩
        rw [Nim.Draft.size_eq_length, Nim.Draft.size_eq_length, lines, List.length_append]
        dsimp only
        omega
      rw [lines, Nim.skeleton_append, early, late]
    next left =>
      have same : hidden = inside.mixins.hides dropped := by
        funext index
        rw [hides, Bool.eq_false_iff.mpr left, Bool.false_and, Bool.or_false]
      rw [same, ← ended.shown bounded]
      exact Nim.Draft.skeleton_pushBlank _ _

/-- The lines of a mixin as a whole. -/
theorem mixin {state : State} {context : Context} {mixin : Mixin Node} {steps : List Step} {lines : List String}
    (content : Outlines dropped (state.enterMixin context mixin).indent lines
      (runAll context steps (state.enterMixin context mixin).indent)) :
    Outlines dropped state
      (if !mixin.call && dropped (resolvedName context mixin) then []
        else [Nim.indentation state.draft.level ++ mixinLine mixin (resolvedName context mixin)].filter Nim.isStructural ++
          lines)
      ((Step.mixin mixin steps).run context state) := by
  have ended := (enterMixin state context mixin).trans content.body
  have grows := content.body.grows
  rw [Step.run, State.mixinEnd]
  generalize (state.enterMixin context mixin).endBody
    (runAll context steps (state.enterMixin context mixin).indent) = inside at ended grows
  cases call : mixin.call with
  | true =>
    simp only [Bool.not_true, Bool.false_and, Bool.false_eq_true, if_false, if_true]
    split
    · simpa using ended.trans (blank inside)
    · exact ended
  | false =>
    simp only [Bool.not_false, Bool.true_and, Bool.false_eq_true, if_false]
    refine definition _ ended ?_
    -- The head of a definition closes what was open before it.
    obtain ⟨head, started⟩ := draft_enterMixin_definition state context call
    rw [started] at grows
    exact ((state.draft.lines_prefix_push head).trans grows.kept).trans (Nim.Draft.finished_prefix_lines _)

end Outlines

private theorem outlines_cons {dropped : String → Bool} {context : Context} {step : Step} {rest : List Step}
    {state : State} (deep : 1 ≤ state.draft.level)
    (here : Outlines dropped state (step.skeleton context dropped state.draft.level) (step.run context state))
    (level : (step.run context state).draft.level = state.draft.level)
    (later : ∀ state : State, 1 ≤ state.draft.level →
      Outlines dropped state (skeletonAll context dropped rest state.draft.level) (runAll context rest state)) :
    Outlines dropped state (skeletonAll context dropped (step :: rest) state.draft.level)
      (runAll context (step :: rest) state) := by
  have others := later (step.run context state) (by rw [level]; exact deep)
  rw [level] at others
  exact here.trans others

/-- Carrying out a plan leaves the skeleton of the plan, whatever is put out between its lines. -/
theorem Built.outlines (dropped : String → Bool) (context : Context) {mode : Mode} {stops : List Stop} {steps : List Step}
    (built : Built mode stops steps) (state : State) (deep : 1 ≤ state.draft.level) :
    Outlines dropped state (skeletonAll context dropped steps state.draft.level) (runAll context steps state) := by
  induction built generalizing state with
  | nil => exact .refl state
  | put site _ later => exact outlines_cons deep (.put context state site) (Proceeds.put _ _).level later
  | line _ _ later => exact outlines_cons deep (.line state _) (Proceeds.line deep _).level later
  | mode next _ later =>
    have here : Outlines dropped state [] (state.inMode next) :=
      .quiet (.refl _) (fun _ _ => Iff.rfl) fun _ _ => by rw [List.append_nil]; rfl
    exact outlines_cons deep here rfl later
  | nested content _ inside later =>
    have level := ((Built.nested content .nil).proceeds context state deep).level
    exact outlines_cons deep (inside state.indent (Nat.le_add_left 1 _)).nested level later
  | @block _ _ _ steps rest head flush content _ inside later =>
    let ended := (state.line head).endBody (runAll context steps (state.line head).indent)
    have behind : ended.blank.draft.level = state.draft.level :=
      ((Built.block flush content .nil).proceeds context state deep).level
    have body := (inside (state.line head).indent (Nat.le_add_left 1 _)).body
    have others := later ended.blank (by rw [behind]; exact deep)
    have level : (state.line head).indent.draft.level = state.draft.level + 1 :=
      congrArg (· + 1) (Proceeds.line deep head).level
    rw [level] at body
    rw [behind] at others
    exact (Outlines.line state head).trans (body.trans ((Outlines.blank ended).trans others))
  | @mixin _ _ _ steps rest mixin without content _ inside later =>
    have behind := ((Built.mixin without content .nil).proceeds context state deep).level
    have body := inside (state.enterMixin context mixin).indent (Nat.le_add_left 1 _)
    have level : (state.enterMixin context mixin).indent.draft.level = state.draft.level + 1 :=
      congrArg (· + 1) (enterMixin_proceeds state context mixin deep).level
    rw [level] at body
    refine outlines_cons deep ?_ behind later
    rw [Step.skeleton]
    exact .mixin body
  | visit node content _ inside later =>
    exact outlines_cons deep (inside state deep) (content.proceeds context state deep).level later

/-! The names that are dropped at the end are those without calls. -/

def MixinTable.drops (table : MixinTable) (name : String) : Bool :=
  !table.computedCall && !table.entries.any fun entry => entry.1 == name && entry.2.used

theorem MixinTable.drops_iff (table : MixinTable) (name : String) :
    table.drops name ↔ table.computedCall = false ∧ ¬ table.Uses name := by
  have uses : (table.entries.any fun entry => entry.1 == name && entry.2.used) ↔ table.Uses name := by
    rw [List.any_eq_true]
    constructor
    · rintro ⟨⟨other, entry⟩, member, found⟩
      obtain ⟨rfl, used⟩ : other = name ∧ entry.used = true := by simpa using found
      exact ⟨entry, member, used⟩
    · rintro ⟨entry, member, used⟩
      exact ⟨(name, entry), member, by simpa using used⟩
  rw [drops, Bool.and_eq_true, Bool.not_eq_true', Bool.not_eq_true', ← uses, Bool.not_eq_true]

theorem MixinTable.any_unused {table : MixinTable} (distinct : table.Distinct) (index : Nat) :
    table.unused.any (·.contains index) = table.hides table.drops index := by
  rw [Bool.eq_iff_iff, hides_iff, List.any_eq_true]
  simp only [mem_unused distinct, drops_iff]
  constructor
  · rintro ⟨span, ⟨named, name, recorded, without⟩, inside⟩
    exact ⟨name, span, recorded, ⟨named, without⟩, inside⟩
  · rintro ⟨name, span, recorded, ⟨named, without⟩, inside⟩
    exact ⟨span, ⟨named, name, recorded, without⟩, inside⟩

theorem State.skeleton_finished {state : State} (distinct : state.mixins.Distinct) :
    state.finished.lines.filter Nim.isStructural = state.skeleton state.mixins.drops := by
  rw [state.lines_finished]
  simp only [MixinTable.any_unused distinct]
  rfl

/-- The structural lines that are left of a template are those of its plan. -/
theorem skeleton_of_planned {context : Context} {root : Node} {step : Step}
    (planned : planNode context root (.initial context.options) = .ok step) :
    (step.run context (.initial context.options)).finished.lines.filter Nim.isStructural =
      step.skeleton context (step.run context (.initial context.options)).mixins.drops 1 := by
  rw [State.skeleton_finished ((noted_of_planned planned).distinct List.nodup_nil)]
  have outlines := (built_of_planned planned).outlines (step.run context (.initial context.options)).mixins.drops context
    (.initial context.options) (Nat.le_refl 1)
  rw [runAll, runAll, skeletonAll, skeletonAll, List.append_nil] at outlines
  have none : (State.initial context.options).IsBounded := by
    rintro name span ⟨entry, member, _⟩
    cases member
  exact outlines.shown none

end NimTemplate.Compile
