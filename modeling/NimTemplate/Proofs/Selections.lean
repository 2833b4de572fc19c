import NimTemplate.Proofs.Balance
import NimTemplate.Proofs.BlockBodies

/-! Selections and their branches. A branch without a block leaves its label to the next one that
has a block, and the code has one arm for all labels that share a block. The default ends this:
what waits for a block is dropped there and falls to the `else` of the code, also where the
default has no block itself. -/

namespace NimTemplate

/-- What a branch is chosen by: its label as it is put out, nothing for the default. -/
def Branch.key (branch : Branch Node) : Option String :=
  if branch.isDefault then none else some (Nim.normalizeQuotes branch.label)

theorem Branch.key_of_isDefault {branch : Branch Node} (default : branch.isDefault) : branch.key = none := if_pos default

theorem Branch.isDefault_of_key {branch : Branch Node} (none : branch.key = none) : branch.isDefault := by
  by_contra named
  rw [key, if_neg named] at none
  cases none

theorem Branch.key_of_label {branch : Branch Node} (named : branch.isDefault = false) :
    branch.key = some (Nim.normalizeQuotes branch.label) := by
  simp [key, named]

namespace Compile

/-- One part of the code of a selection. The last kind is the one that is added without a default. -/
inductive Arm where
  | choice (labels : List String) (block : Option (Block Node))
  | otherwise (block : Option (Block Node))
  | nothing

namespace Arm

def labels : Arm → List String
  | choice labels _ => labels
  | _ => []

def block : Arm → Option (Block Node)
  | choice _ block | otherwise block => block
  | nothing => none

def isElse : Arm → Bool
  | choice _ _ => false
  | _ => true

def head : Arm → String
  | choice labels _ => branchHead labels
  | otherwise _ => "else:"
  | nothing => "else: discard"

def emit (context : Context) (state : State) : Arm → Except Error State
  | nothing => .ok (state.line "else: discard")
  | arm => do
    let inside ← emitBody context arm.block (state.line arm.head)
    pure inside.blank

end Arm

/-- The arms of branches, behind labels that wait for a block and perhaps a default. -/
def armsOf : List (Branch Node) → List String → Bool → List Arm
  | [], waiting, hasDefault =>
    (if waiting.isEmpty then [] else [.choice waiting none]) ++ (if hasDefault then [] else [.nothing])
  | branch :: rest, waiting, hasDefault =>
    if branch.isDefault then .otherwise branch.block :: armsOf rest [] true
    else
      let labels := waiting ++ [Nim.normalizeQuotes branch.label]
      match branch.block with
      | none => armsOf rest labels hasDefault
      | some block => .choice labels (some block) :: armsOf rest [] hasDefault

section

variable {branch : Branch Node} {rest : List (Branch Node)} {waiting : List String} {hasDefault : Bool}

theorem armsOf_default (default : branch.isDefault) :
    armsOf (branch :: rest) waiting hasDefault = .otherwise branch.block :: armsOf rest [] true := by
  rw [armsOf, if_pos default]

theorem armsOf_bare (named : branch.isDefault = false) (bare : branch.block = none) :
    armsOf (branch :: rest) waiting hasDefault =
      armsOf rest (waiting ++ [Nim.normalizeQuotes branch.label]) hasDefault := by
  rw [armsOf, if_neg (by simp [named]), bare]

theorem armsOf_block {block : Block Node} (named : branch.isDefault = false) (filled : branch.block = some block) :
    armsOf (branch :: rest) waiting hasDefault =
      .choice (waiting ++ [Nim.normalizeQuotes branch.label]) (some block) :: armsOf rest [] hasDefault := by
  rw [armsOf, if_neg (by simp [named]), filled]

end

/-- Branches are of three kinds: the default, those without a block, and those with one. -/
theorem branches_induction {motive : List (Branch Node) → Prop} (nil : motive [])
    (default : ∀ branch rest, branch.isDefault → motive rest → motive (branch :: rest))
    (bare : ∀ branch rest, branch.isDefault = false → branch.block = none → motive rest → motive (branch :: rest))
    (block : ∀ branch rest content, branch.isDefault = false → branch.block = some content → motive rest →
      motive (branch :: rest)) (branches : List (Branch Node)) : motive branches := by
  induction branches with
  | nil => exact nil
  | cons branch rest ih =>
    cases isDefault : branch.isDefault with
    | true => exact default branch rest isDefault ih
    | false =>
      cases content : branch.block with
      | none => exact bare branch rest isDefault content ih
      | some content => exact block branch rest _ isDefault content ih

theorem emitBranches_eq (context : Context) (branches : List (Branch Node)) (waiting : List String) (hasDefault : Bool)
    (state : State) :
    emitBranches context (branches.map .branch) waiting hasDefault state =
      (armsOf branches waiting hasDefault).foldlM (Arm.emit context) state := by
  induction branches generalizing waiting hasDefault state with
  | nil =>
    rw [List.map_nil, emitBranches, armsOf]
    cases waiting with
    | nil => cases hasDefault <;> rfl
    | cons label labels => cases hasDefault <;> rfl
  | cons branch rest ih =>
    obtain ⟨label, block, location⟩ := branch
    rw [List.map_cons, emitBranches, armsOf]
    cases (⟨label, block, location⟩ : Branch Node).isDefault with
    | true =>
      simp only [if_true, List.foldlM_cons, Arm.emit, bind_assoc, pure_bind, ih]
      rfl
    | false =>
      cases block with
      | none => exact ih _ _ _
      | some block =>
        simp only [Bool.false_eq_true, if_false, List.foldlM_cons, Arm.emit, bind_assoc, pure_bind, ih]
        rfl

/-! The lines of arms. -/

theorem Arm.isFlush_head (arm : Arm) : Nim.isFlush arm.head := by
  cases arm with
  | choice labels block => exact isFlush_branchHead labels
  | otherwise block =>
    change Nim.isFlush "else:"
    decide
  | nothing => decide

/-- The lines of an arm at a level: its head, deeper lines that its block is put out as in the
state behind the head, and an empty line. Without a block there is a statement that does nothing. -/
inductive Arm.Shows (context : Context) (level : Nat) : Arm → List String → Prop where
  | body {arm : Arm} {before after : State} {body : List String} (full : arm ≠ .nothing)
      (place : before.draft.level = level)
      (headed : before.draft.lines.getLast? = some (Nim.indentation level ++ arm.head))
      (emitted : emitBody context arm.block before = .ok after)
      (added : after.draft.lines = before.draft.lines ++ body)
      (filled : body ≠ [])
      (deeper : ∀ line ∈ body, line = "" ∨ (Nim.indentation (level + 1)).toList <+: line.toList)
      (discarded : arm.block = none → body = [Nim.indentation (level + 1) ++ "discard"]) :
      Shows context level arm ((Nim.indentation level ++ arm.head) :: (body ++ [""]))
  | nothing : Shows context level .nothing [Nim.indentation level ++ "else: discard"]

theorem emitBody_isFilled {context : Context} {block : Option (Block Node)} {state after : State} {head : String}
    (flush : Nim.isFlush head) (deep : 1 ≤ (state.line head).draft.level)
    (emitted : emitBody context block (state.line head) = .ok after) : Body.IsFilled ⟨state.line head, after⟩ := by
  cases block with
  | none =>
    obtain ⟨done, inside, same⟩ := bind_eq_ok emitted
    cases inside
    cases same
    exact isFilled_endBody flush deep (.refl _)
  | some block =>
    obtain ⟨done, inside, same⟩ := bind_eq_ok emitted
    cases same
    exact isFilled_endBody flush deep (emitNodes_proceeds (Nat.le_add_left 1 _) inside)

theorem lines_emitBody_none {context : Context} {state after : State} (emitted : emitBody context none state = .ok after) :
    after.draft.lines = state.draft.lines ++ [Nim.indentation (state.draft.level + 1) ++ "discard"] := by
  obtain ⟨done, inside, same⟩ := bind_eq_ok emitted
  cases inside
  cases same
  have empty : state.indent.draft.size = state.draft.size := rfl
  rw [if_pos empty]
  exact Nim.Draft.lines_push _ _

theorem Arm.emit_shows {context : Context} {arm : Arm} {state after : State} (deep : 1 ≤ state.draft.level)
    (emitted : arm.emit context state = .ok after) :
    after.draft.level = state.draft.level ∧
      ∃ lines, arm.Shows context state.draft.level lines ∧ after.draft.lines = state.draft.lines ++ lines := by
  by_cases full : arm = .nothing
  · subst full
    cases emitted
    exact ⟨Nim.Draft.level_push _ _, _, .nothing, Nim.Draft.lines_push _ _⟩
  · have level : (state.line arm.head).draft.level = state.draft.level := Nim.Draft.level_push _ _
    have unfolded : arm.emit context state =
        (emitBody context arm.block (state.line arm.head) >>= fun inside => pure inside.blank) := by
      cases arm with
      | choice | otherwise => rfl
      | nothing => exact absurd rfl full
    rw [unfolded] at emitted
    obtain ⟨inside, put, same⟩ := bind_eq_ok emitted
    cases same
    have started : 1 ≤ (state.line arm.head).draft.level := by omega
    obtain ⟨first, rest, _, added, deeper⟩ := (emitBody_isFilled arm.isFlush_head started put).lines
    rw [level] at deeper
    have proceeds := emitBody_proceeds started put
    have head : (state.line arm.head).draft.lines =
        state.draft.lines ++ [Nim.indentation state.draft.level ++ arm.head] := Nim.Draft.lines_push _ _
    refine ⟨?_, _, .body full level (by rw [head]; simp) put added (by simp) deeper ?_, ?_⟩
    · calc inside.blank.draft.level = inside.draft.level := Nim.Draft.level_push _ _
        _ = state.draft.level := proceeds.level.trans level
    · intro bare
      rw [bare] at put
      have discarded := lines_emitBody_none put
      rw [level] at discarded
      exact List.append_cancel_left (added.symm.trans discarded)
    · calc inside.blank.draft.lines = inside.draft.lines ++ [""] := Nim.Draft.lines_push _ _
        _ = _ := by
          rw [added, head]
          simp

theorem arms_show {context : Context} {arms : List Arm} {state after : State} (deep : 1 ≤ state.draft.level)
    (emitted : arms.foldlM (Arm.emit context) state = .ok after) :
    ∃ sections, List.Forall₂ (Arm.Shows context state.draft.level) arms sections ∧
      after.draft.lines = state.draft.lines ++ sections.flatten := by
  induction arms generalizing state with
  | nil =>
    cases emitted
    exact ⟨[], .nil, by simp⟩
  | cons arm rest ih =>
    rw [List.foldlM_cons] at emitted
    obtain ⟨between, here, later⟩ := bind_eq_ok emitted
    obtain ⟨level, lines, shows, added⟩ := Arm.emit_shows deep here
    obtain ⟨sections, others, behind⟩ := ih (by omega) later
    rw [level] at others
    refine ⟨lines :: sections, .cons shows others, ?_⟩
    rw [behind, added, List.flatten_cons, List.append_assoc]

/-! Which arm is taken. -/

def chosenArm (arms : List Arm) : Option String → Option Arm
  | some label => arms.find? (label ∈ ·.labels) <|> arms.find? Arm.isElse
  | none => arms.find? Arm.isElse

def fallPath (branches : List (Branch Node)) (key : Option String) : List (Branch Node) :=
  branches.dropWhile (·.key != key)

def holds (branch : Branch Node) : Bool := branch.isDefault || branch.block.isSome

/-- The block that the template selects: of the branches from the one with the key on, the first
that has a block gives it. -/
def sourceBlock (branches : List (Branch Node)) (key : Option String) : Option (Block Node) :=
  (fallPath branches key).findSome? (·.block)

/-- The block that the code selects: a default on the way gives its own, if it has one. -/
def heldBlock (branches : List (Branch Node)) (key : Option String) : Option (Block Node) :=
  ((fallPath branches key).find? holds).bind (·.block)

/-- What labels come to that wait before branches; nothing if they are dropped. -/
def awaited (branches : List (Branch Node)) : Option (Option (Block Node)) :=
  match branches.find? holds with
  | none => some none
  | some branch => if branch.isDefault then none else some branch.block

section

variable {branch : Branch Node} {rest : List (Branch Node)}

theorem fallPath_here {key : Option String} (same : branch.key = key) : fallPath (branch :: rest) key = branch :: rest :=
  List.dropWhile_cons_of_neg (by simp [same])

theorem fallPath_later {key : Option String} (other : branch.key ≠ key) : fallPath (branch :: rest) key = fallPath rest key :=
  List.dropWhile_cons_of_pos (by simpa using other)

theorem awaited_default (default : branch.isDefault) : awaited (branch :: rest) = none := by
  simp [awaited, holds, default]

theorem awaited_bare (named : branch.isDefault = false) (bare : branch.block = none) :
    awaited (branch :: rest) = awaited rest := by
  simp [awaited, holds, named, bare]

theorem awaited_block {block : Block Node} (named : branch.isDefault = false) (filled : branch.block = some block) :
    awaited (branch :: rest) = some (some block) := by
  simp [awaited, holds, named, filled]

end

/-- Arms list the labels that waited and those of the branches, in order, but for the ones that
are dropped. -/
theorem labels_sublist (branches : List (Branch Node)) (waiting : List String) (hasDefault : Bool) :
    ((armsOf branches waiting hasDefault).flatMap Arm.labels).Sublist (waiting ++ branches.filterMap Branch.key) := by
  induction branches using branches_induction generalizing waiting hasDefault with
  | nil => cases waiting <;> cases hasDefault <;> simp [armsOf, Arm.labels]
  | default branch rest default ih =>
    rw [armsOf_default default, List.filterMap_cons_none (Branch.key_of_isDefault default)]
    exact (ih [] true).trans (List.sublist_append_right _ _)
  | bare branch rest named bare ih =>
    rw [armsOf_bare named bare, List.filterMap_cons_some (Branch.key_of_label named)]
    simpa using ih (waiting ++ [Nim.normalizeQuotes branch.label]) hasDefault
  | block branch rest content named filled ih =>
    rw [armsOf_block named filled, List.flatMap_cons, List.filterMap_cons_some (Branch.key_of_label named),
      List.append_cons waiting (Nim.normalizeQuotes branch.label) (rest.filterMap Branch.key)]
    exact (ih [] hasDefault).append_left (waiting ++ [Nim.normalizeQuotes branch.label])

theorem find?_unlisted {branches : List (Branch Node)} {waiting : List String} {hasDefault : Bool} {label : String}
    (fresh : label ∉ waiting) (unknown : some label ∉ branches.map Branch.key) :
    (armsOf branches waiting hasDefault).find? (label ∈ ·.labels) = none := by
  apply List.find?_eq_none.mpr
  intro arm member listed
  have inside : label ∈ (armsOf branches waiting hasDefault).flatMap Arm.labels :=
    List.mem_flatMap.mpr ⟨arm, member, by simpa using listed⟩
  rcases List.mem_append.mp ((labels_sublist branches waiting hasDefault).subset inside) with waits | named
  · exact fresh waits
  · obtain ⟨branch, among, key⟩ := List.mem_filterMap.mp named
    exact unknown (List.mem_map.mpr ⟨branch, among, key⟩)

theorem block_of_waiting {branches : List (Branch Node)} {waiting : List String} {hasDefault : Bool} {label : String}
    (waits : label ∈ waiting) (unknown : some label ∉ branches.map Branch.key) :
    ((armsOf branches waiting hasDefault).find? (label ∈ ·.labels)).map Arm.block = awaited branches := by
  induction branches using branches_induction generalizing waiting with
  | nil =>
    have some : waiting.isEmpty = false := by
      cases waiting with
      | nil => cases waits
      | cons => rfl
    simp [armsOf, some, Arm.labels, waits, awaited, Arm.block]
  | default branch rest default _ =>
    rw [armsOf_default default, awaited_default default, List.find?_cons_of_neg (by simp [Arm.labels]),
      find?_unlisted (by simp) (List.not_mem_of_not_mem_cons unknown)]
    rfl
  | bare branch rest named bare ih =>
    rw [armsOf_bare named bare, awaited_bare named bare]
    exact ih (List.mem_append_left _ waits) (List.not_mem_of_not_mem_cons unknown)
  | block branch rest content named filled _ =>
    rw [armsOf_block named filled, awaited_block named filled, List.find?_cons_of_pos (by simp [Arm.labels, waits])]
    rfl

theorem block_of_label {branches : List (Branch Node)} {waiting : List String} {hasDefault : Bool} {label : String}
    (distinct : (branches.map Branch.key).Nodup) (fresh : label ∉ waiting) (known : some label ∈ branches.map Branch.key) :
    ((armsOf branches waiting hasDefault).find? (label ∈ ·.labels)).map Arm.block =
      awaited (fallPath branches (some label)) := by
  induction branches generalizing waiting hasDefault with
  | nil => cases known
  | cons branch rest ih =>
    obtain ⟨once, others⟩ := List.nodup_cons.mp distinct
    by_cases here : branch.key = some label
    · have default : branch.isDefault = false := by
        apply Bool.eq_false_iff.mpr
        intro default
        rw [Branch.key_of_isDefault default] at here
        cases here
      obtain rfl : Nim.normalizeQuotes branch.label = label := by
        simpa [Branch.key_of_label default] using here
      rw [fallPath_here here]
      rw [here] at once
      cases block : branch.block with
      | none =>
        rw [armsOf_bare default block, awaited_bare default block]
        exact block_of_waiting (by simp) once
      | some content =>
        rw [armsOf_block default block, awaited_block default block, List.find?_cons_of_pos (by simp [Arm.labels])]
        rfl
    · have later : some label ∈ rest.map Branch.key := by
        rcases List.mem_cons.mp known with first | among
        · exact absurd first.symm here
        · exact among
      rw [fallPath_later here]
      cases default : branch.isDefault with
      | true =>
        rw [armsOf_default default, List.find?_cons_of_neg (by simp [Arm.labels])]
        exact ih others (by simp) later
      | false =>
        have other : label ≠ Nim.normalizeQuotes branch.label := by
          rintro rfl
          exact here (Branch.key_of_label default)
        cases block : branch.block with
        | none =>
          rw [armsOf_bare default block]
          exact ih others (by simp [fresh, other]) later
        | some content =>
          rw [armsOf_block default block, List.find?_cons_of_neg (by simp [Arm.labels, fresh, other])]
          exact ih others (by simp) later

theorem block_of_default (branches : List (Branch Node)) (waiting : List String) :
    ((armsOf branches waiting false).find? Arm.isElse).map Arm.block = some (heldBlock branches none) := by
  induction branches using branches_induction generalizing waiting with
  | nil => cases waiting <;> rfl
  | default branch rest default _ =>
    rw [armsOf_default default, List.find?_cons_of_pos (by rfl), heldBlock, fallPath_here (Branch.key_of_isDefault default),
      List.find?_cons_of_pos (by simp [holds, default])]
    rfl
  | bare branch rest named bare ih =>
    rw [armsOf_bare named bare, heldBlock, fallPath_later (by simp [Branch.key_of_label named])]
    exact ih _
  | block branch rest content named filled ih =>
    rw [armsOf_block named filled, List.find?_cons_of_neg (by simp [Arm.isElse]), heldBlock,
      fallPath_later (by simp [Branch.key_of_label named])]
    exact ih _

theorem fallPath_of_default {branches behind : List (Branch Node)} {branch : Branch Node}
    (distinct : (branches.map Branch.key).Nodup) (suffix : branch :: behind <:+ branches) (default : branch.isDefault) :
    fallPath branches none = branch :: behind := by
  obtain ⟨earlier, rfl⟩ := suffix
  have key := Branch.key_of_isDefault default
  have others : ∀ other ∈ earlier, other.key ≠ none := by
    intro other member same
    rw [List.map_append, List.nodup_append] at distinct
    exact distinct.2.2 _ (List.mem_map_of_mem member) _ (List.mem_map_of_mem List.mem_cons_self) (same.trans key.symm)
  rw [fallPath, List.dropWhile_append_of_pos (by simpa using others)]
  exact fallPath_here key

theorem block_chosen {branches : List (Branch Node)} {key : Option String}
    (distinct : (branches.map Branch.key).Nodup) (known : key ∈ none :: branches.map Branch.key) :
    (chosenArm (armsOf branches [] false) key).map Arm.block = some (heldBlock branches key) := by
  cases key with
  | none => exact block_of_default branches []
  | some label =>
    have member : some label ∈ branches.map Branch.key := by simpa using known
    have listed : ((armsOf branches [] false).find? (label ∈ ·.labels)).map Arm.block = _ :=
      block_of_label distinct List.not_mem_nil member
    rw [chosenArm, heldBlock]
    cases first : (fallPath branches (some label)).find? holds with
    | none =>
      rw [awaited, first] at listed
      obtain ⟨arm, found, block⟩ := Option.map_eq_some_iff.mp listed
      rw [found]
      exact congrArg some block
    | some branch =>
      rw [awaited, first] at listed
      cases default : branch.isDefault with
      | true =>
        -- The label was dropped at the default, which is the one that the `else` stands for.
        obtain ⟨_, skipped, behind, split, _⟩ := List.find?_eq_some_iff_append.mp first
        have suffix : branch :: behind <:+ branches :=
          .trans ⟨skipped, split.symm⟩ (List.dropWhile_suffix _)
        have dropped : (armsOf branches [] false).find? (label ∈ ·.labels) = none := by
          simpa [default] using listed
        have same : heldBlock branches none = branch.block := by
          rw [heldBlock, fallPath_of_default distinct suffix default, List.find?_cons_of_pos (by simp [holds, default])]
          rfl
        rw [dropped]
        exact (block_of_default branches []).trans (congrArg some same)
      | false =>
        simp only [default, Bool.false_eq_true, if_false] at listed
        obtain ⟨arm, found, block⟩ := Option.map_eq_some_iff.mp listed
        rw [found]
        exact congrArg some block

/-- The first block is taken where no default without a block stands before one that has one. -/
theorem held_eq_first {branches : List (Branch Node)}
    (covered : ∀ branch behind, branch :: behind <:+ branches → branch.isDefault → branch.block = none →
      ∀ later ∈ behind, later.block = none) :
    (branches.find? holds).bind (·.block) = branches.findSome? (·.block) := by
  induction branches using branches_induction with
  | nil => rfl
  | default branch rest default _ =>
    rw [List.find?_cons_of_pos (by simp [holds, default]), List.findSome?_cons]
    cases block : branch.block with
    | some content => exact block
    | none =>
      have bare := covered branch rest (List.suffix_refl _) default block
      exact block.trans (List.findSome?_eq_none_iff.mpr bare).symm
  | bare branch rest named bare ih =>
    rw [List.find?_cons_of_neg (by simp [holds, named, bare]), List.findSome?_cons, bare]
    exact ih fun later behind suffix => covered later behind (suffix.trans (List.suffix_cons _ _))
  | block branch rest content named filled _ =>
    rw [List.find?_cons_of_pos (by simp [holds, filled]), List.findSome?_cons, filled]
    exact filled

theorem count_isElse {branches : List (Branch Node)} {waiting : List String} {hasDefault : Bool}
    (distinct : (branches.map Branch.key).Nodup) (single : hasDefault → none ∉ branches.map Branch.key) :
    (armsOf branches waiting hasDefault).countP Arm.isElse = if hasDefault then 0 else 1 := by
  induction branches using branches_induction generalizing waiting hasDefault with
  | nil => cases waiting <;> cases hasDefault <;> rfl
  | default branch rest default ih =>
    have key := Branch.key_of_isDefault default
    obtain ⟨once, others⟩ := List.nodup_cons.mp distinct
    rw [key] at once
    have first : hasDefault = false := by
      apply Bool.eq_false_iff.mpr
      intro met
      exact single met (List.mem_cons.mpr (.inl key.symm))
    rw [armsOf_default default, List.countP_cons_of_pos (by rfl), ih others (fun _ => once), first]
    rfl
  | bare branch rest named bare ih =>
    rw [armsOf_bare named bare]
    exact ih (List.nodup_cons.mp distinct).2 fun met => List.not_mem_of_not_mem_cons (single met)
  | block branch rest content named filled ih =>
    rw [armsOf_block named filled, List.countP_cons_of_neg (by simp [Arm.isElse])]
    exact ih (List.nodup_cons.mp distinct).2 fun met => List.not_mem_of_not_mem_cons (single met)

theorem armsOf_ne_nil {branches : List (Branch Node)} {waiting : List String} {hasDefault : Bool}
    (some : waiting ≠ [] ∨ branches ≠ []) : armsOf branches waiting hasDefault ≠ [] := by
  induction branches using branches_induction generalizing waiting with
  | nil =>
    have waits : waiting ≠ [] := by simpa using some
    simp [armsOf, waits]
  | default branch rest default _ => simp [armsOf_default default]
  | bare branch rest named bare ih =>
    rw [armsOf_bare named bare]
    exact ih (.inl (by simp))
  | block branch rest content named filled _ => simp [armsOf_block named filled]

private theorem getLast?_cons_of_ne_nil {arm : Arm} {arms : List Arm} (some : arms ≠ []) :
    (arm :: arms).getLast? = arms.getLast? := by
  obtain ⟨next, rest, rfl⟩ := List.exists_cons_of_ne_nil some
  exact List.getLast?_cons_cons

/-- The `else` is the last arm if nothing stands behind the default. -/
theorem last_isElse {branches : List (Branch Node)} {waiting : List String} (distinct : (branches.map Branch.key).Nodup) :
    (armsOf branches waiting false).getLast?.any Arm.isElse = (fallPath branches none).tail.isEmpty := by
  induction branches using branches_induction generalizing waiting with
  | nil => cases waiting <;> rfl
  | default branch rest default _ =>
    obtain ⟨once, others⟩ := List.nodup_cons.mp distinct
    rw [armsOf_default default, fallPath_here (Branch.key_of_isDefault default), List.tail_cons]
    rw [Branch.key_of_isDefault default] at once
    cases rest with
    | nil => rfl
    | cons next rest =>
      have none : (armsOf (next :: rest) [] true).countP Arm.isElse = 0 := count_isElse others (fun _ => once)
      rw [getLast?_cons_of_ne_nil (armsOf_ne_nil (.inr (by simp)))]
      apply Bool.eq_false_iff.mpr
      intro last
      obtain ⟨arm, found, isElse⟩ := Option.any_eq_true _ _ |>.mp last
      exact List.countP_eq_zero.mp none arm (List.mem_of_getLast? found) isElse
  | bare branch rest named bare ih =>
    rw [armsOf_bare named bare, fallPath_later (by simp [Branch.key_of_label named])]
    exact ih (List.nodup_cons.mp distinct).2
  | block branch rest content named filled ih =>
    have others := (List.nodup_cons.mp distinct).2
    have one : (armsOf rest [] false).countP Arm.isElse = 1 := count_isElse others (by simp)
    have more : armsOf rest [] false ≠ [] := by
      intro empty
      rw [empty] at one
      cases one
    rw [armsOf_block named filled, getLast?_cons_of_ne_nil more, fallPath_later (by simp [Branch.key_of_label named])]
    exact ih others

/-- Template and code select the same if no default without a block stands before a block. -/
theorem selects_iff {branches : List (Branch Node)} (distinct : (branches.map Branch.key).Nodup) :
    (∀ key ∈ none :: branches.map Branch.key, heldBlock branches key = sourceBlock branches key) ↔
      ∀ default behind, fallPath branches none = default :: behind → default.block = none →
        ∀ later ∈ behind, later.block = none := by
  constructor
  · intro same default behind path bare
    have key : default.isDefault := by
      have stop := List.head?_dropWhile_not (·.key != none) branches
      rw [show branches.dropWhile (·.key != none) = default :: behind from path] at stop
      exact Branch.isDefault_of_key (by simpa using stop)
    have first : heldBlock branches none = none := by
      rw [heldBlock, path, List.find?_cons_of_pos (by simp [holds, key])]
      exact bare
    have source := (same none List.mem_cons_self).symm.trans first
    rw [sourceBlock, path, List.findSome?_cons, bare] at source
    exact List.findSome?_eq_none_iff.mp source
  · intro covered key _
    apply held_eq_first
    intro default behind suffix isDefault
    have path := fallPath_of_default distinct (suffix.trans (List.dropWhile_suffix _)) isDefault
    exact covered default behind path

/-- A selection has one arm after the other below its head. No label is listed twice, and one arm
is an `else`. The block of the arm for a key, also for none, is the one of the first branch from
there on that has a block or is the default. So the `else` is last only if the default is, and the
block is the one that the template selects only if a default without a block has no block behind
it. -/
theorem selection_chooses_by_key {context : Context} {state after : State} {subject : String}
    {branches : List (Branch Node)} {place location : Location} (reached : Reached context state)
    (distinct : (branches.map Branch.key).Nodup)
    (emitted : emitNode context (.selection ⟨subject, ⟨branches.map .branch, place⟩, location⟩) state = .ok after) :
    let arms := armsOf branches [] false
    let keys := none :: branches.map Branch.key
    (∃ sections, List.Forall₂ (Arm.Shows context state.draft.level) arms sections ∧
      after.draft.lines = state.draft.lines ++
        (Nim.indentation state.draft.level ++ "case (" ++ Nim.normalizeQuotes subject ++ ")") :: sections.flatten) ∧
    (arms.flatMap Arm.labels).Nodup ∧ arms.countP Arm.isElse = 1 ∧
    (∀ key ∈ keys, (chosenArm arms key).map Arm.block = some (heldBlock branches key)) ∧
    (arms.getLast?.any Arm.isElse = true ↔ (fallPath branches none).tail = []) ∧
    ((∀ key ∈ keys, (chosenArm arms key).map Arm.block = some (sourceBlock branches key)) ↔
      ∀ default behind, fallPath branches none = default :: behind → default.block = none →
        ∀ later ∈ behind, later.block = none) := by
  intro arms keys
  have chosen : ∀ key ∈ keys, (chosenArm arms key).map Arm.block = some (heldBlock branches key) :=
    fun key known => block_chosen distinct known
  refine ⟨?_, ?_, count_isElse distinct (by simp), chosen, ?_, ?_⟩
  · rw [emitNode, emitBranches_eq] at emitted
    have deep : 1 ≤ state.draft.level := reached.isSound.deep
    have level : (state.line ("case (" ++ Nim.normalizeQuotes subject ++ ")")).draft.level = state.draft.level :=
      Nim.Draft.level_push _ _
    have head : (state.line ("case (" ++ Nim.normalizeQuotes subject ++ ")")).draft.lines = state.draft.lines ++
        [Nim.indentation state.draft.level ++ ("case (" ++ Nim.normalizeQuotes subject ++ ")")] := Nim.Draft.lines_push _ _
    obtain ⟨sections, shown, added⟩ := arms_show (by omega) emitted
    rw [level] at shown
    refine ⟨sections, shown, ?_⟩
    rw [added, head]
    simp [String.append_assoc]
  · have labels := labels_sublist branches [] false
    have keyed : ((branches.map Branch.key).filterMap id).Nodup := by
      apply List.Nodup.filterMap _ distinct
      rintro first second label ⟨⟩ ⟨⟩
      rfl
    rw [List.filterMap_map] at keyed
    exact labels.nodup keyed
  · rw [last_isElse distinct, List.isEmpty_iff]
  · rw [← selects_iff distinct]
    constructor
    · intro same key known
      exact Option.some.inj ((chosen key known).symm.trans (same key known))
    · intro same key known
      rw [chosen key known, same key known]

def branchOf (label : String) (content : Option String) : Branch Node where
  label := label
  block := content.map fun text => { nodes := [.text text {}] }

def selectionOf (branches : List (Branch Node)) : Node :=
  .selection { subject := "n", block := { nodes := branches.map .branch } }

def letterBranches : List (Branch Node) :=
  [branchOf "'a'" none, branchOf "'b'" (some "letter"), branchOf "default" (some "other")]

private theorem key_letterBranches : letterBranches.map Branch.key = [some "\"a\"", some "\"b\"", none] := by
  conv => lhs; cbv

theorem letters_choose_by_key :
    ∃ after, emitNode ⟨{}, .none⟩ (selectionOf letterBranches) (.initial {}) = .ok after ∧
      after.draft.lines = ["  case (n)", "  of \"a\", \"b\":", "    jade_buf.add(\"letter\")", "",
        "  else:", "    jade_buf.add(\"other\")", ""] ∧
      (∀ key ∈ [none, some "\"a\"", some "\"b\""],
        (chosenArm (armsOf letterBranches [] false) key).map Arm.block = some (sourceBlock letterBranches key)) ∧
      (armsOf letterBranches [] false).getLast?.any Arm.isElse := by
  have visited : .visit (selectionOf letterBranches) (.initial {}) ∈
      nodeEvents ⟨{}, .none⟩ (selectionOf letterBranches) (.initial {}) := List.mem_cons_self
  have distinct : (letterBranches.map Branch.key).Nodup := by
    rw [key_letterBranches]
    decide
  have path : fallPath letterBranches none = [branchOf "default" (some "other")] := by
    conv => lhs; cbv
    rfl
  have lines : (emitNode ⟨{}, .none⟩ (selectionOf letterBranches) (.initial {})).map (·.draft.lines) =
      .ok ["  case (n)", "  of \"a\", \"b\":", "    jade_buf.add(\"letter\")", "",
        "  else:", "    jade_buf.add(\"other\")", ""] := by
    conv => lhs; cbv
  cases emitted : emitNode ⟨{}, .none⟩ (selectionOf letterBranches) (.initial {}) with
  | error error =>
    rw [emitted] at lines
    cases lines
  | ok after =>
    rw [emitted] at lines
    obtain ⟨-, -, -, -, last, same⟩ := selection_chooses_by_key (.event visited) distinct emitted
    refine ⟨after, rfl, Except.ok.inj lines, ?_, last.mpr (by rw [path]; rfl)⟩
    have chosen := same.mpr (by
      intro default behind split bare
      rw [path] at split
      cases split
      cases bare)
    rw [key_letterBranches] at chosen
    exact fun key member => chosen key (List.mem_append_left [none] member)

/-- A default without a block, with a label before it and a branch behind it. -/
def skippedBranches : List (Branch Node) :=
  [branchOf "1" none, branchOf "default" none, branchOf "2" (some "two")]

/-- The `else` stands before the last label, and neither the label before the default nor what
no label matches comes to the block behind it. -/
theorem bare_default_is_not_passed :
    (skippedBranches.map Branch.key).Nodup ∧
      (compile ⟨{}, .none⟩ (selectionOf skippedBranches)).map Output.source =
        .ok "  case (n)\n  else:\n    discard\n\n  of 2:\n    jade_buf.add(\"two\")\n" ∧
      (∀ key ∈ [none, some "1"],
        (chosenArm (armsOf skippedBranches [] false) key).map Arm.block = some none ∧
          sourceBlock skippedBranches key = some { nodes := [.text "two" {}] }) ∧
      (armsOf skippedBranches [] false).getLast?.any Arm.isElse = false := by
  refine ⟨?_, ?_, ?_, ?_⟩
  · have keys : skippedBranches.map Branch.key = [some "1", none, some "2"] := by
      conv => lhs; cbv
    rw [keys]
    decide
  · conv => lhs; cbv
  · intro key member
    simp only [List.mem_cons, List.not_mem_nil, or_false] at member
    rcases member with rfl | rfl
    all_goals
      constructor
      all_goals conv => lhs; cbv
  · conv => lhs; cbv

end Compile

end NimTemplate
