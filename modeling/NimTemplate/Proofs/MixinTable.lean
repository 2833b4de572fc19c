import Mathlib.Data.List.Nodup
import NimTemplate.Compile.MixinTable

/-! What the table of mixins holds under each change, seen name by name: the spans recorded for a
name, and whether it is called. -/

namespace NimTemplate.Compile.MixinTable

/-- The lines of a span are recorded as a definition of the name. -/
def Records (table : MixinTable) (name : String) (span : Nim.Span) : Prop :=
  ∃ entry, (name, entry) ∈ table.entries ∧ span ∈ entry.definitions

def Uses (table : MixinTable) (name : String) : Prop :=
  ∃ entry, (name, entry) ∈ table.entries ∧ entry.used

/-- Each name has one entry. -/
def Distinct (table : MixinTable) : Prop := (table.entries.map (·.1)).Nodup

/-- What a change adds to one entry is what it adds to the table. -/
private theorem exists_update (holds : MixinEntry → Prop) (added : Prop) (change : MixinEntry → MixinEntry)
    (fresh : ¬ holds ⟨false, []⟩) (changed : ∀ entry, holds (change entry) ↔ holds entry ∨ added)
    (entries : List (String × MixinEntry)) (name other : String) :
    (∃ entry, (other, entry) ∈ update change name entries ∧ holds entry) ↔
      (∃ entry, (other, entry) ∈ entries ∧ holds entry) ∨ (other = name ∧ added) := by
  induction entries with
  | nil => simp [update, changed, fresh]
  | cons first rest ih =>
    obtain ⟨key, entry⟩ := first
    simp only [update]
    split
    next same =>
      subst same
      simp only [List.mem_cons, Prod.mk.injEq, or_and_right, exists_or, and_assoc, exists_and_left,
        exists_eq_left, changed, and_or_left]
      exact or_right_comm
    next =>
      simp only [List.mem_cons, or_and_right, exists_or, ih]
      exact or_assoc.symm

theorem records_addDefinition (table : MixinTable) (name other : String) (span range : Nim.Span) :
    (table.addDefinition name span).Records other range ↔
      table.Records other range ∨ (other = name ∧ range = span) :=
  exists_update (range ∈ ·.definitions) (range = span) _ (by simp) (by simp) table.entries name other

theorem uses_markUsed (table : MixinTable) (name other : String) :
    (table.markUsed name).Uses other ↔ table.Uses other ∨ other = name := by
  have added := exists_update (·.used) True (fun entry => { entry with used := true }) (by simp) (by simp)
    table.entries name other
  rwa [and_true] at added

theorem records_markUsed (table : MixinTable) (name other : String) (range : Nim.Span) :
    (table.markUsed name).Records other range ↔ table.Records other range := by
  have kept := exists_update (range ∈ ·.definitions) False (fun entry => { entry with used := true })
    (by simp) (by simp) table.entries name other
  rwa [and_false, or_false] at kept

theorem uses_addDefinition (table : MixinTable) (name other : String) (span : Nim.Span) :
    (table.addDefinition name span).Uses other ↔ table.Uses other := by
  have kept := exists_update (·.used) False
    (fun entry => { entry with definitions := entry.definitions ++ [span] }) (by simp) (by simp)
    table.entries name other
  rwa [and_false, or_false] at kept

private theorem keys_update (change : MixinEntry → MixinEntry) (name : String) (entries : List (String × MixinEntry)) :
    (update change name entries).map (·.1) =
      if name ∈ entries.map (·.1) then entries.map (·.1) else entries.map (·.1) ++ [name] := by
  induction entries with
  | nil => simp [update]
  | cons first rest ih =>
    obtain ⟨key, entry⟩ := first
    simp only [update]
    split
    next same => simp [same]
    next different =>
      rw [List.map_cons, ih]
      have missing : name ≠ key := fun same => different same.symm
      simp only [List.map_cons, List.mem_cons, missing, false_or]
      split <;> simp

private theorem distinct_update {table : MixinTable} (distinct : table.Distinct) (change : MixinEntry → MixinEntry)
    (name : String) : ((update change name table.entries).map (·.1)).Nodup := by
  rw [keys_update]
  split
  · exact distinct
  next missing =>
    refine List.nodup_append.mpr ⟨distinct, by simp, ?_⟩
    intro key member other singleton same
    exact missing ((same.trans (List.mem_singleton.mp singleton)) ▸ member)

theorem distinct_markUsed {table : MixinTable} (distinct : table.Distinct) (name : String) :
    (table.markUsed name).Distinct := distinct_update distinct _ name

theorem distinct_addDefinition {table : MixinTable} (distinct : table.Distinct) (name : String) (span : Nim.Span) :
    (table.addDefinition name span).Distinct := distinct_update distinct _ name

/-- The spans that are emptied: those recorded under names without calls, unless a name was
computed. -/
theorem mem_unused {table : MixinTable} (distinct : table.Distinct) (span : Nim.Span) :
    span ∈ table.unused ↔ table.computedCall = false ∧ ∃ name, table.Records name span ∧ ¬ table.Uses name := by
  unfold unused
  cases table.computedCall with
  | true => simp
  | false =>
    simp only [Bool.false_eq_true, if_false, true_and, List.mem_flatMap, List.mem_filter, Bool.not_eq_true']
    constructor
    · rintro ⟨⟨name, entry⟩, ⟨member, unused⟩, recorded⟩
      refine ⟨name, ⟨entry, member, recorded⟩, ?_⟩
      rintro ⟨other, present, used⟩
      have same : entry = other := by
        simpa using List.inj_on_of_nodup_map distinct member present rfl
      rw [← same, unused] at used
      cases used
    · rintro ⟨name, ⟨entry, member, recorded⟩, without⟩
      refine ⟨(name, entry), ⟨member, ?_⟩, recorded⟩
      cases used : entry.used with
      | false => rfl
      | true => exact absurd ⟨entry, member, used⟩ without

end NimTemplate.Compile.MixinTable
