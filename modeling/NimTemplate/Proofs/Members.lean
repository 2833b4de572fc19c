import NimTemplate.Template.Reader

/-! Objects by the names they give values to. What may stand under a name, and whether the name may
be left out, is an entry; an object that gives every entry is read as its entries say, in whatever
order its members stand and whatever else it holds. -/

namespace NimTemplate.Json

/-- The values that members give to a name. -/
def valuesOf (name : String) (members : List (String × Json)) : List Json :=
  (members.filter (·.1 == name)).map Prod.snd

/-- A name, the values that may stand under it, and whether it may be left out. -/
structure Entry where
  name : String
  form : Json → Prop
  omissible : Prop

namespace Entry

/-- The name is given once, or left out where it may be. -/
def IsGiven (entry : Entry) (members : List (String × Json)) : Prop :=
  (∃ json, valuesOf entry.name members = [json] ∧ entry.form json) ∨
    valuesOf entry.name members = [] ∧ entry.omissible

def required (name : String) (form : Json → Prop) : Entry := ⟨name, form, False⟩

def defaulted (name : String) (form : Json → Prop) (isDefault : Prop) : Entry := ⟨name, form, isDefault⟩

/-- A name whose value may be missing altogether, which is the same as `null`. -/
def optional (name : String) (form : Option (Json → Prop)) : Entry := ⟨name, form.getD (· = .null), form = none⟩

end Entry

/-- Every entry is given. Members of other names are free. -/
def Gives (members : List (String × Json)) (entries : List Entry) : Prop := ∀ entry ∈ entries, entry.IsGiven members

/-- An object that gives every entry. -/
inductive IsObject (entries : List Entry) : Json → Prop where
  | mk {members : List (String × Json)} : Gives members entries → IsObject entries (.object members)

section

variable {members : List (String × Json)} {name : String}

theorem Entry.IsGiven.once {entry : Entry} {json : Json} (single : valuesOf entry.name members = [json])
    (formed : entry.form json) : entry.IsGiven members := .inl ⟨json, single, formed⟩

theorem Entry.IsGiven.leftOut {entry : Entry} (missing : valuesOf entry.name members = []) (omissible : entry.omissible) :
    entry.IsGiven members := .inr ⟨missing, omissible⟩

namespace Gives

variable {entry : Entry} {entries : List Entry}

theorem nil : Gives members [] := List.forall_mem_nil _

theorem cons (first : entry.IsGiven members) (others : Gives members entries) : Gives members (entry :: entries) :=
  List.forall_mem_cons.mpr ⟨first, others⟩

theorem uncons (gives : Gives members (entry :: entries)) : entry.IsGiven members ∧ Gives members entries :=
  List.forall_mem_cons.mp gives

theorem split {first second : List Entry} (gives : Gives members (first ++ second)) :
    Gives members first ∧ Gives members second := List.forall_mem_append.mp gives

end Gives

theorem valuesOf_cons (other : String) (value : Json) : valuesOf name ((other, value) :: members) =
    if other = name then value :: valuesOf name members else valuesOf name members := by
  rw [valuesOf, List.filter_cons]
  split
  next same =>
    rw [if_pos (beq_iff_eq.mp same)]
    rfl
  next apart =>
    rw [if_neg (by simpa using apart)]
    rfl

theorem member?_of_none (left_out : valuesOf name members = []) : member? name members = some none := by
  induction members with
  | nil => rfl
  | cons member members ih =>
    obtain ⟨other, value⟩ := member
    rw [valuesOf_cons] at left_out
    split at left_out
    next => cases left_out
    next apart =>
      exact (if_neg apart).trans (congrArg (Option.map _) (ih left_out))

theorem member?_of_single {json : Json} (given : valuesOf name members = [json]) :
    ∃ smaller, member? name members = some (some ⟨json, smaller⟩) := by
  induction members with
  | nil => cases given
  | cons member members ih =>
    obtain ⟨other, value⟩ := member
    rw [valuesOf_cons] at given
    split at given
    next same =>
      obtain ⟨rfl, rest⟩ := List.cons.inj given
      have once : members.any (·.1 == name) = false := by
        simpa [valuesOf] using rest
      exact ⟨_, (if_pos same).trans (if_neg (by simp [once]))⟩
    next apart =>
      obtain ⟨smaller, found⟩ := ih given
      exact ⟨_, (if_neg apart).trans (congrArg (Option.map _) found)⟩

/-- What looking up the name of an entry finds. -/
theorem Entry.IsGiven.found {entry : Entry} (given : entry.IsGiven members) :
    (∃ json smaller, member? entry.name members = some (some ⟨json, smaller⟩) ∧ entry.form json) ∨
      member? entry.name members = some none ∧ entry.omissible := by
  rcases given with ⟨json, once, formed⟩ | ⟨left_out, omissible⟩
  · obtain ⟨smaller, found⟩ := member?_of_single once
    exact .inl ⟨json, smaller, found, formed⟩
  · exact .inr ⟨member?_of_none left_out, omissible⟩

end

/-- All values of the form are read as the same. -/
def Reads {α : Type} (decode : Json → Option α) (form : Json → Prop) (value : α) : Prop :=
  ∀ json, form json → decode json = some value

section

variable {α : Type} {members : List (String × Json)} {name : String} {form : Json → Prop} {decode : Json → Option α}

theorem required_of_given {value : α} (given : (Entry.required name form).IsGiven members)
    (reads : Reads decode form value) : required members name (fun json _ => decode json) = some value := by
  obtain ⟨json, smaller, found, formed⟩ | ⟨_, impossible⟩ := given.found
  · dsimp only [Entry.required] at found
    rw [required, found]
    exact reads json formed
  · cases impossible

theorem defaulted_of_given {value missing : α} (given : (Entry.defaulted name form (value = missing)).IsGiven members)
    (reads : Reads decode form value) : defaulted members name (fun json _ => decode json) missing = some value := by
  obtain ⟨json, smaller, found, formed⟩ | ⟨left_out, same⟩ := given.found
  · dsimp only [Entry.defaulted] at found
    rw [defaulted, found]
    exact reads json formed
  · dsimp only [Entry.defaulted] at left_out
    rw [defaulted, left_out]
    exact congrArg some same.symm

theorem optional_of_null {json : Json} {smaller : sizeOf json < sizeOf members} (null : json = .null)
    (found : member? name members = some (some ⟨json, smaller⟩)) :
    optional members name (fun json _ => decode json) = some none := by
  subst null
  rw [optional, found]
  rfl

theorem optional_of_other {json : Json} {smaller : sizeOf json < sizeOf members} (other : json ≠ .null)
    (found : member? name members = some (some ⟨json, smaller⟩)) :
    optional members name (fun json _ => decode json) = (decode json).map some := by
  rw [optional, found]
  cases json with
  | null => exact absurd rfl other
  | _ => rfl

theorem optional_of_given {value : Option α} {forms : α → Json → Prop}
    (given : (Entry.optional name (value.map forms)).IsGiven members) (refuses : decode .null = none)
    (reads : ∀ inner, value = some inner → Reads decode (forms inner) inner) :
    optional members name (fun json _ => decode json) = some value := by
  obtain ⟨json, smaller, found, formed⟩ | ⟨left_out, missing⟩ := given.found
  · dsimp only [Entry.optional] at found formed
    cases value with
    | none => exact optional_of_null formed found
    | some inner =>
      have decoded := reads inner rfl json formed
      have other : json ≠ .null := by
        rintro rfl
        rw [refuses] at decoded
        cases decoded
      rw [optional_of_other other found, decoded]
      rfl
  · dsimp only [Entry.optional] at left_out missing
    rw [optional, left_out, Option.map_eq_none_iff.mp missing]
    rfl

end

end NimTemplate.Json
