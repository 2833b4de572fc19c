import NimTemplate.Proofs.Digits
import NimTemplate.Value.Operators

/-! Items of a list by their place. A key finds an item if it is the number of its place in decimal
digits. Zeros before the number do not count, and so a list is not quite an object whose fields
are named by the numbers. Texts are indexed as the list of their characters. -/

namespace NimTemplate.Value

open Decimal (padded)

/-- The items as fields of an object, each under the number of its place. -/
def fieldsByPlace (items : List Value) : List (String × Value) :=
  items.zipIdx.map fun entry => (toString entry.2, entry.1)

theorem toList_toString (n : Nat) : (toString n).toList = padded 0 n := Nat.toList_repr

theorem toString_inj {n m : Nat} (same : toString n = toString m) : n = m := by
  have digits := congrArg String.toList same
  rw [toList_toString, toList_toString] at digits
  exact (Decimal.padded_inj digits).2

theorem lookup_fieldsByPlace (items : List Value) (place : Nat) :
    (fieldsByPlace items).lookup (toString place) = items[place]? := by
  -- Counted from any start, since the fields behind the first one start one later.
  have counted : ∀ (items : List Value) (start place : Nat),
      ((items.zipIdx start).map fun entry => (toString entry.2, entry.1)).lookup (toString (start + place)) =
        items[place]? := by
    intro items
    induction items with
    | nil =>
      intro start place
      rfl
    | cons item items ih =>
      intro start place
      rw [List.zipIdx_cons, List.map_cons, List.lookup_cons]
      cases place with
      | zero => simp
      | succ place =>
        have apart : (toString (start + (place + 1)) == toString start) = false := by
          apply beq_eq_false_iff_ne.mpr
          intro same
          have number := toString_inj same
          omega
        have later := ih (start + 1) place
        rw [Nat.add_assoc, Nat.add_comm 1 place] at later
        rw [apart]
        exact later
  have whole := counted items 0 place
  rwa [Nat.zero_add] at whole

section

variable {key : String} {zeros place : Nat}

theorem lookup_of_other (items : List Value) (other : ∀ place, key.toList ≠ padded 0 place) :
    (fieldsByPlace items).lookup key = none := by
  apply List.lookup_eq_none_iff.mpr
  intro field member
  obtain ⟨entry, _, rfl⟩ := List.mem_map.mp member
  apply bne_iff_ne.mpr
  rintro rfl
  exact other entry.2 (toList_toString entry.2)

theorem lookup_of_number (items : List Value) (number : key.toList = padded zeros place) :
    (fieldsByPlace items).lookup key = if zeros = 0 then items[place]? else none := by
  by_cases plain : zeros = 0
  · have same : key = toString place := by
      apply String.toList_inj.mp
      rw [number, plain, toList_toString]
    rw [if_pos plain, same, lookup_fieldsByPlace]
  · rw [if_neg plain]
    apply lookup_of_other
    intro other same
    exact plain (Decimal.padded_inj (number.symm.trans same)).1

theorem index?_of_number (number : key.toList = padded zeros place) :
    index? key = if place < wordSize then some place else none := by
  rw [index?, number, Decimal.natural?_padded, Option.filter_some]
  simp

theorem index?_of_other (other : ∀ zeros place, key.toList ≠ padded zeros place) : index? key = none := by
  cases found : Decimal.natural? key.toList with
  | none =>
    rw [index?, found]
    rfl
  | some place =>
    obtain ⟨zeros, number⟩ := Decimal.natural?_eq_some_iff.mp found
    exact absurd number (other zeros place)

variable (other : key ≠ "length")

include other

theorem property_array (items : List Value) : property (.array items) (.text key) =
    .ok (((index? key).bind fun place => items[place]?).getD .undefined) :=
  if_neg other

theorem property_array_of_number {items : List Value} {item : Value} (number : key.toList = padded zeros place)
    (fits : place < wordSize) (found : items[place]? = some item) :
    property (.array items) (.text key) = .ok item := by
  rw [property_array other, index?_of_number number, if_pos fits, Option.bind_some, found]
  rfl

theorem property_array_of_none {items : List Value}
    (none : ∀ zeros place, key.toList = padded zeros place → place < wordSize → items.length ≤ place) :
    property (.array items) (.text key) = .ok .undefined := by
  rw [property_array other]
  by_cases number : ∃ zeros place, key.toList = padded zeros place
  · obtain ⟨zeros, place, number⟩ := number
    rw [index?_of_number number]
    split
    next fits =>
      rw [Option.bind_some, List.getElem?_eq_none (none zeros place number fits)]
      rfl
    next => rfl
  · rw [index?_of_other fun zeros place same => number ⟨zeros, place, same⟩]
    rfl

/-- The two ways to find an item differ at numbers with zeros before them, which name no field, and
at numbers that fit no word, which name no place. -/
theorem property_array_eq_object_iff (items : List Value) :
    property (.array items) (.text key) = property (.object (fieldsByPlace items)) (.text key) ↔
      ∀ zeros place item, key.toList = padded zeros place → items[place]? = some item →
        (0 < zeros ↔ place < wordSize) → item = .undefined := by
  have field : property (.object (fieldsByPlace items)) (.text key) =
    .ok (((fieldsByPlace items).lookup key).getD .undefined) := rfl
  rw [property_array other, field]
  by_cases number : ∃ zeros place, key.toList = padded zeros place
  · obtain ⟨zeros, place, number⟩ := number
    rw [index?_of_number number, lookup_of_number items number]
    constructor
    · intro equal others n item same found differ
      obtain ⟨rfl, rfl⟩ := Decimal.padded_inj (number.symm.trans same)
      have results := Except.ok.inj equal
      by_cases fits : place < wordSize
      · rw [if_pos fits, if_neg (Nat.ne_of_gt (differ.mpr fits)), Option.bind_some, found] at results
        exact results
      · have plain : zeros = 0 := Nat.eq_zero_of_not_pos fun leading => fits (differ.mp leading)
        rw [if_neg fits, if_pos plain, found] at results
        exact results.symm
    · intro absent
      cases found : items[place]? with
      | none =>
        split
        all_goals simp [found]
      | some item =>
        have lost := absent zeros place item number found
        by_cases fits : place < wordSize <;> by_cases plain : zeros = 0
        · rw [if_pos fits, if_pos plain, Option.bind_some, found]
        · rw [if_pos fits, if_neg plain, Option.bind_some, found, lost (by omega)]
          rfl
        · rw [if_neg fits, if_pos plain, lost (by omega)]
          rfl
        · rw [if_neg fits, if_neg plain]
          rfl
  · rw [index?_of_other fun zeros place same => number ⟨zeros, place, same⟩,
      lookup_of_other items fun place same => number ⟨0, place, same⟩]
    constructor
    · intro _ zeros place item same
      exact absurd ⟨zeros, place, same⟩ number
    · intro _
      rfl

end

/-! Texts of characters that are one unit each. -/

theorem textLength_of_units {chars : List Char} (single : ∀ c ∈ chars, c.toNat < 0x10000) :
    textLength chars = chars.length := by
  induction chars with
  | nil => rfl
  | cons c chars ih =>
    obtain ⟨first, others⟩ := List.forall_mem_cons.mp single
    have unit : units c = 1 := if_neg (by omega)
    rw [textLength, unit, ih others, List.length_cons, Nat.add_comm]

theorem property_text_eq_array {s : String} (single : ∀ c ∈ s.toList, c.toNat < 0x10000) (key : String) :
    property (.text s) (.text key) = property (.array (s.toList.map fun c => .text c.toString)) (.text key) := by
  have narrow : s.toList.any (units · == 2) = false := by
    apply List.any_eq_false.mpr
    intro c member
    have bound := single c member
    have unit : units c = 1 := if_neg (by omega)
    simp [unit]
  by_cases length : key = "length"
  · subst length
    have count : textLength s.toList = (s.toList.map fun c => Value.text c.toString).length := by
      rw [textLength_of_units single, List.length_map]
    exact congrArg (fun n => Except.ok (Value.number (Double.ofNat n))) count
  · rw [property_array length]
    cases index : index? key with
    | none => simp only [property, toText, if_neg length, index, Option.bind_none, Option.getD_none]
    | some place =>
      simp only [property, toText, if_neg length, index, narrow, Bool.false_eq_true, if_false, Option.bind_some,
        List.getElem?_map]
      cases s.toList[place]? <;> rfl

/-- A list gives the item whose place the key numbers, with any zeros before the number, and nothing
for other keys. It is as the object of its items by place but for such zeros. A text without
characters of two units is as the list of its characters. -/
theorem items_are_found_by_number (items : List Value) {key : String} (other : key ≠ "length") :
    (∀ zeros place item, key.toList = padded zeros place → place < wordSize → items[place]? = some item →
      property (.array items) (.text key) = .ok item) ∧
    ((∀ zeros place, key.toList = padded zeros place → place < wordSize → items.length ≤ place) →
      property (.array items) (.text key) = .ok .undefined) ∧
    (property (.array items) (.text key) = property (.object (fieldsByPlace items)) (.text key) ↔
      ∀ zeros place item, key.toList = padded zeros place → items[place]? = some item →
        (0 < zeros ↔ place < wordSize) → item = .undefined) ∧
    ∀ s : String, (∀ c ∈ s.toList, c.toNat < 0x10000) →
      property (.text s) (.text key) = property (.array (s.toList.map fun c => .text c.toString)) (.text key) := by
  refine ⟨?_, property_array_of_none other, property_array_eq_object_iff other items, ?_⟩
  · intro zeros place item number fits found
    exact property_array_of_number other number fits found
  · intro s single
    exact property_text_eq_array single key

/-- The second item under its number, and the second character of a text. -/
theorem second_is_found_by_number : "1" ≠ "length" ∧
    property (.array [.text "a", .null]) (.text "1") = .ok .null ∧
    property (.array [.text "a", .null]) (.text "1") =
      property (.object [("0", .text "a"), ("1", .null)]) (.text "1") ∧
    property (.text "aé") (.text "1") = property (.array [.text "a", .text "é"]) (.text "1") := by
  have other : "1" ≠ "length" := by decide
  obtain ⟨number, _, object, text⟩ := items_are_found_by_number [.text "a", .null] other
  refine ⟨other, number 0 1 .null rfl (by decide) rfl, object.mpr ?_, text "aé" (by simp)⟩
  intro zeros place item same found differ
  have written : padded 0 1 = padded zeros place := same
  obtain ⟨rfl, rfl⟩ := Decimal.padded_inj written
  exact absurd differ (by decide)

/-- A zero before the number is passed over in a list, while no field has such a name. -/
theorem zero_before_number_is_passed_over :
    property (.array [.text "a"]) (.text "00") = .ok (.text "a") ∧
      property (.object (fieldsByPlace [.text "a"])) (.text "00") = .ok .undefined := by
  exact ⟨rfl, rfl⟩

end NimTemplate.Value
