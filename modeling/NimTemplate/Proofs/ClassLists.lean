import NimTemplate.Proofs.ValueText
import NimTemplate.Proofs.Walk

/-! Classes of an element. However its lists are nested, a value names classes one after the
other, and they are joined as if they stood in one list. What an element writes out and what a
table stores is joined from the same classes, each of them escaped on its own. -/

namespace NimTemplate

/-! Plain values are never written as nothing. -/

theorem Decimal.numeral_ne_nil (n : Nat) : numeral n ≠ [] := Nat.toDigits_ne_nil

theorem Decimal.positional_ne_nil (decimal : Decimal) : decimal.positional ≠ [] := by
  unfold positional
  dsimp only
  split
  · exact List.append_ne_nil_of_left_ne_nil (numeral_ne_nil _) _
  · split <;> simp

theorem Decimal.scientific_ne_nil (decimal : Decimal) : decimal.scientific ≠ [] := by
  simp [scientific]

theorem Number.signed_ne_empty (x : Float) {digits : List Char} (some : digits ≠ []) : signed x digits ≠ "" := by
  intro empty
  have none : (if Double.isNegative x then '-' :: digits else digits) = [] := by
    simpa [signed] using congrArg String.toList empty
  split at none
  · cases none
  · exact some none

theorem Number.text_ne_empty (x : Float) : text x ≠ "" := by
  unfold text
  split
  · simp
  split
  · exact signed_ne_empty x (by simp)
  split
  · simp
  · apply signed_ne_empty
    split
    · exact Decimal.positional_ne_nil _
    · exact Decimal.scientific_ne_nil _

namespace Markup

/-! Texts that are joined by a blank. -/

theorem intercalate_eq_empty_iff {words : List String} (filled : ∀ word ∈ words, word ≠ "") :
    " ".intercalate words = "" ↔ words = [] := by
  constructor
  · intro empty
    cases words with
    | nil => rfl
    | cons first rest =>
      have present : first ≠ "" := filled first List.mem_cons_self
      cases rest with
      | nil => exact absurd (by simpa using empty) present
      | cons second others => simp at empty
  · rintro rfl
    simp

/-- Joining joined lists is joining all their words. -/
private theorem intercalate_flatten (lists : List (List String)) (some : ∀ words ∈ lists, words ≠ []) :
    " ".intercalate (lists.map fun words => " ".intercalate words) = " ".intercalate lists.flatten := by
  induction lists with
  | nil => rfl
  | cons words rest ih =>
    have joined := ih fun others member => some others (List.mem_cons_of_mem _ member)
    cases rest with
    | nil => simp
    | cons next others =>
      have here : words ≠ [] := some words List.mem_cons_self
      have there : (next :: others).flatten ≠ [] := by
        intro none
        rw [List.flatten_eq_nil_iff] at none
        exact some next (by simp) (none next List.mem_cons_self)
      rw [List.map_cons, List.flatten_cons, String.intercalate_cons_of_ne_nil (by simp),
        String.intercalate_append_of_ne_nil here there, joined]

/-- Lists without words are dropped where words without letters are. -/
theorem joinWords_intercalate (lists : List (List String)) (filled : ∀ words ∈ lists, ∀ word ∈ words, word ≠ "") :
    joinWords (lists.map fun words => " ".intercalate words) = " ".intercalate lists.flatten := by
  have kept : (lists.map fun words => " ".intercalate words).filter (· != "") =
      (lists.filter (! ·.isEmpty)).map fun words => " ".intercalate words := by
    rw [List.filter_map]
    congr 1
    apply List.filter_congr
    intro words member
    rw [Bool.eq_iff_iff]
    simpa using not_congr (intercalate_eq_empty_iff (filled words member))
  rw [joinWords, kept, intercalate_flatten, List.flatten_filter_not_isEmpty]
  intro words member
  simpa using (List.mem_filter.mp member).2

/-! The classes of a value. -/

mutual

/-- The classes that a value names, one by one. -/
def leaves : Value → List String
  | .array items => leavesAll items
  | .object fields => ((fields.filter (·.2.isTruthy)).map (·.1)).filter (· != "")
  | .undefined | .null => []
  | .text s => if s = "" then [] else [s]
  | value => [value.toText]

def leavesAll : List Value → List String
  | [] => []
  | item :: rest => leaves item ++ leavesAll rest

end

mutual

/-- What stands in lists of lists, without the lists. -/
def unnested : Value → List Value
  | .array items => unnestedAll items
  | value => [value]

def unnestedAll : List Value → List Value
  | [] => []
  | item :: rest => unnested item ++ unnestedAll rest

end

theorem leavesAll_eq (items : List Value) : leavesAll items = (items.map leaves).flatten := by
  induction items with
  | nil => rfl
  | cons item rest ih => rw [leavesAll, ih, List.map_cons, List.flatten_cons]

theorem leavesAll_append (first rest : List Value) : leavesAll (first ++ rest) = leavesAll first ++ leavesAll rest := by
  simp [leavesAll_eq]

mutual

/-- A class has a name. -/
theorem leaves_ne_empty (value : Value) : ∀ leaf ∈ leaves value, leaf ≠ "" := by
  intro leaf member
  match value with
  | .array items => exact leavesAll_ne_empty items leaf member
  | .object fields =>
    rw [leaves] at member
    simpa using (List.mem_filter.mp member).2
  | .undefined | .null => cases member
  | .text s =>
    rw [leaves] at member
    split at member
    · cases member
    next present => exact List.mem_singleton.mp member ▸ present
  | .number x => exact List.mem_singleton.mp member ▸ Number.text_ne_empty x
  | .bool b => cases b <;> simp [leaves, Value.toText] at member <;> simp [member]
  | .builtin b => simp [leaves, Value.toText] at member; simp [member]
termination_by structural value

theorem leavesAll_ne_empty (items : List Value) : ∀ leaf ∈ leavesAll items, leaf ≠ "" := by
  intro leaf member
  match items with
  | [] => cases member
  | item :: rest =>
    rcases List.mem_append.mp member with here | later
    · exact leaves_ne_empty item leaf here
    · exact leavesAll_ne_empty rest leaf later
termination_by structural items

end

mutual

/-- The classes of a value are its leaves, with a blank between two. -/
theorem joinClasses_eq (value : Value) : joinClasses value = " ".intercalate (leaves value) := by
  match value with
  | .array items =>
    have filled : ∀ words ∈ items.map leaves, ∀ word ∈ words, word ≠ "" := by
      intro words member
      obtain ⟨item, _, rfl⟩ := List.mem_map.mp member
      exact leaves_ne_empty item
    rw [joinClasses, leaves, leavesAll_eq, joinEach_eq items, ← joinWords_intercalate _ filled, List.map_map]
    rfl
  | .object fields => rw [joinClasses, leaves, joinWords]
  | .undefined | .null => rfl
  | .text s =>
    by_cases empty : s = "" <;> simp [joinClasses, leaves, Value.render, Value.isNullish, Value.toText, empty]
  | .bool _ | .number _ | .builtin _ => simp [joinClasses, leaves, Value.render, Value.isNullish]
termination_by structural value

theorem joinEach_eq (items : List Value) :
    joinEach items = items.map fun item => " ".intercalate (leaves item) := by
  match items with
  | [] => rfl
  | item :: rest => rw [joinEach, joinClasses_eq item, joinEach_eq rest, List.map_cons]
termination_by structural items

end

mutual

theorem leaves_unnested (value : Value) : leavesAll (unnested value) = leaves value := by
  match value with
  | .array items => exact leavesAll_unnested items
  | .undefined | .null | .bool _ | .number _ | .text _ | .object _ | .builtin _ => simp [unnested, leavesAll]
termination_by structural value

theorem leavesAll_unnested (items : List Value) : leavesAll (unnestedAll items) = leavesAll items := by
  match items with
  | [] => rfl
  | item :: rest =>
    rw [unnestedAll, leavesAll_append, leaves_unnested item, leavesAll_unnested rest, leavesAll]
termination_by structural items

end

theorem joinClasses_of_unnested {value other : Value} (same : unnested value = unnested other) :
    joinClasses value = joinClasses other := by
  rw [joinClasses_eq, joinClasses_eq, ← leaves_unnested, same, leaves_unnested]

/-- A list with one value in it names the classes of that value. -/
theorem joinClasses_singleton (value : Value) : joinClasses (.array [value]) = joinClasses value := by
  apply joinClasses_of_unnested
  simp [unnested, unnestedAll]

/-- Texts that stand in a list are joined as words. -/
theorem joinClasses_texts (texts : List String) : joinClasses (.array (texts.map .text)) = joinWords texts := by
  have each : joinEach (texts.map .text) = texts := by
    induction texts with
    | nil => rfl
    | cons text rest ih => simp [joinEach, ih, joinClasses, Value.render, Value.isNullish, Value.toText]
  rw [joinClasses, each]

/-! Escaping leaves blanks where they are, so classes can be escaped before they are joined. -/

theorem escapeText_append (first rest : String) : escapeText (first ++ rest) = escapeText first ++ escapeText rest := by
  apply String.toList_inj.mp
  simp [escapeText]

theorem escapeText_blank : escapeText " " = " " := rfl

theorem escapeText_intercalate (words : List String) :
    escapeText (" ".intercalate words) = " ".intercalate (words.map escapeText) := by
  induction words with
  | nil => rfl
  | cons word rest ih =>
    cases rest with
    | nil => simp
    | cons next others =>
      calc escapeText (" ".intercalate (word :: next :: others))
          = escapeText (word ++ " " ++ " ".intercalate (next :: others)) := by rw [String.intercalate_cons_cons]
        _ = escapeText word ++ " " ++ " ".intercalate ((next :: others).map escapeText) := by
            rw [escapeText_append, escapeText_append, ih, escapeText_blank]
        _ = " ".intercalate ((word :: next :: others).map escapeText) := by
            simp only [List.map_cons, String.intercalate_cons_cons]

theorem escapeChar_ne_nil (c : Char) : escapeChar c ≠ [] := by
  unfold escapeChar
  split <;> simp

theorem escapeText_ne_empty {text : String} (present : text ≠ "") : escapeText text ≠ "" := by
  intro empty
  have none : text.toList.flatMap escapeChar = [] := by simpa [escapeText] using congrArg String.toList empty
  cases seen : text.toList with
  | nil => exact present (String.toList_eq_nil_iff.mp seen)
  | cons c rest =>
    rw [seen, List.flatMap_cons, List.append_eq_nil_iff] at none
    exact escapeChar_ne_nil c none.1

/-- The classes of a value as they are written. -/
def writtenLeaves (value : Value) (escaped : Bool) : List String :=
  if escaped then (leaves value).map escapeText else leaves value

theorem writtenLeaves_ne_empty (value : Value) (escaped : Bool) : ∀ leaf ∈ writtenLeaves value escaped, leaf ≠ "" := by
  intro leaf member
  unfold writtenLeaves at member
  split at member
  · obtain ⟨plain, inside, rfl⟩ := List.mem_map.mp member
    exact escapeText_ne_empty (leaves_ne_empty value plain inside)
  · exact leaves_ne_empty value leaf member

theorem intercalate_writtenLeaves (value : Value) (escaped : Bool) :
    " ".intercalate (writtenLeaves value escaped) =
      if escaped then escapeText (joinClasses value) else joinClasses value := by
  unfold writtenLeaves
  split
  · rw [joinClasses_eq, escapeText_intercalate]
  · rw [joinClasses_eq]

/-- All classes of an element, joined as they are written. -/
def writtenClasses (values : List Value) (flags : List Bool) : String :=
  " ".intercalate (List.zipWith writtenLeaves values flags).flatten

/-- Texts of values that are joined give all their classes. -/
theorem joinClasses_written (values : List Value) (flags : List Bool) :
    joinClasses (.array (List.zipWith (fun value escaped => .text (" ".intercalate (writtenLeaves value escaped)))
      values flags)) = writtenClasses values flags := by
  have texts : List.zipWith (fun value escaped => Value.text (" ".intercalate (writtenLeaves value escaped))) values flags =
      ((List.zipWith writtenLeaves values flags).map fun words => " ".intercalate words).map .text := by
    simp only [List.map_zipWith]
  have filled : ∀ words ∈ List.zipWith writtenLeaves values flags, ∀ word ∈ words, word ≠ "" := by
    intro words member
    rw [← List.map_uncurry_zip_eq_zipWith] at member
    obtain ⟨⟨value, escaped⟩, _, rfl⟩ := List.mem_map.mp member
    exact writtenLeaves_ne_empty value escaped
  rw [texts, joinClasses_texts, joinWords_intercalate _ filled, writtenClasses]

theorem classTexts_eq {values : List Value} {flags : List Bool} (same : values.length = flags.length) :
    classTexts values flags =
      List.zipWith (fun value escaped => .text (" ".intercalate (writtenLeaves value escaped))) values flags := by
  induction values generalizing flags with
  | nil => rfl
  | cons value rest ih =>
    cases flags with
    | nil => cases same
    | cons escaped others =>
      have later := ih (Nat.succ.inj same)
      simp only [classTexts, List.head?_cons, Option.getD_some, List.tail_cons, List.zipWith_cons_cons, later,
        joinClasses_singleton, intercalate_writtenLeaves]

theorem classes_eq {values : List Value} {flags : List Bool} (same : values.length = flags.length) :
    classes values flags = if writtenClasses values flags = "" then "" else quoted "class" (writtenClasses values flags) := by
  rw [classes, classTexts_eq same, joinClasses_written]

end Markup

namespace Compile

theorem knownClasses_eq (members : List Attribute) (values : List Value) :
    knownClasses members values = Markup.writtenClasses values (members.map (·.escaped)) := by
  have each : knownClass = fun value escaped => .text (" ".intercalate (Markup.writtenLeaves value escaped)) := by
    funext value escaped
    rw [knownClass, Markup.intercalate_writtenLeaves]
  rw [knownClasses, each, Markup.joinClasses_written]

/-- A value names its leaves, and how lists are nested does not matter. For classes that are all
known there is one text of all leaves in order, each escaped as the flag of its value says. An
element writes this text out, unless it is empty, and a table of attributes stores it. -/
theorem class_joining_is_flattening (values : List Value) (flags : List Bool) (same : values.length = flags.length) :
    (∀ value, Markup.joinClasses value = " ".intercalate (Markup.leaves value)) ∧
    (∀ value other, Markup.unnested value = Markup.unnested other →
      Markup.joinClasses value = Markup.joinClasses other) ∧
    ∃ joined, joined = " ".intercalate (List.zipWith Markup.writtenLeaves values flags).flatten ∧
      Markup.classes values flags = (if joined = "" then "" else " class=\"" ++ joined ++ "\"") ∧
      (∀ members : List Attribute, members.map (·.escaped) = flags → knownClasses members values = joined) ∧
      ∀ (context : Context) (state : State) (attrs : List Attribute) (location : Location),
        classAttrs attrs ≠ [] → (classAttrs attrs).map (·.escaped) = flags →
        context.allKnown? ((classAttrs attrs).map (·.source)) = some values →
        state.attributeTable context attrs location =
          ("\x7b" ++ ", ".intercalate ((plainAttrs attrs).map (entry context) ++
            ["\"class\": " ++ Text.Quoted.literal joined]) ++ "\x7d", state) := by
  have stored : ∀ members : List Attribute, members.map (·.escaped) = flags →
      knownClasses members values = Markup.writtenClasses values flags := by
    rintro members rfl
    exact knownClasses_eq members values
  refine ⟨Markup.joinClasses_eq, fun _ _ => Markup.joinClasses_of_unnested, _, rfl, ?_, stored, ?_⟩
  · exact Markup.classes_eq same
  · intro context state attrs location present flagged known
    have some : (classAttrs attrs).isEmpty = false := by simpa using present
    have listed : classEntry context (classAttrs attrs) =
        ["\"class\": " ++ Text.Quoted.literal (Markup.writtenClasses values flags)] := by
      simp [classEntry, some, known, stored _ flagged]
    have quiet : classWarnings context (classAttrs attrs) location = [] := by simp [classWarnings, known]
    rw [State.attributeTable_eq, tableText, listed, quiet, List.append_nil]
    rfl

/-- Only the first of two classes is escaped, in an element and in a table. -/
theorem class_pair_is_flattened :
    [Value.text "a&b", .text "<c>"].length = [true, false].length ∧
      Markup.classes [.text "a&b", .text "<c>"] [true, false] = " class=\"a&amp;b <c>\"" ∧
      (State.initial {}).attributeTable ⟨{}, .none⟩ [⟨"class", "\"a&b\"", true⟩, ⟨"class", "\"<c>\"", false⟩] {} =
        ("\x7b\"class\": \"a&amp;b <c>\"\x7d", .initial {}) := by
  have known : ∀ s, constant? (Text.Quoted.literal s) = some (.text s) := by
    intro s
    have denotes : (Json.string s).Denotes 0 (.text s) := Json.denotes_string s
    exact denotes.constant?_eq (by decide)
  obtain ⟨-, -, joined, same, written, -, stored⟩ :=
    class_joining_is_flattening [.text "a&b", .text "<c>"] [true, false] rfl
  have spelled : joined = "a&amp;b <c>" := same.trans (by decide)
  refine ⟨rfl, ?_, ?_⟩
  · rw [written, spelled]
    decide
  · have first : constant? "\"a&b\"" = some (.text "a&b") := known "a&b"
    have second : constant? "\"<c>\"" = some (.text "<c>") := known "<c>"
    rw [stored _ _ _ _ (by decide) rfl (by simp [Context.allKnown?, Context.known?, classAttrs, first, second]), spelled]
    refine Prod.ext ?_ rfl
    decide

end Compile

end NimTemplate
