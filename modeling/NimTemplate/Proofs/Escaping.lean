import NimTemplate.Proofs.Attributes
import NimTemplate.Proofs.ClassLists

/-! Escaped attributes. Nothing in an escaped value ends the quotes around it or opens a tag, and
a reader of the markup gets the value back by taking the marks for what they stand for. -/

namespace NimTemplate.Markup

/-- Takes the marks for the characters that they stand for. -/
def unescape : List Char → List Char
  | '&' :: 'a' :: 'm' :: 'p' :: ';' :: rest => '&' :: unescape rest
  | '&' :: 'l' :: 't' :: ';' :: rest => '<' :: unescape rest
  | '&' :: 'g' :: 't' :: ';' :: rest => '>' :: unescape rest
  | '&' :: 'q' :: 'u' :: 'o' :: 't' :: ';' :: rest => '"' :: unescape rest
  | c :: rest => c :: unescape rest
  | [] => []

def unescapeText (text : String) : String := String.ofList (unescape text.toList)

theorem unescape_cons {c : Char} (plain : c ≠ '&') (rest : List Char) : unescape (c :: rest) = c :: unescape rest := by
  apply unescape.eq_5
  all_goals
    intro others same
    exact absurd same plain

theorem unescape_escapeChar (c : Char) (rest : List Char) : unescape (escapeChar c ++ rest) = c :: unescape rest := by
  unfold escapeChar
  split
  · exact unescape.eq_1 rest
  · exact unescape.eq_2 rest
  · exact unescape.eq_3 rest
  · exact unescape.eq_4 rest
  next plain _ _ _ => exact unescape_cons plain rest

theorem unescapeText_escapeText (text : String) : unescapeText (escapeText text) = text := by
  have chars : ∀ chars : List Char, unescape (chars.flatMap escapeChar) = chars := by
    intro chars
    induction chars with
    | nil => rfl
    | cons c rest ih => rw [List.flatMap_cons, unescape_escapeChar, ih]
  rw [unescapeText, escapeText, String.toList_ofList, chars, String.ofList_toList]

/-- No character that ends a quoted value or opens or closes a tag. -/
structure IsSafe (text : String) : Prop where
  quote : '"' ∉ text.toList
  opening : '<' ∉ text.toList
  closing : '>' ∉ text.toList

theorem isSafe_escapeText (text : String) : IsSafe (escapeText text) := by
  have marks : ∀ c, ∀ mark ∈ escapeChar c, mark ≠ '"' ∧ mark ≠ '<' ∧ mark ≠ '>' := by
    intro c mark member
    unfold escapeChar at member
    split at member
    case h_5 => simp_all
    all_goals
      simp at member
      rcases member with rfl | rfl | rfl | rfl | rfl | rfl <;> decide
  have clear : ∀ mark ∈ (escapeText text).toList, mark ≠ '"' ∧ mark ≠ '<' ∧ mark ≠ '>' := by
    intro mark member
    rw [escapeText, String.toList_ofList] at member
    obtain ⟨c, _, inside⟩ := List.mem_flatMap.mp member
    exact marks c mark inside
  constructor
  · exact fun member => (clear _ member).1 rfl
  · exact fun member => (clear _ member).2.1 rfl
  · exact fun member => (clear _ member).2.2 rfl

theorem apostrophe_not_mem (text : String) : '\'' ∉ (escapeApostrophes text).toList := by
  intro member
  rw [escapeApostrophes, String.toList_ofList] at member
  obtain ⟨c, _, inside⟩ := List.mem_flatMap.mp member
  split at inside
  · revert inside
    decide
  next other => exact other (List.mem_singleton.mp inside).symm

section

variable {name text : String} {value : Value} {terse : Bool}

/-- An attribute between single quotes. -/
def singleQuoted (name text : String) : String := " " ++ name ++ "='" ++ text ++ "'"

theorem singleQuoted_inj {other : String} : singleQuoted name text = singleQuoted name other ↔ text = other := by
  simp [singleQuoted]

theorem singleQuoted_ne_empty : singleQuoted name text ≠ "" := by
  simp [singleQuoted]

theorem singleQuoted_ne_name : singleQuoted name text ≠ " " ++ name := by
  simp [singleQuoted, String.append_assoc]

theorem quoted_ne_singleQuoted {other : String} : quoted name text ≠ singleQuoted name other := by
  intro same
  have behind : "=\"" ++ (text ++ "\"") = "='" ++ (other ++ "'") := by
    simpa [quoted, singleQuoted, String.append_assoc] using same
  have second := congrArg (fun text => text.toList.tail.head?) behind
  simp at second

/-- Values that switch an attribute on or off. -/
def isSwitch : Value → Bool
  | .undefined | .null | .bool _ => true
  | _ => false

/-- Values other than texts that have a form of their own in JSON. -/
def isStructured : Value → Bool
  | .number _ | .array _ | .object _ => true
  | _ => false

theorem isData_style : isData "style" = false := by decide

theorem ne_style_of_isData (data : isData name) : name ≠ "style" := by
  rintro rfl
  rw [isData_style] at data
  cases data

/-- The value that an attribute shows. -/
def shown (name : String) (value : Value) : Value := if name = "style" then style value else value

theorem attr_of_isSwitch (switch : isSwitch value) (escaped : Bool) :
    attr name value escaped terse =
      if value.isTruthy then if terse then " " ++ name else quoted name name else "" := by
  cases value with
  | undefined | null => by_cases named : name = "style" <;> simp [attr, style, named, Value.isTruthy]
  | bool b => exact attr_bool b escaped
  | number | text | array | object | builtin => cases switch

theorem attr_of_data (data : isData name) (structured : isStructured value) (escaped : Bool) :
    ∃ json, value.jsonText? = some json ∧
      attr name value escaped terse = singleQuoted name (escapeApostrophes json) := by
  have named := ne_style_of_isData data
  cases value with
  | number | array | object => exact ⟨_, rfl, by simp [attr, named, data, singleQuoted]; rfl⟩
  | undefined | null | bool | text | builtin => cases structured

theorem attr_of_text (other : isSwitch value = false) (plain : ¬ (isData name ∧ isStructured value)) (escaped : Bool) :
    attr name value escaped terse = quotedValue name (shown name value) escaped := by
  by_cases named : name = "style"
  · subst named
    cases value with
    | undefined | null | bool => cases other
    | number | text | array | object | builtin => simp [attr, shown, style, isData_style]
  · cases value with
    | undefined | null | bool => cases other
    | number | array | object =>
      have plain : isData name = false := by simpa [isStructured] using plain
      simp [attr, shown, named, plain]
    | text | builtin => simp [attr, shown, named]

/-- An escaped attribute is switched off or on, or it shows its value as JSON or as text. -/
theorem attr_cases (name : String) (value : Value) (terse : Bool) :
    (isSwitch value ∧ value.isTruthy = false ∧ attr name value true terse = "") ∨
      (value = .bool true ∧ attr name value true terse = if terse then " " ++ name else quoted name name) ∨
      (isData name ∧ isStructured value ∧ ∃ json, value.jsonText? = some json ∧
        attr name value true terse = singleQuoted name (escapeApostrophes json)) ∨
      attr name value true terse = quoted name (escape (shown name value)) := by
  cases switch : isSwitch value with
  | true =>
    have switched : attr name value true terse = _ := attr_of_isSwitch switch true
    cases on : value.isTruthy with
    | false => exact .inl ⟨rfl, rfl, by simpa [on] using switched⟩
    | true =>
      have set : value = .bool true := by
        cases value with
        | bool b => exact congrArg Value.bool on
        | undefined | null => cases on
        | number | text | array | object | builtin => cases switch
      exact .inr (.inl ⟨set, by simpa [on] using switched⟩)
  | false =>
    by_cases data : isData name ∧ isStructured value
    · exact .inr (.inr (.inl ⟨data.1, data.2, attr_of_data data.1 data.2 true⟩))
    · exact .inr (.inr (.inr (attr_of_text switch data true)))

end

/-! Classes that are all escaped. -/

theorem classTexts_of_escaped {values : List Value} {flags : List Bool}
    (escaped : ∀ index < values.length, flags[index]? = some true) :
    classTexts values flags = classTexts values (values.map fun _ => true) := by
  induction values generalizing flags with
  | nil => rfl
  | cons value rest ih =>
    have first : flags.head? = some true := by
      rw [List.head?_eq_getElem?]
      exact escaped 0 (by simp)
    have later := @ih flags.tail fun index inside => by
      rw [List.getElem?_tail]
      exact escaped (index + 1) (by simpa using inside)
    simp only [classTexts, first, later, List.map_cons, List.head?_cons, List.tail_cons]

theorem writtenClasses_escaped (values : List Value) :
    writtenClasses values (values.map fun _ => true) = escapeText (joinClasses (.array values)) := by
  have each : List.zipWith writtenLeaves values (values.map fun _ => true) = values.map fun value => (leaves value).map escapeText := by
    rw [List.zipWith_map_right, List.zipWith_self]
    rfl
  rw [writtenClasses, each, joinClasses_eq, leaves, leavesAll_eq, escapeText_intercalate, List.map_flatten, List.map_map]
  rfl

theorem classes_of_escaped {values : List Value} {flags : List Bool}
    (escaped : ∀ index < values.length, flags[index]? = some true) :
    classes values flags =
      if joinClasses (.array values) = "" then "" else quoted "class" (escapeText (joinClasses (.array values))) := by
  have same : values.length = (values.map fun _ => true).length := by simp
  have empty : escapeText (joinClasses (.array values)) = "" ↔ joinClasses (.array values) = "" := by
    constructor
    · intro none
      by_contra present
      exact escapeText_ne_empty present none
    · intro none
      rw [none]
      rfl
  calc classes values flags
      = classes values (values.map fun _ => true) := by rw [classes, classTexts_of_escaped escaped, classes]
    _ = _ := by
      rw [classes_eq same, writtenClasses_escaped]
      simp only [empty]

/-- An escaped attribute is left out, named alone, or has its value between quotes that nothing in
the value ends. Numbers, lists and objects under a name of data are JSON between single quotes;
all other values are texts without marks, from which their string form is read back. So are
classes that are all escaped. -/
theorem escaped_values_stay_in_quotes {name : String} (plain : '"' ∉ name.toList) (value : Value) (terse : Bool) :
    ((isSwitch value ∧ value.isTruthy = false ∧ attr name value true terse = "") ∨
      (value = .bool true ∧ terse = true ∧ attr name value true terse = " " ++ name) ∨
      (∃ text, attr name value true terse = " " ++ name ++ "=\"" ++ text ++ "\"" ∧ '"' ∉ text.toList) ∨
      ∃ text, attr name value true terse = " " ++ name ++ "='" ++ text ++ "'" ∧ '\'' ∉ text.toList) ∧
    (∀ text, attr name value true terse = " " ++ name ++ "='" ++ text ++ "'" →
      "data".toList <+: name.toList ∧ isStructured value ∧
        ∃ json, value.jsonText? = some json ∧ text = escapeApostrophes json) ∧
    (∀ text, attr name value true terse = " " ++ name ++ "=\"" ++ text ++ "\"" → (∀ b, value ≠ .bool b) →
      '<' ∉ text.toList ∧ '>' ∉ text.toList ∧
        unescapeText text = (if name = "style" then style value else value).toText) ∧
    ∀ (values : List Value) (flags : List Bool), (∀ index < values.length, flags[index]? = some true) →
      (joinClasses (.array values) = "" ∧ classes values flags = "") ∨
        ∃ text, classes values flags = " class=\"" ++ text ++ "\"" ∧ '"' ∉ text.toList ∧ '<' ∉ text.toList ∧
          '>' ∉ text.toList ∧ unescapeText text = joinClasses (.array values) := by
  have listed : ∀ (values : List Value) (flags : List Bool), (∀ index < values.length, flags[index]? = some true) →
      (joinClasses (.array values) = "" ∧ classes values flags = "") ∨
        ∃ text, classes values flags = " class=\"" ++ text ++ "\"" ∧ '"' ∉ text.toList ∧ '<' ∉ text.toList ∧
          '>' ∉ text.toList ∧ unescapeText text = joinClasses (.array values) := by
    intro values flags escaped
    have written := classes_of_escaped escaped
    split at written
    next none => exact .inl ⟨none, written⟩
    next present =>
      have safe := isSafe_escapeText (joinClasses (.array values))
      exact .inr ⟨_, written, safe.quote, safe.opening, safe.closing, unescapeText_escapeText _⟩
  have forms := attr_cases name value terse
  refine ⟨?_, ?_, ?_, listed⟩
  · rcases forms with ⟨switch, off, same⟩ | ⟨set, same⟩ | ⟨_, _, json, _, same⟩ | same
    · exact .inl ⟨switch, off, same⟩
    · cases terse with
      | true => exact .inr (.inl ⟨set, rfl, same⟩)
      | false => exact .inr (.inr (.inl ⟨name, same, plain⟩))
    · exact .inr (.inr (.inr ⟨_, same, apostrophe_not_mem json⟩))
    · exact .inr (.inr (.inl ⟨_, same, (isSafe_escapeText _).quote⟩))
  · intro text single
    change _ = singleQuoted name text at single
    rcases forms with ⟨_, _, same⟩ | ⟨_, same⟩ | ⟨data, structured, json, written, same⟩ | same
    · exact absurd (single.symm.trans same) singleQuoted_ne_empty
    · rw [same] at single
      split at single
      · exact absurd single.symm singleQuoted_ne_name
      · exact absurd single quoted_ne_singleQuoted
    · have content : text = escapeApostrophes json := singleQuoted_inj.mp (single.symm.trans same)
      exact ⟨List.isPrefixOf_iff_prefix.mp data, structured, json, written, content⟩
    · exact absurd (same.symm.trans single) quoted_ne_singleQuoted
  · intro text double other
    change _ = quoted name text at double
    rcases forms with ⟨_, _, same⟩ | ⟨set, _⟩ | ⟨_, _, _, _, same⟩ | same
    · exact absurd (double.symm.trans same) quoted_ne_empty
    · exact absurd set (other true)
    · exact absurd (double.symm.trans same) quoted_ne_singleQuoted
    · have content : text = escape (shown name value) := quoted_inj.mp (double.symm.trans same)
      have safe := isSafe_escapeText (shown name value).toText
      rw [content]
      exact ⟨safe.opening, safe.closing, unescapeText_escapeText _⟩

/-- An apostrophe in a list under a name of data, and a class that looks like a tag. -/
theorem apostrophe_stays_in_quotes :
    '"' ∉ "data-opts".toList ∧ [true][0]? = some true ∧
      attr "data-opts" (.array [.text "it's"]) true false = " data-opts='[\"it&apos;s\"]'" ∧
      (∃ json, (Value.array [.text "it's"]).jsonText? = some json ∧ "[\"it&apos;s\"]" = escapeApostrophes json) ∧
      ∃ text, classes [.text "<a>"] [true] = " class=\"" ++ text ++ "\"" ∧ '<' ∉ text.toList ∧
        unescapeText text = "<a>" := by
  have plain : '"' ∉ "data-opts".toList := by decide
  have written : attr "data-opts" (.array [.text "it's"]) true false = " data-opts='[\"it&apos;s\"]'" := by decide
  obtain ⟨-, single, -, listed⟩ := escaped_values_stay_in_quotes plain (.array [.text "it's"]) false
  obtain ⟨-, -, stored⟩ := single "[\"it&apos;s\"]" written
  refine ⟨plain, rfl, written, stored, ?_⟩
  have flagged : ∀ index < [Value.text "<a>"].length, [true][index]? = some true := by
    intro index inside
    obtain rfl : index = 0 := by simpa using inside
    rfl
  rcases listed [.text "<a>"] [true] flagged with ⟨none, _⟩ | ⟨text, shown, _, safe, _, read⟩
  · exact absurd none (by decide)
  · exact ⟨text, shown, safe, read⟩

end NimTemplate.Markup
