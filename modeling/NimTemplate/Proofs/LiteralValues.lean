import NimTemplate.Proofs.NumberText
import NimTemplate.Proofs.ValueText

/-! Values through their literals. What is written for a value is a JSON document, or `nil` where it
has none, and the literal stands for the value of that document. Numbers that are not finite come
back as null, functions and absent values as null or not at all. A list or number has the same string
form again exactly when nothing of that kind is in it. -/

namespace NimTemplate

namespace Number

open Decimal (Prints)

variable {x : Float}

theorem json?_eq_none_iff : json? x = none ↔ x.isFinite = false := by
  unfold json?
  cases finite : x.isFinite with
  | false => simp
  | true =>
    simp only [Bool.not_true, Bool.false_eq_true, if_false, Bool.true_eq_false, iff_false]
    split
    · simp
    · split <;> simp

theorem json?_of_zero (zero : Double.magnitude x = 0) : json? x = some "0" := by
  have finite : x.isFinite = true := (Double.isFinite_iff x).mpr (zero ▸ by decide)
  rw [json?, finite, if_neg (by decide), if_pos zero]

/-- The digits of a number in JSON are a numeral for it. -/
theorem json?_of_filled (filled : 0 < Double.magnitude x) (finite : Double.magnitude x < Double.infinity) :
    ∃ layout, Prints (Double.magnitude x) layout ∧ json? x = some (signed x layout) := by
  have isFinite : x.isFinite = true := (Double.isFinite_iff x).mpr finite
  have reads := Decimal.readsAs_shortest .even filled finite
  obtain ⟨layout, prints, whole⟩ := text_of_filled filled finite
  rw [json?, isFinite, if_neg (by decide), if_neg (Nat.ne_of_gt filled)]
  simp only
  split
  next => exact ⟨layout, prints, congrArg some whole⟩
  next =>
    refine ⟨_, ?_, rfl⟩
    split
    next => exact reads.scientific
    next part =>
      have negative := Int.not_le.mp (not_or.mp part).2
      exact ⟨⟨_, Decimal.numeral_positional _ negative, reads.magnitude⟩, Decimal.isOctalForm_positional reads.filled⟩

theorem isFinite_of_json {text : String} (written : json? x = some text) : x.isFinite = true := by
  rw [← Bool.not_eq_false, ← json?_eq_none_iff, written]
  simp

theorem read_json {text : String} (written : json? x = some text) : read text = unsignedZero x := by
  have bounded := (Double.isFinite_iff x).mp (isFinite_of_json written)
  have number : x.isNaN = false := (Double.isNaN_eq_false_iff x).mpr (Nat.le_of_lt bounded)
  rcases Nat.eq_zero_or_pos (Double.magnitude x) with zero | filled
  · rw [json?_of_zero zero] at written
    cases written
    rw [unsignedZero_of_zero number zero]
    decide +kernel
  · obtain ⟨layout, prints, same⟩ := json?_of_filled filled bounded
    rw [same] at written
    cases written
    rw [unsignedZero_of_filled filled]
    exact read_signed prints number

theorem json?_unsignedZero (number : x.isNaN = false) : json? (unsignedZero x) = json? x := by
  rcases Nat.eq_zero_or_pos (Double.magnitude x) with zero | filled
  · have size := Double.magnitude_ofMagnitude false (Nat.zero_le Double.infinity)
    rw [unsignedZero_of_zero number zero, json?_of_zero zero, json?_of_zero size]
  · rw [unsignedZero_of_filled filled]

/-- The text of a number that is not finite starts with a letter or a sign. -/
theorem text_of_not_finite (unbounded : x.isFinite = false) :
    ∃ c rest, (text x).toList = c :: rest ∧ c ∈ ['N', 'I', '-'] := by
  cases number : x.isNaN with
  | true =>
    rw [text, number, if_pos rfl]
    exact ⟨'N', ['a', 'N'], rfl, by decide⟩
  | false =>
    have infinite : x.isInf = true := by
      rw [Double.isInf_iff]
      have size := (Double.isNaN_eq_false_iff x).mp number
      have large := mt (Double.isFinite_iff x).mpr (Bool.eq_false_iff.mp unbounded)
      omega
    rw [text, number, if_neg (by decide), if_pos infinite, signed]
    cases Double.isNegative x with
    | true => exact ⟨'-', "Infinity".toList, rfl, by decide⟩
    | false => exact ⟨'I', "nfinity".toList, rfl, by decide⟩

end Number

namespace Text

/-- The texts in order, each behind a mark. -/
def marked (mark : Char) (texts : List String) : List Char := texts.flatMap fun text => mark :: text.toList

theorem marked_cons (mark : Char) (text : String) (rest : List String) :
    marked mark (text :: rest) = mark :: (text.toList ++ marked mark rest) := rfl

theorem toList_intercalate {separator : String} {mark : Char} (single : separator.toList = [mark]) (texts : List String) :
    (separator.intercalate texts).toList = (marked mark texts).tail := by
  induction texts with
  | nil => simp [marked]
  | cons first rest ih =>
    cases rest with
    | nil => simp [marked]
    | cons next more =>
      simp only [marked, List.flatMap_cons, List.cons_append, List.tail_cons] at ih ⊢
      simp [String.intercalate_cons_cons, single, ih]

/-- Two texts that part behind a common beginning. The second may end there, and a mark that ends an
item may follow it. -/
def Diverge (one other : List Char) : Prop :=
  ∃ before c rest left, one = before ++ c :: rest ∧ other = before ++ left ∧ c ∉ [',', ';'] ∧ left.head? ≠ some c

namespace Diverge

variable {one other : List Char}

theorem ne (diverge : Diverge one other) : one ≠ other := by
  obtain ⟨before, c, rest, left, rfl, rfl, _, apart⟩ := diverge
  intro same
  rw [← List.append_cancel_left same] at apart
  exact apart rfl

theorem of_missing {c : Char} (inner : c ∉ [',', ';']) (rest : List Char) : Diverge (c :: rest) [] :=
  ⟨[], c, rest, [], rfl, rfl, inner, by simp⟩

theorem behind (diverge : Diverge one other) (first : List Char) : Diverge (first ++ one) (first ++ other) := by
  obtain ⟨before, c, rest, left, rfl, rfl, inner, apart⟩ := diverge
  exact ⟨first ++ before, c, rest, left, by simp, by simp, inner, apart⟩

theorem before (diverge : Diverge one other) (rest : List Char) {left : List Char}
    (ends : ∀ c ∈ left.head?, c ∈ [',', ';']) : Diverge (one ++ rest) (other ++ left) := by
  obtain ⟨before, c, more, end_, rfl, rfl, inner, apart⟩ := diverge
  refine ⟨before, c, more ++ rest, end_ ++ left, by simp, by simp, inner, ?_⟩
  cases end_ with
  | nil => exact fun first => inner (ends c first)
  | cons d others => exact apart

theorem tail {mark : Char} (marks : mark ∈ [',', ';']) (diverge : Diverge (mark :: one) (mark :: other)) :
    Diverge one other := by
  obtain ⟨before, c, rest, left, first, second, inner, apart⟩ := diverge
  cases before with
  | nil =>
    cases first
    exact absurd marks inner
  | cons d before =>
    cases first
    exact ⟨before, c, rest, left, rfl, (List.cons.inj second).2, inner, apart⟩

end Diverge

theorem head?_marked (mark : Char) (texts : List String) : ∀ c ∈ (marked mark texts).head?, c = mark := by
  cases texts with
  | nil => simp [marked]
  | cons text rest => simp [marked]

end Text

namespace Json

mutual

/-- The value that a document stands for. -/
def value : Json → Value
  | null => .null
  | bool b => .bool b
  | number literal => .number (Number.read literal)
  | string s => .text s
  | array items => .array (valueItems items)
  | object members => .object (valueMembers members)

def valueItems : List Json → List Value
  | [] => []
  | item :: rest => item.value :: valueItems rest

def valueMembers : List (String × Json) → List (String × Value)
  | [] => []
  | (name, json) :: rest => (name, json.value) :: valueMembers rest

end

end Json

namespace Value

/-- What the literal of a value stands for. -/
def reread (value : Value) : Value := (value.toJson?.map Json.value).getD .null

theorem reread_number (x : Float) :
    (number x).reread = if x.isFinite then number (Number.unsignedZero x) else null := by
  simp only [reread, toJson?, Option.map_some, Option.getD_some]
  cases written : Number.json? x with
  | none =>
    rw [Number.json?_eq_none_iff.mp written]
    rfl
  | some text =>
    rw [Number.isFinite_of_json written, if_pos rfl, ← Number.read_json written]
    rfl

theorem reread_array (items : List Value) : (array items).reread = array (items.map reread) := by
  have each : Json.valueItems (jsonItems items) = items.map reread := by
    induction items with
    | nil => rfl
    | cons item rest ih =>
      rw [jsonItems, Json.valueItems, ih, List.map_cons, reread]
      cases item.toJson? <;> rfl
  exact congrArg array each

/-- The fields that a literal has, which are those with a JSON form. -/
def rereadFields (fields : List (String × Value)) : List (String × Value) :=
  (fields.filter fun field => !field.2.isAbsent).map fun field => (field.1, field.2.reread)

theorem rereadFields_of_absent {value : Value} (absent : value.isAbsent) (name : String) (rest : List (String × Value)) :
    rereadFields ((name, value) :: rest) = rereadFields rest := by
  rw [rereadFields, List.filter_cons_of_neg (by simp [absent])]
  rfl

theorem rereadFields_of_present {value : Value} (present : value.isAbsent = false) (name : String)
    (rest : List (String × Value)) : rereadFields ((name, value) :: rest) = (name, value.reread) :: rereadFields rest := by
  rw [rereadFields, List.filter_cons_of_pos (by simp [present])]
  rfl

theorem isAbsent_of_toJson? {value : Value} {json : Json} (written : value.toJson? = some json) : value.isAbsent = false := by
  rw [← Bool.not_eq_true, ← toJson?_eq_none_iff, written]
  simp

theorem reread_object (fields : List (String × Value)) : (object fields).reread = object (rereadFields fields) := by
  have each : Json.valueMembers (jsonFields fields) = rereadFields fields := by
    induction fields with
    | nil => rfl
    | cons field rest ih =>
      obtain ⟨name, value⟩ := field
      rw [jsonFields]
      cases written : value.toJson? with
      | none =>
        rw [rereadFields_of_absent ((toJson?_eq_none_iff value).mp written)]
        exact ih
      | some json =>
        rw [rereadFields_of_present (isAbsent_of_toJson? written), ← ih, reread, written]
        rfl
  exact congrArg object each

mutual

/-- A literal is written the same for what it stands for. -/
theorem toJson?_reread (value : Value) : value.reread.toJson? = some (value.toJson?.getD .null) := by
  match value with
  | undefined | builtin _ | null | bool _ | text _ => rfl
  | number x =>
    rw [reread_number]
    cases finite : x.isFinite with
    | false =>
      rw [toJson?, Number.json?_eq_none_iff.mpr finite]
      rfl
    | true =>
      have bounded := (Double.isFinite_iff x).mp finite
      rw [if_pos rfl, toJson?, toJson?,
        Number.json?_unsignedZero ((Double.isNaN_eq_false_iff x).mpr (Nat.le_of_lt bounded))]
      rfl
  | array items =>
    rw [reread_array, toJson?, toJson?, jsonItems_reread items]
    rfl
  | object fields =>
    rw [reread_object, toJson?, toJson?, jsonFields_reread fields]
    rfl
termination_by structural value

theorem jsonItems_reread (items : List Value) : jsonItems (items.map reread) = jsonItems items := by
  match items with
  | [] => rfl
  | item :: rest =>
    rw [List.map_cons, jsonItems, jsonItems, toJson?_reread item, jsonItems_reread rest]
    rfl
termination_by structural items

theorem jsonFields_reread (fields : List (String × Value)) : jsonFields (rereadFields fields) = jsonFields fields := by
  match fields with
  | [] => rfl
  | (name, value) :: rest =>
    cases written : value.toJson? with
    | none =>
      rw [rereadFields_of_absent ((toJson?_eq_none_iff value).mp written), jsonFields_reread rest, jsonFields, written]
    | some json =>
      rw [rereadFields_of_present (isAbsent_of_toJson? written), jsonFields, toJson?_reread value,
        jsonFields_reread rest, jsonFields, written]
      rfl
termination_by structural fields

end

theorem jsonText?_reread {value : Value} (present : value.isAbsent = false) : value.reread.jsonText? = value.jsonText? := by
  rw [jsonText?, jsonText?, toJson?_reread]
  cases written : value.toJson? with
  | some json => rfl
  | none => simp [(toJson?_eq_none_iff value).mp written] at present

mutual

/-- The string form of a value is also that of its literal. Absent items leave the same empty place. -/
def keepsText : Value → Bool
  | undefined | builtin _ => false
  | number x => x.isFinite
  | array items => keepItemTexts items
  | _ => true

def keepItemTexts : List Value → Bool
  | [] => true
  | item :: rest => (item.isNullish || item.keepsText) && keepItemTexts rest

end

theorem isAbsent_of_keepsText {value : Value} (keeps : value.keepsText) : value.isAbsent = false := by
  cases value with
  | undefined | builtin => cases keeps
  | null | bool | number | text | array | object => rfl

theorem toText_reread_number {x : Float} (finite : x.isFinite) : (number x).reread.toText = (number x).toText := by
  have bounded := (Double.isFinite_iff x).mp finite
  rw [reread_number, if_pos finite]
  exact Number.text_unsignedZero ((Double.isNaN_eq_false_iff x).mpr (Nat.le_of_lt bounded))

/-- The text of an item in a list, which is empty for null. -/
def itemText (item : Value) : String := if item.isNullish then "" else item.toText

theorem itemText_reread_of_nullish {item : Value} (absent : item.isNullish) : item.reread.itemText = item.itemText := by
  cases item with
  | undefined | null => rfl
  | bool | number | text | array | object | builtin => cases absent

theorem itemText_reread_of_keepsText {item : Value} (keeps : item.keepsText) (same : item.reread.toText = item.toText) :
    item.reread.itemText = item.itemText := by
  have nullish : item.reread.isNullish = item.isNullish := by
    cases item with
    | number x =>
      rw [reread_number, if_pos (by exact keeps)]
      rfl
    | array items =>
      rw [reread_array]
      rfl
    | object fields =>
      rw [reread_object]
      rfl
    | undefined | builtin => cases keeps
    | null | bool | text => rfl
  rw [itemText, itemText, nullish, same]

mutual

theorem toText_reread (value : Value) (keeps : value.keepsText) : value.reread.toText = value.toText := by
  match value with
  | undefined | builtin _ => cases keeps
  | null | bool _ | text _ => rfl
  | number x => exact toText_reread_number keeps
  | object fields => rw [reread_object, toText, toText]
  | array items => rw [reread_array, toText, toText, itemTexts_reread items keeps]
termination_by structural value

theorem itemTexts_reread (items : List Value) (keep : keepItemTexts items) :
    itemTexts (items.map reread) = itemTexts items := by
  match items with
  | [] => rfl
  | item :: rest =>
    simp only [keepItemTexts, Bool.and_eq_true, Bool.or_eq_true] at keep
    rw [List.map_cons, itemTexts, itemTexts, itemTexts_reread rest keep.2]
    congr 1
    rcases keep.1 with absent | keeps
    · exact itemText_reread_of_nullish absent
    · exact itemText_reread_of_keepsText keeps (toText_reread item keeps)
termination_by structural items

end

theorem marked_itemTexts_cons (item : Value) (rest : List Value) :
    Text.marked ',' (itemTexts (item :: rest)) = ',' :: (item.itemText.toList ++ Text.marked ',' (itemTexts rest)) := by
  rw [itemTexts]
  exact Text.marked_cons _ _ _

theorem toText_array (items : List Value) : (array items).toText.toList = (Text.marked ',' (itemTexts items)).tail := by
  have single : ",".toList = [','] := rfl
  rw [toText, Text.toList_intercalate single]

theorem inner_of_not_finite {c : Char} (start : c ∈ ['N', 'I', '-']) : c ∉ [',', ';'] := by
  simp only [List.mem_cons, List.not_mem_nil, or_false] at start
  rcases start with rfl | rfl | rfl <;> decide

mutual

/-- An item that is lost, or one in it, leaves its place empty in the literal. -/
theorem diverge_item (item : Value) (shown : item.isNullish = false) (lost : item.keepsText = false) :
    Text.Diverge item.itemText.toList item.reread.itemText.toList := by
  match item with
  | undefined => cases shown
  | null | bool _ | text _ | object _ => cases lost
  | builtin b => cases b <;> exact Text.Diverge.of_missing (by decide) _
  | number x =>
    obtain ⟨c, rest, written, start⟩ := Number.text_of_not_finite lost
    have empty : (number x).reread.itemText = "" := by
      rw [reread_number, show x.isFinite = false from lost]
      rfl
    have filled : (number x).itemText.toList = c :: rest := written
    rw [empty, filled]
    exact Text.Diverge.of_missing (inner_of_not_finite start) rest
  | array items =>
    have parts := diverge_items items lost
    have same : (array items).reread.itemText = (array (items.map reread)).toText := by
      rw [reread_array]
      rfl
    rw [same, toText_array]
    have whole : (array items).itemText.toList = (Text.marked ',' (itemTexts items)).tail := toText_array items
    rw [whole]
    cases items with
    | nil => cases lost
    | cons item rest =>
      rw [List.map_cons, marked_itemTexts_cons, marked_itemTexts_cons] at parts ⊢
      exact parts.tail (by decide)
termination_by structural item

theorem diverge_items (items : List Value) (lost : keepItemTexts items = false) :
    Text.Diverge (Text.marked ',' (itemTexts items)) (Text.marked ',' (itemTexts (items.map reread))) := by
  match items with
  | [] => cases lost
  | item :: rest =>
    rw [List.map_cons, marked_itemTexts_cons, marked_itemTexts_cons]
    by_cases keep : item.isNullish || item.keepsText
    · have left := diverge_items rest (by simpa [keepItemTexts, keep] using lost)
      have same : item.reread.itemText = item.itemText := by
        rcases Bool.or_eq_true _ _ ▸ keep with absent | keeps
        · exact itemText_reread_of_nullish absent
        · exact itemText_reread_of_keepsText keeps (toText_reread item keeps)
      rw [same]
      exact left.behind (',' :: item.itemText.toList)
    · simp only [Bool.or_eq_true, not_or, Bool.not_eq_true] at keep
      refine ((diverge_item item keep.1 keep.2).before _ ?_).behind [',']
      intro c first
      rw [Text.head?_marked ',' _ c first]
      decide
termination_by structural items

end

theorem diverge_text {value : Value} (present : value.isAbsent = false) (lost : value.keepsText = false) :
    Text.Diverge value.toText.toList value.reread.toText.toList := by
  cases value with
  | undefined | builtin => cases present
  | null | bool | text | object => cases lost
  | number x =>
    obtain ⟨c, rest, written, start⟩ := Number.text_of_not_finite lost
    have unknown : (number x).reread.toText = "null" := by
      rw [reread_number, show x.isFinite = false from lost]
      rfl
    rw [unknown]
    refine ⟨[], c, rest, "null".toList, written, rfl, inner_of_not_finite start, ?_⟩
    simp only [List.mem_cons, List.not_mem_nil, or_false] at start
    rcases start with rfl | rfl | rfl <;> decide
  | array items =>
    have items := diverge_item (array items) rfl lost
    rw [reread_array] at items ⊢
    exact items

end Value

end NimTemplate
