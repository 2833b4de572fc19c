import NimTemplate.Compile.Attributes
import NimTemplate.Proofs.FieldNames
import NimTemplate.Proofs.LiteralValues

/-! Attributes with a known value. An element writes them out, a table stores a literal for rendering.
A table stores an escaped value as text, so that it need not be escaped again; what a value other
than a text would have meant for the attribute is lost there. Where the value itself is stored, the
literal loses what JSON has no form for. -/

namespace NimTemplate

namespace Markup

section

variable {name text : String} {value : Value} {terse : Bool}

theorem quoted_inj {other : String} : quoted name text = quoted name other ↔ text = other := by
  simp [quoted]

theorem quoted_ne_empty : quoted name text ≠ "" := by
  simp [quoted]

/-- An attribute that is named alone has no value, and a quoted one does. -/
theorem quoted_ne_name : quoted name text ≠ " " ++ name := by
  simp [quoted, String.append_assoc]

theorem attr_text (escaped : Bool) :
    attr name (.text text) escaped terse = quoted name (if escaped then escapeText text else text) := by
  by_cases named : name = "style" <;> simp [attr, style, quotedValue, escape, Value.toText, named]

theorem attr_bool (b escaped : Bool) :
    attr name (.bool b) escaped terse = if b then if terse then " " ++ name else quoted name name else "" := by
  by_cases named : name = "style" <;> cases b <;> simp [attr, style, named]

/-- The names of functions hold nothing that is escaped. -/
theorem escape_builtin (b : Builtin) : escape (.builtin b) = (Value.builtin b).toText := by
  cases b <;> decide

/-- The text of style properties has a colon behind each name. -/
theorem escape_style_ne (fields : List (String × Value)) : escape (style (.object fields)) ≠ "[object Object]" := by
  cases fields with
  | nil => decide
  | cons field rest =>
    have written : ':' ∈ (";".intercalate ((field :: rest).map styleField)).toList := by
      cases rest <;> simp [styleField]
    have colon : ':' ∈ (escape (style (.object (field :: rest)))).toList := by
      simp only [escape, style, escapeText, Value.toText, String.toList_ofList]
      exact List.mem_flatMap.mpr ⟨':', written, by decide⟩
    intro same
    rw [same] at colon
    exact absurd colon (by decide)

/-- Values that are stored as they are, even where an attribute is escaped: those that are written as
JSON under the name, and those that are not written there. -/
def staysRaw (name : String) : Value → Bool
  | .text _ => false
  | _ => isData name

theorem isData_of_staysRaw (raw : staysRaw name value) : isData name := by
  cases value with
  | text => cases raw
  | undefined | null | bool | number | array | object | builtin => exact raw

theorem attr_of_staysRaw (raw : staysRaw name value) (escaped : Bool) :
    attr name value escaped terse = attr name value false terse := by
  have data := isData_of_staysRaw raw
  have named : name ≠ "style" := by
    rintro rfl
    exact absurd data (by decide)
  cases value with
  | text => cases raw
  | undefined | null | bool => simp [attr, named]
  | number | array | object => simp [attr, named, data]
  | builtin b => simp [attr, named, quotedValue, escape_builtin]

/-- The value switches an attribute on or off, or lists style properties, and a text with its
string form does not do so. -/
def losesMeaning (name : String) (terse : Bool) : Value → Bool
  | .undefined | .null | .bool false => true
  | .bool true => name != "true" || terse
  | .object _ => name == "style"
  | _ => false

theorem quoted_escape_eq_attr_iff (plain : isData name = false) :
    quoted name (escape value) = attr name value true terse ↔ ¬ losesMeaning name terse value := by
  cases value with
  | undefined | null => simp [attr, style, losesMeaning, quoted_ne_empty]
  | bool b =>
    cases b with
    | false => simp [attr_bool, losesMeaning, quoted_ne_empty]
    | true =>
      have spelled : escape (.bool true) = "true" := by decide
      cases terse with
      | true => simp [attr_bool, losesMeaning, quoted_ne_name]
      | false => simpa [attr_bool, losesMeaning, quoted_inj, spelled] using eq_comm
  | text | builtin => simp [attr, style, losesMeaning, quotedValue]
  | number | array => simp [attr, style, losesMeaning, quotedValue, plain]
  | object fields =>
    have spelled : escape (.object fields) = "[object Object]" := by
      simp only [escape, Value.toText]
      decide
    by_cases named : name = "style"
    · have styled := escape_style_ne fields
      simp only [style] at styled
      simp [attr, losesMeaning, quotedValue, named, style, quoted_inj, spelled, styled.symm]
    · simp [attr, losesMeaning, quotedValue, plain, named]

/-- The attribute shows a part of the value that its literal does not have. Under a name of data a
list or object is shown as JSON in either case. -/
def losesDetail (name : String) : Value → Bool
  | .builtin _ => true
  | .number x => !x.isFinite
  | .array items => !isData name && !(Value.array items).keepsText
  | .object fields => name == "style" && fields.any (!·.2.keepsText)
  | _ => false

/-- Style properties are told apart from their values by the first colon. -/
def HasPlainNames : Value → Prop
  | .object fields => ∀ field ∈ fields, ':' ∉ field.1.toList
  | _ => True

theorem marked_styleField (name : String) (value : Value) (rest : List String) :
    Text.marked ';' (styleField (name, value) :: rest) =
      ';' :: (name.toList ++ ':' :: (value.toText.toList ++ Text.marked ';' rest)) := by
  simp [Text.marked_cons, styleField]

theorem style_object (fields : List (String × Value)) :
    ∃ text, style (.object fields) = .text text ∧ text.toList = (Text.marked ';' (fields.map styleField)).tail := by
  have single : ";".toList = [';'] := rfl
  exact ⟨_, rfl, Text.toList_intercalate single _⟩

theorem name_eq_of_colon {one other : String} {rest left : List Char} (plain : ':' ∉ one.toList)
    (otherPlain : ':' ∉ other.toList) (same : one.toList ++ ':' :: rest = other.toList ++ ':' :: left) : one = other := by
  have run : ∀ {name : String} (more : List Char), ':' ∉ name.toList →
      (name.toList ++ ':' :: more).takeWhile (· != ':') = name.toList := by
    intro name more plain
    refine Text.takeWhile_run ?_ (by simp)
    intro c member
    simpa using fun colon : c = ':' => plain (colon ▸ member)
  exact String.toList_inj.mp ((run rest plain).symm.trans (same ▸ run left otherPlain))

theorem styleFields_reread {fields : List (String × Value)} (kept : ∀ field ∈ fields, field.2.keepsText) :
    (Value.rereadFields fields).map styleField = fields.map styleField := by
  induction fields with
  | nil => rfl
  | cons field rest ih =>
    obtain ⟨name, value⟩ := field
    have keeps : value.keepsText := kept (name, value) List.mem_cons_self
    rw [Value.rereadFields_of_present (Value.isAbsent_of_keepsText keeps), List.map_cons, List.map_cons,
      ih fun other member => kept other (List.mem_cons_of_mem _ member), styleField, styleField,
      Value.toText_reread value keeps]

theorem mem_names_of_rereadFields {field : String × Value} {fields : List (String × Value)}
    (member : field ∈ Value.rereadFields fields) : field.1 ∈ fields.map Prod.fst := by
  obtain ⟨old, kept, rfl⟩ := List.mem_map.mp member
  exact List.mem_map.mpr ⟨old, (List.mem_filter.mp kept).1, rfl⟩

/-- The first property that is lost makes the texts differ: it is left out, and another name stands
there, or what stands behind its name starts otherwise. -/
theorem styleFields_reread_ne {fields : List (String × Value)} (once : (fields.map Prod.fst).Nodup)
    (plain : ∀ field ∈ fields, ':' ∉ field.1.toList) (lost : fields.any (!·.2.keepsText)) :
    Text.marked ';' ((Value.rereadFields fields).map styleField) ≠ Text.marked ';' (fields.map styleField) := by
  induction fields with
  | nil => cases lost
  | cons field rest ih =>
    obtain ⟨name, value⟩ := field
    have later := ih (List.nodup_cons.mp once).2 fun other member => plain other (List.mem_cons_of_mem _ member)
    cases keeps : value.keepsText with
    | true =>
      rw [Value.rereadFields_of_present (Value.isAbsent_of_keepsText keeps), List.map_cons, List.map_cons,
        marked_styleField, marked_styleField, Value.toText_reread value keeps]
      intro same
      refine later (by simpa [keeps] using lost) ?_
      simpa using same
    | false =>
      cases present : value.isAbsent with
      | true =>
        rw [Value.rereadFields_of_absent present, List.map_cons, marked_styleField]
        intro same
        cases others : Value.rereadFields rest with
        | nil => simp [others, Text.marked] at same
        | cons field more =>
          have behind := mem_names_of_rereadFields (others ▸ List.mem_cons_self : field ∈ Value.rereadFields rest)
          obtain ⟨old, written, first⟩ := List.mem_map.mp behind
          rw [others, List.map_cons, marked_styleField] at same
          have name_eq := name_eq_of_colon (first ▸ plain old (List.mem_cons_of_mem _ written))
            (plain (name, value) List.mem_cons_self) (List.cons.inj same).2
          exact (List.nodup_cons.mp once).1 (name_eq ▸ behind)
      | false =>
        rw [Value.rereadFields_of_present present, List.map_cons, List.map_cons, marked_styleField, marked_styleField]
        have ends : ∀ c ∈ (Text.marked ';' ((Value.rereadFields rest).map styleField)).head?, c ∈ [',', ';'] := by
          intro c first
          rw [Text.head?_marked ';' _ c first]
          decide
        have apart := (Value.diverge_text present keeps).before (Text.marked ';' (rest.map styleField)) ends
        simpa using apart.ne.symm

theorem style_text_ne {fields : List (String × Value)} (once : (fields.map Prod.fst).Nodup)
    (plain : ∀ field ∈ fields, ':' ∉ field.1.toList) (lost : fields.any (!·.2.keepsText)) :
    style (.object (Value.rereadFields fields)) ≠ style (.object fields) := by
  obtain ⟨one, first, written⟩ := style_object (Value.rereadFields fields)
  obtain ⟨other, second, whole⟩ := style_object fields
  have apart := styleFields_reread_ne once plain lost
  rw [first, second]
  intro same
  cases same
  have tails := written.symm.trans whole
  cases fields with
  | nil => cases lost
  | cons field rest =>
    obtain ⟨name, value⟩ := field
    cases kept : Value.rereadFields ((name, value) :: rest) with
    | nil =>
      rw [kept, List.map_cons, marked_styleField] at tails
      simp [Text.marked] at tails
    | cons field more =>
      rw [kept, List.map_cons, List.map_cons, marked_styleField, marked_styleField] at tails apart
      exact apart (congrArg (';' :: ·) tails)

/-- How numbers and lists are written, and objects that are no styles. -/
def writtenOut (name : String) (value : Value) (escaped : Bool) : String :=
  if isData name then " " ++ name ++ "='" ++ escapeApostrophes (value.jsonText?.getD "") ++ "'"
  else quotedValue name value escaped

section

variable (escaped : Bool)

theorem attr_number (x : Float) : attr name (.number x) escaped terse = writtenOut name (.number x) escaped := by
  by_cases named : name = "style" <;> simp [attr, style, named, writtenOut]

theorem attr_array (items : List Value) : attr name (.array items) escaped terse = writtenOut name (.array items) escaped := by
  by_cases named : name = "style" <;> simp [attr, style, named, writtenOut]

theorem attr_object (named : name ≠ "style") (fields : List (String × Value)) :
    attr name (.object fields) escaped terse = writtenOut name (.object fields) escaped := by
  simp [attr, named, writtenOut]

theorem attr_builtin (b : Builtin) : attr name (.builtin b) escaped terse = quotedValue name (.builtin b) escaped := by
  by_cases named : name = "style" <;> simp [attr, style, named]

theorem writtenOut_reread (present : value.isAbsent = false) (text : isData name = false → value.reread.toText = value.toText) :
    writtenOut name value.reread escaped = writtenOut name value escaped := by
  cases data : isData name with
  | true => simp [writtenOut, data, Value.jsonText?_reread present]
  | false => simp [writtenOut, data, quotedValue, escape, text data]

theorem attr_reread_of_kept (kept : losesDetail name value = false) :
    attr name value.reread escaped terse = attr name value escaped terse := by
  cases value with
  | undefined =>
    have unknown : Value.undefined.reread = .null := rfl
    simp [unknown, attr, style]
  | null | bool | text => rfl
  | builtin => cases kept
  | number x =>
    have finite : x.isFinite := by simpa [losesDetail] using kept
    have same := writtenOut_reread escaped rfl fun _ : isData name = false => Value.toText_reread_number finite
    rw [Value.reread_number, if_pos finite] at same ⊢
    rw [attr_number, attr_number, same]
  | array items =>
    have same := writtenOut_reread escaped rfl fun plain : isData name = false =>
      Value.toText_reread (.array items) (by simpa [losesDetail, plain] using kept)
    rw [Value.reread_array] at same ⊢
    rw [attr_array, attr_array, same]
  | object fields =>
    by_cases named : name = "style"
    · have each : ∀ field ∈ fields, field.2.keepsText := by simpa [losesDetail, named] using kept
      rw [Value.reread_object]
      simp only [attr, named, if_pos, style, styleFields_reread each]
    · have same := writtenOut_reread escaped rfl fun _ : isData name = false => Value.toText_reread (.object fields) rfl
      rw [Value.reread_object] at same ⊢
      rw [attr_object escaped named, attr_object escaped named, same]

end

theorem attr_null (escaped : Bool) : attr name .null escaped terse = "" := by
  simp [attr, style]

theorem writtenOut_ne_empty (escaped : Bool) : writtenOut name value escaped ≠ "" := by
  rw [writtenOut]
  split
  · simp
  · exact quoted_ne_empty

theorem attr_reread_ne (distinct : value.Distinct) (plain : name = "style" → HasPlainNames value)
    (lost : losesDetail name value) : attr name value.reread false terse ≠ attr name value false terse := by
  cases distinct with
  | undefined | null | bool | text => cases lost
  | builtin b =>
    have unknown : (Value.builtin b).reread = .null := rfl
    rw [unknown, attr_null, attr_builtin]
    exact quoted_ne_empty.symm
  | number x =>
    have infinite : x.isFinite = false := by simpa [losesDetail] using lost
    rw [Value.reread_number, infinite, if_neg (by decide), attr_null, attr_number]
    exact (writtenOut_ne_empty false).symm
  | @array items _ =>
    simp only [losesDetail, Bool.and_eq_true, Bool.not_eq_true'] at lost
    have present : (Value.array items).isAbsent = false := rfl
    have apart := mt String.toList_inj.mpr (Value.diverge_text present lost.2).ne.symm
    rw [Value.reread_array] at apart ⊢
    rw [attr_array, attr_array]
    simpa [writtenOut, lost.1, quotedValue, quoted_inj] using apart
  | @object fields once _ =>
    simp only [losesDetail, Bool.and_eq_true, beq_iff_eq] at lost
    obtain ⟨rfl, lost⟩ := lost
    have apart := style_text_ne once (plain rfl) lost
    rw [Value.reread_object]
    obtain ⟨one, first, -⟩ := style_object (Value.rereadFields fields)
    obtain ⟨other, second, -⟩ := style_object fields
    simpa [attr, first, second, quotedValue, quoted_inj, Value.toText] using apart

end

end Markup

namespace Compile

/-- The document that a table holds for an attribute. -/
def tableLiteral (attr : Attribute) (value : Value) : Option Json :=
  (if attr.escaped && !Markup.staysRaw attr.name value then .text (Markup.escape value) else value).toJson?

/-- What a table holds means another attribute than the value does in an element. -/
def losesInTable (attr : Attribute) (terse : Bool) (value : Value) : Bool :=
  if attr.escaped && !Markup.isData attr.name then Markup.losesMeaning attr.name terse value
  else Markup.losesDetail attr.name value

/-- The value that a table holds, which is null where nothing is written for it. -/
def tableValue (attr : Attribute) (value : Value) : Value := ((tableLiteral attr value).map Json.value).getD .null

theorem constant?_of_known {context : Context} {source : String} {value : Value} (known : context.known? source = some value) :
    constant? source = some value := by
  rw [Context.known?] at known
  split at known
  · exact known
  · cases known

theorem knownEntry_eq (attr : Attribute) (value : Value) :
    knownEntry attr value = ((tableLiteral attr value).map Json.render).getD "nil" := by
  cases value <;> rfl

theorem tableLiteral_of_escaped {attr : Attribute} (escaped : attr.escaped) (plain : Markup.isData attr.name = false)
    (value : Value) : tableLiteral attr value = some (.string (Markup.escape value)) := by
  have raw : Markup.staysRaw attr.name value = false := by
    apply Bool.eq_false_iff.mpr
    intro raw
    simp [Markup.isData_of_staysRaw raw] at plain
  simp [tableLiteral, escaped, raw, Value.toJson?]

/-- Where no attribute of the name is stored as text, the value itself is, or a text that is escaped. -/
theorem attr_tableValue {attr : Attribute} (stored : (attr.escaped && !Markup.isData attr.name) = false) (value : Value)
    (terse : Bool) :
    Markup.attr attr.name (tableValue attr value) false terse = Markup.attr attr.name value attr.escaped terse ↔
      Markup.attr attr.name value.reread false terse = Markup.attr attr.name value false terse := by
  cases escaped : attr.escaped with
  | false => simp [tableValue, tableLiteral, escaped, Value.reread]
  | true =>
    have data : Markup.isData attr.name := by simpa [escaped] using stored
    cases raw : Markup.staysRaw attr.name value with
    | true => simp [tableValue, tableLiteral, raw, Value.reread, Markup.attr_of_staysRaw raw true]
    | false =>
      cases value with
      | text s =>
        have reread : (Value.text s).reread = .text s := rfl
        simp [tableValue, tableLiteral, escaped, raw, Value.toJson?, Json.value, Markup.attr_text, Markup.escape,
          Value.toText, reread]
      | undefined | null | bool | number | array | object | builtin => cases data.symm.trans raw

theorem attr_tableValue_of_kept {attr : Attribute} {value : Value} {terse : Bool} (kept : losesInTable attr terse value = false) :
    Markup.attr attr.name (tableValue attr value) false terse = Markup.attr attr.name value attr.escaped terse := by
  rw [losesInTable] at kept
  split at kept
  next stored =>
    simp only [Bool.and_eq_true, Bool.not_eq_true'] at stored
    rw [tableValue, tableLiteral_of_escaped stored.1 stored.2, stored.1]
    exact (Markup.attr_text false).trans ((Markup.quoted_escape_eq_attr_iff stored.2).mpr (by simp [kept]))
  next stored =>
    exact (attr_tableValue (Bool.eq_false_iff.mpr stored) value terse).mpr (Markup.attr_reread_of_kept false kept)

theorem attr_tableValue_ne {attr : Attribute} {value : Value} {terse : Bool} (distinct : value.Distinct)
    (plain : attr.name = "style" → Markup.HasPlainNames value) (lost : losesInTable attr terse value) :
    Markup.attr attr.name (tableValue attr value) false terse ≠ Markup.attr attr.name value attr.escaped terse := by
  rw [losesInTable] at lost
  split at lost
  next stored =>
    simp only [Bool.and_eq_true, Bool.not_eq_true'] at stored
    rw [tableValue, tableLiteral_of_escaped stored.1 stored.2, stored.1]
    intro same
    exact (Markup.quoted_escape_eq_attr_iff stored.2).mp ((Markup.attr_text false).symm.trans same) lost
  next stored =>
    exact mt (attr_tableValue (Bool.eq_false_iff.mpr stored) value terse).mp (Markup.attr_reread_ne distinct plain lost)

/-- A known value is stored in a table as a literal, and an element writes the attribute out. Rendered
without further escaping, what the literal stands for gives the same attribute, unless something is
lost. An escaped value is stored as its string form, except under a name of data, and then truth
values, absent ones and style properties mean what the string form does not. Any other value is
stored as JSON, and then functions, numbers that are not finite, and lists and style properties with
such parts are lost. -/
theorem known_attribute_renders_alike {context : Context} {attr : Attribute} {value : Value}
    (known : context.known? attr.source = some value) (state : State) :
    entry context attr =
        Text.Quoted.literal attr.name ++ ": " ++ ((tableLiteral attr value).map Json.render).getD "nil" ∧
      State.attr context state attr = state.text (Markup.attr attr.name value attr.escaped state.dialect.terse) ∧
      (losesInTable attr state.dialect.terse value = false →
        Markup.attr attr.name (tableValue attr value) false state.dialect.terse =
          Markup.attr attr.name value attr.escaped state.dialect.terse) ∧
      (losesInTable attr state.dialect.terse value → (attr.name = "style" → Markup.HasPlainNames value) →
        Markup.attr attr.name (tableValue attr value) false state.dialect.terse ≠
          Markup.attr attr.name value attr.escaped state.dialect.terse) ∧
      (attr.escaped ∧ Markup.isData attr.name = false →
        tableLiteral attr value = some (.string (Markup.escape value))) := by
  refine ⟨?_, ?_, attr_tableValue_of_kept, ?_, fun stored => tableLiteral_of_escaped stored.1 stored.2 value⟩
  · rw [entry, known]
    exact congrArg _ (knownEntry_eq attr value)
  · rw [State.attr, known]
  · intro lost plain
    exact attr_tableValue_ne (constant?_distinct (constant?_of_known known)) plain lost

theorem constant?_false : constant? "false" = some (.bool false) := by
  have denotes : (Json.bool false).Denotes 0 (.bool false) := Json.denotes_bool false
  exact denotes.constant?_eq (by decide)

/-- Under a name of data, a truth value is stored as it is and switches the attribute off. -/
theorem switched_off_data_renders_alike :
    let attr : Attribute := ⟨"data-open", "false", true⟩
    entry ⟨{}, .none⟩ attr = "\"data-open\": false" ∧
      Markup.attr "data-open" (tableValue attr (.bool false)) false false = "" := by
  intro attr
  have known : (⟨{}, .none⟩ : Context).known? attr.source = some (.bool false) := constant?_false
  obtain ⟨stored, -, alike, -⟩ := known_attribute_renders_alike known (.initial {})
  exact ⟨stored.trans (by decide), alike (by decide)⟩

/-- An attribute that is switched off in an element is on when a table is rendered. -/
theorem switched_off_attribute_is_stored_as_text :
    let attr : Attribute := ⟨"checked", "false", true⟩
    constant? attr.source = some (.bool false) ∧ entry ⟨{}, .none⟩ attr = "\"checked\": \"false\"" ∧
      tableValue attr (.bool false) = .text "false" ∧
      Markup.attr "checked" (tableValue attr (.bool false)) false true = " checked=\"false\"" ∧
      Markup.attr "checked" (.bool false) true true = "" := by
  refine ⟨constant?_false, ?_, rfl, by decide, by decide⟩
  have known : (⟨{}, .none⟩ : Context).known? "false" = some (.bool false) := constant?_false
  rw [entry, known]
  decide

/-- The literal of a number that is not finite is null, which switches an attribute off. -/
example : Markup.attr "title" (tableValue ⟨"title", "0 / 0", false⟩ (.number Double.nan)) false false = "" ∧
    Markup.attr "title" (.number Double.nan) false false = " title=\"NaN\"" := by
  decide +kernel

end Compile

end NimTemplate
