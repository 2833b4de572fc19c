import Mathlib.Data.List.TakeWhile
import NimTemplate.Proofs.JsonNumbers

/-! The texts that write a JSON document, with blanks, escapes and spellings of numbers as the
writer likes them. Each of them is read as the document it writes. -/

namespace NimTemplate.Json

/-- The letters behind a backslash, and what they stand for. -/
inductive Escapes : Char → Char → Prop where
  | quote : Escapes '"' '"'
  | backslash : Escapes '\\' '\\'
  | slash : Escapes '/' '/'
  | backspace : Escapes 'b' '\x08'
  | formFeed : Escapes 'f' '\x0c'
  | lineFeed : Escapes 'n' '\n'
  | carriageReturn : Escapes 'r' '\r'
  | tab : Escapes 't' '\t'

/-- Hexadecimal digits that write a number. -/
structure IsUnit (digits : List Char) (n : Nat) : Prop where
  hex : ∀ c ∈ digits, Text.isHexDigit c
  number : Text.hexNumber digits = n

/-- The ways to write a character of a string. One that needs more than 16 bits is split into two
surrogates. -/
inductive WritesChar (c : Char) : List Char → Prop where
  | plain : c ≠ '"' → c ≠ '\\' → 0x20 ≤ c.toNat → WritesChar c [c]
  | letter {mark : Char} : Escapes mark c → WritesChar c ['\\', mark]
  | unit {x₁ x₂ x₃ x₄ : Char} : IsUnit [x₁, x₂, x₃, x₄] c.toNat → WritesChar c ['\\', 'u', x₁, x₂, x₃, x₄]
  | pair {x₁ x₂ x₃ x₄ y₁ y₂ y₃ y₄ : Char} : 0x10000 ≤ c.toNat →
      IsUnit [x₁, x₂, x₃, x₄] (0xD800 + (c.toNat - 0x10000) / 0x400) →
      IsUnit [y₁, y₂, y₃, y₄] (0xDC00 + (c.toNat - 0x10000) % 0x400) →
      WritesChar c ['\\', 'u', x₁, x₂, x₃, x₄, '\\', 'u', y₁, y₂, y₃, y₄]

/-- The text between the quotes of a string. -/
inductive WritesChars : List Char → List Char → Prop where
  | nil : WritesChars [] []
  | cons {c : Char} {chars text rest : List Char} : WritesChar c text → WritesChars chars rest →
      WritesChars (c :: chars) (text ++ rest)

theorem Escapes.simpleEscape?_eq {mark c : Char} (escapes : Escapes mark c) : simpleEscape? mark = some c := by
  cases escapes <;> rfl

theorem IsUnit.unit?_eq {digits : List Char} {n : Nat} (isUnit : IsUnit digits n) : unit? digits = some n := by
  rw [unit?, if_pos (List.all_eq_true.mpr isUnit.hex), isUnit.number]

theorem isHigh_iff {unit : Nat} : isHigh unit ↔ 0xD800 ≤ unit ∧ unit < 0xDC00 := by simp [isHigh]

theorem isLow_iff {unit : Nat} : isLow unit ↔ 0xDC00 ≤ unit ∧ unit < 0xE000 := by simp [isLow]

theorem toNat_bounds (c : Char) : c.toNat < 0xD800 ∨ 0xDFFF < c.toNat ∧ c.toNat < 0x110000 := c.valid

theorem joined_of_split {c : Char} {high low : Nat} (upper : (high - 0xD800) * 0x400 + 0x10000 ≤ c.toNat)
    (lower : low - 0xDC00 = c.toNat - ((high - 0xD800) * 0x400 + 0x10000)) : joined high low = c := by
  have whole : 0x10000 + (high - 0xD800) * 0x400 + (low - 0xDC00) = c.toNat := by omega
  rw [joined, whole, Char.ofNat_toNat]

theorem stringBody?_unit {x₁ x₂ x₃ x₄ : Char} {unit : Nat} (read : unit? [x₁, x₂, x₃, x₄] = some unit)
    (single : isHigh unit = false) (alone : isLow unit = false) (rest : List Char) :
    stringBody? ('\\' :: 'u' :: x₁ :: x₂ :: x₃ :: x₄ :: rest) =
      (stringBody? rest).map fun found => (Char.ofNat unit :: found.1, found.2) := by
  rw [stringBody?, read]
  dsimp only [bind, Option.bind]
  cases stringBody? rest <;> simp [single, alone]

theorem stringBody?_pair {x₁ x₂ x₃ x₄ y₁ y₂ y₃ y₄ : Char} {high low : Nat}
    (first : unit? [x₁, x₂, x₃, x₄] = some high) (second : unit? [y₁, y₂, y₃, y₄] = some low)
    (leads : isHigh high) (follows : isLow low) (rest : List Char) :
    stringBody? ('\\' :: 'u' :: x₁ :: x₂ :: x₃ :: x₄ :: '\\' :: 'u' :: y₁ :: y₂ :: y₃ :: y₄ :: rest) =
      (stringBody? rest).map fun found => (joined high low :: found.1, found.2) := by
  rw [stringBody?, first]
  dsimp only [bind, Option.bind]
  rw [if_pos leads]
  simp only [second, if_pos follows]
  cases stringBody? rest <;> rfl

theorem stringBody?_char {c : Char} {text : List Char} (writes : WritesChar c text) (rest : List Char) :
    stringBody? (text ++ rest) = (stringBody? rest).map fun found => (c :: found.1, found.2) := by
  have bounds := toNat_bounds c
  cases writes with
  | plain quote backslash filled =>
    rw [List.singleton_append, stringBody?]
    · cases stringBody? rest with
      | none => rfl
      | some found => simp [backslash, Nat.not_lt.mpr filled]
    all_goals simp [quote, backslash]
  | letter escapes =>
    rw [List.cons_append, List.singleton_append, stringBody?, escapes.simpleEscape?_eq]
    · cases stringBody? rest <;> rfl
    · cases escapes <;> simp
  | unit isUnit =>
    have single : isHigh c.toNat = false := Bool.eq_false_iff.mpr (isHigh_iff.not.mpr (by omega))
    have alone : isLow c.toNat = false := Bool.eq_false_iff.mpr (isLow_iff.not.mpr (by omega))
    have read := stringBody?_unit isUnit.unit?_eq single alone rest
    rwa [Char.ofNat_toNat] at read
  | pair large high low =>
    have leads : isHigh (0xD800 + (c.toNat - 0x10000) / 0x400) := isHigh_iff.mpr (by omega)
    have follows : isLow (0xDC00 + (c.toNat - 0x10000) % 0x400) := isLow_iff.mpr (by omega)
    have same : joined (0xD800 + (c.toNat - 0x10000) / 0x400) (0xDC00 + (c.toNat - 0x10000) % 0x400) = c :=
      joined_of_split (by omega) (by omega)
    have read := stringBody?_pair high.unit?_eq low.unit?_eq leads follows rest
    rw [same] at read
    exact read

theorem stringBody?_chars {chars text : List Char} (writes : WritesChars chars text) (rest : List Char) :
    stringBody? (text ++ '"' :: rest) = some (chars, rest) := by
  induction writes with
  | nil => rw [List.nil_append, stringBody?]
  | cons first _ ih =>
    rw [List.append_assoc, stringBody?_char first, ih]
    rfl

/-- A string with its quotes. -/
inductive WritesString : String → List Char → Prop where
  | mk {s : String} {text : List Char} : WritesChars s.toList text → WritesString s ('"' :: (text ++ ['"']))

theorem string?_of_writes {s : String} {text : List Char} (writes : WritesString s text) (rest : List Char) :
    string? (text ++ rest) = some (s, rest) := by
  cases writes with
  | mk chars =>
    rw [List.cons_append, List.append_assoc, string?, List.singleton_append, stringBody?_chars chars]
    exact congrArg (fun whole => some (whole, rest)) String.ofList_toList

/-! Documents. -/

/-- What a text can write: a value, or what stands between the brackets of a list or an object. -/
inductive Part where
  | value (json : Json)
  | items (items : List Json)
  | members (members : List (String × Json))

def Blanks (text : List Char) : Prop := ∀ c ∈ text, isBlank c

inductive Writes : Part → List Char → Prop where
  | null : Writes (.value .null) ['n', 'u', 'l', 'l']
  | isTrue : Writes (.value (.bool true)) ['t', 'r', 'u', 'e']
  | isFalse : Writes (.value (.bool false)) ['f', 'a', 'l', 's', 'e']
  | number {literal : String} : IsNumber literal.toList → Writes (.value (.number literal)) literal.toList
  | string {s : String} {text : List Char} : WritesString s text → Writes (.value (.string s)) text
  | emptyArray {blanks : List Char} : Blanks blanks → Writes (.value (.array [])) ('[' :: (blanks ++ [']']))
  | array {items : List Json} {text : List Char} : Writes (.items items) text →
      Writes (.value (.array items)) ('[' :: (text ++ [']']))
  | emptyObject {blanks : List Char} : Blanks blanks →
      Writes (.value (.object [])) ('\x7b' :: (blanks ++ ['\x7d']))
  | object {members : List (String × Json)} {text : List Char} : Writes (.members members) text →
      Writes (.value (.object members)) ('\x7b' :: (text ++ ['\x7d']))
  | item {item : Json} {before text behind : List Char} : Blanks before → Writes (.value item) text → Blanks behind →
      Writes (.items [item]) (before ++ (text ++ behind))
  | items {item : Json} {items : List Json} {before text behind more : List Char} : Blanks before →
      Writes (.value item) text → Blanks behind → Writes (.items items) more →
      Writes (.items (item :: items)) (before ++ (text ++ (behind ++ ',' :: more)))
  | member {name : String} {value : Json} {before nameText between after text behind : List Char} : Blanks before →
      WritesString name nameText → Blanks between → Blanks after → Writes (.value value) text → Blanks behind →
      Writes (.members [(name, value)]) (before ++ (nameText ++ (between ++ ':' :: (after ++ (text ++ behind)))))
  | members {name : String} {value : Json} {members : List (String × Json)}
      {before nameText between after text behind more : List Char} : Blanks before → WritesString name nameText →
      Blanks between → Blanks after → Writes (.value value) text → Blanks behind → Writes (.members members) more →
      Writes (.members ((name, value) :: members))
        (before ++ (nameText ++ (between ++ ':' :: (after ++ (text ++ (behind ++ ',' :: more))))))

mutual

/-- How deep lists and objects stand in each other. -/
def nesting : Json → Nat
  | array items => 1 + nestingOfItems items
  | object members => 1 + nestingOfMembers members
  | _ => 0

def nestingOfItems : List Json → Nat
  | [] => 0
  | item :: rest => max item.nesting (nestingOfItems rest)

def nestingOfMembers : List (String × Json) → Nat
  | [] => 0
  | (_, value) :: rest => max value.nesting (nestingOfMembers rest)

end

theorem skipBlanks_append {blanks : List Char} (isBlanks : Blanks blanks) (rest : List Char) :
    skipBlanks (blanks ++ rest) = skipBlanks rest := List.dropWhile_append_of_pos isBlanks

theorem skipBlanks_cons {c : Char} (filled : isBlank c = false) (rest : List Char) :
    skipBlanks (c :: rest) = c :: rest := by
  simp [skipBlanks, filled]

/-! One step of each reader. -/

section

variable {nesting : Nat} {text inner rest more : List Char} {item : Json}

theorem value?_blanks {blanks : List Char} (isBlanks : Blanks blanks) :
    value? nesting (blanks ++ text) = value? nesting text := by
  rw [value?, value?, skipBlanks_append isBlanks]

theorem value?_scalar {c : Char} (filled : isBlank c = false) (bracket : c ≠ '[') (brace : c ≠ '\x7b') :
    value? nesting (c :: rest) = scalar? (c :: rest) := by
  rw [value?, skipBlanks_cons filled]
  split
  next same => exact absurd (List.cons.inj same).1 bracket
  next same => exact absurd (List.cons.inj same).1 brace
  next => rfl

theorem value?_emptyArray (closes : skipBlanks inner = ']' :: rest) :
    value? (nesting + 1) ('[' :: inner) = some (.array [], rest) := by
  rw [value?, skipBlanks_cons rfl]
  simp only [closes]

theorem value?_array (other : (skipBlanks inner).head? ≠ some ']') :
    value? (nesting + 1) ('[' :: inner) = (items? nesting inner).map fun found => (.array found.1, found.2) := by
  rw [value?, skipBlanks_cons rfl]
  simp only
  split
  next none_left => cases none_left
  next closes => simp [closes] at other
  next same _ =>
    cases same
    rfl

theorem value?_emptyObject (closes : skipBlanks inner = '\x7d' :: rest) :
    value? (nesting + 1) ('\x7b' :: inner) = some (.object [], rest) := by
  rw [value?, skipBlanks_cons rfl]
  simp only [closes]

theorem value?_object (other : (skipBlanks inner).head? ≠ some '\x7d') :
    value? (nesting + 1) ('\x7b' :: inner) = (members? nesting inner).map fun found => (.object found.1, found.2) := by
  rw [value?, skipBlanks_cons rfl]
  simp only
  split
  next none_left => cases none_left
  next closes => simp [closes] at other
  next same _ =>
    cases same
    rfl

theorem items?_last (read : value? nesting text = some (item, rest)) (closes : skipBlanks rest = ']' :: more) :
    items? nesting text = some ([item], more) := by
  rw [items?, read]
  dsimp only [bind, Option.bind]
  rw [closes]
  rfl

theorem items?_comma (read : value? nesting text = some (item, rest)) (comma : skipBlanks rest = ',' :: more)
    (shorter : more.length < text.length) :
    items? nesting text = (items? nesting more).map fun found => (item :: found.1, found.2) := by
  rw [items?, read]
  dsimp only [bind, Option.bind]
  simp only [comma, if_pos shorter]
  cases items? nesting more <;> rfl

theorem members?_last {name : String} {value : List Char} (named : string? (skipBlanks text) = some (name, inner))
    (colon : skipBlanks inner = ':' :: value) (read : value? nesting value = some (item, rest))
    (closes : skipBlanks rest = '\x7d' :: more) : members? nesting text = some ([(name, item)], more) := by
  rw [members?, named]
  dsimp only [bind, Option.bind]
  simp only [colon, read, closes]
  rfl

theorem members?_comma {name : String} {value : List Char} (named : string? (skipBlanks text) = some (name, inner))
    (colon : skipBlanks inner = ':' :: value) (read : value? nesting value = some (item, rest))
    (comma : skipBlanks rest = ',' :: more) (shorter : more.length < text.length) :
    members? nesting text = (members? nesting more).map fun found => ((name, item) :: found.1, found.2) := by
  rw [members?, named]
  dsimp only [bind, Option.bind]
  simp only [colon, read, comma, if_pos shorter]
  cases members? nesting more <;> rfl

end

/-! What is written is what is read. -/

theorem Ends.of_blanks {blanks : List Char} (isBlanks : Blanks blanks) {c : Char} (mark : c ∈ [',', ']', '\x7d'])
    (rest : List Char) : Ends (blanks ++ c :: rest) := by
  cases blanks with
  | nil => simpa [Ends] using .inr (by simpa using mark)
  | cons blank blanks => simp [Ends, isBlanks blank List.mem_cons_self]

theorem IsNumber.head {text : List Char} (isNumber : IsNumber text) :
    ∃ c more, text = c :: more ∧ (c = '-' ∨ c.isDigit) := by
  cases isNumber with
  | @mk sign whole _ fractionText _ powerText _ signed isWhole =>
    simp only [List.mem_cons, List.not_mem_nil, or_false] at signed
    rcases signed with rfl | rfl
    · obtain ⟨c, more, rfl⟩ := List.exists_cons_of_ne_nil isWhole.digits.1
      exact ⟨c, _, rfl, .inr (isWhole.digits.2 c List.mem_cons_self)⟩
    · exact ⟨'-', _, rfl, .inl rfl⟩

theorem ne_of_starts_number {c d : Char} (starts : c = '-' ∨ c.isDigit) (other : d ≠ '-' ∧ d.isDigit = false) :
    c ≠ d := by
  rintro rfl
  rcases starts with rfl | digit
  · exact other.1 rfl
  · exact Bool.false_ne_true (other.2.symm.trans digit)

theorem isBlank_of_starts_number {c : Char} (starts : c = '-' ∨ c.isDigit) : isBlank c = false := by
  simp [isBlank, ne_of_starts_number starts]

theorem Writes.head {json : Json} {text : List Char} (writes : Writes (.value json) text) :
    ∃ c more, text = c :: more ∧ isBlank c = false ∧ c ≠ ']' := by
  cases writes with
  | number isNumber =>
    obtain ⟨c, more, same, starts⟩ := isNumber.head
    exact ⟨c, more, same, isBlank_of_starts_number starts, ne_of_starts_number starts (by decide)⟩
  | string isString =>
    cases isString
    exact ⟨_, _, rfl, rfl, by decide⟩
  | _ => exact ⟨_, _, rfl, rfl, by decide⟩

theorem value?_number {literal : String} (isNumber : IsNumber literal.toList) {rest : List Char} (ends : Ends rest)
    (nesting : Nat) : value? nesting (literal.toList ++ rest) = some (.number literal, rest) := by
  have read := number?_of_isNumber isNumber ends
  obtain ⟨c, more, same, starts⟩ := isNumber.head
  have other := @ne_of_starts_number c
  rw [String.ofList_toList] at read
  rw [same, List.cons_append] at read ⊢
  rw [value?_scalar (isBlank_of_starts_number starts) (other starts (by decide)) (other starts (by decide)), scalar?]
  simp [read, other starts]

theorem value?_string {s : String} {text : List Char} (writes : WritesString s text) (nesting : Nat) (rest : List Char) :
    value? nesting (text ++ rest) = some (.string s, rest) := by
  have read := string?_of_writes writes rest
  cases writes with
  | mk chars =>
    rw [List.cons_append] at read ⊢
    rw [value?_scalar rfl (by decide) (by decide), scalar?]
    simp only [List.head?_cons, read, Option.map_some]

/-- How a part is read before whatever can stand behind it. -/
def Part.IsRead : Part → List Char → Prop
  | .value json, text => ∀ nesting, json.nesting ≤ nesting → ∀ rest, Ends rest →
      value? nesting (text ++ rest) = some (json, rest)
  | .items contents, text => ∀ nesting, nestingOfItems contents ≤ nesting → ∀ rest,
      items? nesting (text ++ ']' :: rest) = some (contents, rest)
  | .members contents, text => ∀ nesting, nestingOfMembers contents ≤ nesting → ∀ rest,
      members? nesting (text ++ '\x7d' :: rest) = some (contents, rest)

theorem Writes.items_head {contents : List Json} {text : List Char} (writes : Writes (.items contents) text)
    (rest : List Char) : (skipBlanks (text ++ rest)).head? ≠ some ']' := by
  cases writes with
  | item before value | items before value =>
    obtain ⟨c, more, rfl, filled, other⟩ := value.head
    rw [List.append_assoc, skipBlanks_append before, List.append_assoc, List.cons_append, skipBlanks_cons filled]
    simpa using other

theorem Writes.members_head {contents : List (String × Json)} {text : List Char} (writes : Writes (.members contents) text)
    (rest : List Char) : (skipBlanks (text ++ rest)).head? ≠ some '\x7d' := by
  cases writes with
  | member before named | members before named =>
    cases named
    rw [List.append_assoc, skipBlanks_append before, List.append_assoc, List.cons_append, skipBlanks_cons rfl]
    simp

theorem skipBlanks_mark {blanks : List Char} (isBlanks : Blanks blanks) {c : Char} (filled : isBlank c = false)
    (rest : List Char) : skipBlanks (blanks ++ c :: rest) = c :: rest := by
  rw [skipBlanks_append isBlanks, skipBlanks_cons filled]

theorem Part.IsRead.value?_padded {json : Json} {before text behind : List Char} (isRead : (Part.value json).IsRead text)
    (front : Blanks before) (back : Blanks behind) {nesting : Nat} (enough : json.nesting ≤ nesting) {c : Char}
    (mark : c ∈ [',', ']', '\x7d']) (rest : List Char) :
    value? nesting (before ++ (text ++ (behind ++ c :: rest))) = some (json, behind ++ c :: rest) := by
  rw [value?_blanks front]
  exact isRead nesting enough _ (Ends.of_blanks back mark rest)

theorem WritesString.string?_padded {name : String} {before text : List Char} (writes : WritesString name text)
    (front : Blanks before) (rest : List Char) : string? (skipBlanks (before ++ (text ++ rest))) = some (name, rest) := by
  have read := string?_of_writes writes rest
  cases writes with
  | mk =>
    rw [List.cons_append] at read ⊢
    rw [skipBlanks_mark front rfl, read]

theorem Writes.isRead {part : Part} {text : List Char} (writes : Writes part text) : part.IsRead text := by
  induction writes with
  | null | isTrue | isFalse =>
    intro nesting _ rest _
    rw [List.cons_append, value?_scalar rfl (by decide) (by decide)]
    simp [scalar?, word?]
  | number isNumber =>
    intro nesting _ rest ends
    exact value?_number isNumber ends nesting
  | string isString =>
    intro nesting _ rest _
    exact value?_string isString nesting rest
  | emptyArray isBlanks =>
    intro nesting enough rest _
    rw [Json.nesting] at enough
    obtain ⟨inner, rfl⟩ := Nat.exists_eq_add_one.mpr (show 0 < nesting by omega)
    rw [List.cons_append, List.append_assoc]
    apply value?_emptyArray
    rw [skipBlanks_append isBlanks]
    rfl
  | array items ih =>
    intro nesting enough rest _
    rw [Json.nesting] at enough
    obtain ⟨inner, rfl⟩ := Nat.exists_eq_add_one.mpr (show 0 < nesting by omega)
    rw [List.cons_append, List.append_assoc, List.singleton_append, value?_array (items.items_head _),
      ih inner (by omega) rest]
    rfl
  | emptyObject isBlanks =>
    intro nesting enough rest _
    rw [Json.nesting] at enough
    obtain ⟨inner, rfl⟩ := Nat.exists_eq_add_one.mpr (show 0 < nesting by omega)
    rw [List.cons_append, List.append_assoc]
    apply value?_emptyObject
    rw [skipBlanks_append isBlanks]
    rfl
  | object members ih =>
    intro nesting enough rest _
    rw [Json.nesting] at enough
    obtain ⟨inner, rfl⟩ := Nat.exists_eq_add_one.mpr (show 0 < nesting by omega)
    rw [List.cons_append, List.append_assoc, List.singleton_append, value?_object (members.members_head _),
      ih inner (by omega) rest]
    rfl
  | item before _ behind ih =>
    intro nesting enough rest
    simp only [nestingOfItems, Nat.max_zero] at enough
    simp only [List.append_assoc]
    exact items?_last (ih.value?_padded before behind enough (by decide) rest) (skipBlanks_mark behind rfl rest)
  | items before _ behind _ ih ihOthers =>
    intro nesting enough rest
    simp only [nestingOfItems, Nat.max_le] at enough
    simp only [List.append_assoc, List.cons_append]
    rw [items?_comma (ih.value?_padded before behind enough.1 (by decide) _) (skipBlanks_mark behind rfl _),
      ihOthers nesting enough.2 rest]
    · rfl
    · simp only [List.length_append, List.length_cons]
      omega
  | member before named between after _ behind ih =>
    intro nesting enough rest
    simp only [nestingOfMembers, Nat.max_zero] at enough
    simp only [List.append_assoc, List.cons_append]
    exact members?_last (named.string?_padded before _) (skipBlanks_mark between rfl _)
      (ih.value?_padded after behind enough (by decide) rest) (skipBlanks_mark behind rfl rest)
  | members before named between after _ behind _ ih ihOthers =>
    intro nesting enough rest
    simp only [nestingOfMembers, Nat.max_le] at enough
    simp only [List.append_assoc, List.cons_append]
    rw [members?_comma (named.string?_padded before _) (skipBlanks_mark between rfl _)
      (ih.value?_padded after behind enough.1 (by decide) _) (skipBlanks_mark behind rfl _),
      ihOthers nesting enough.2 rest]
    · rfl
    · simp only [List.length_append, List.length_cons]
      omega

/-- A text that is a document, with blanks around it. -/
inductive WritesDocument (json : Json) : List Char → Prop where
  | mk {before text behind : List Char} : Blanks before → Writes (.value json) text → Blanks behind →
      WritesDocument json (before ++ (text ++ behind))

theorem parse?_of_writes {json : Json} {text : String} (writes : WritesDocument json text.toList)
    (shallow : json.nesting ≤ maxNesting) : parse? text = some json := by
  rw [parse?]
  generalize text.toList = chars at writes ⊢
  cases writes with
  | mk before value behind =>
    have ends : Ends _ := fun c first => .inl (behind c (List.mem_of_head? first))
    rw [value?_blanks before, value.isRead maxNesting shallow _ ends]
    dsimp only [bind, Option.bind]
    rw [skipBlanks, List.dropWhile_eq_nil_iff.mpr behind]
    rfl

/-! The text without blanks is one of them. -/

theorem writesChar_escapeChar (c : Char) : WritesChar c (Text.Quoted.escapeChar c) := by
  rw [Text.Quoted.escapeChar]
  split_ifs with quote backslash backspace tab lineFeed formFeed carriageReturn control
  · exact .letter (quote ▸ .quote)
  · exact .letter (backslash ▸ .backslash)
  · exact .letter (backspace ▸ .backspace)
  · exact .letter (tab ▸ .tab)
  · exact .letter (lineFeed ▸ .lineFeed)
  · exact .letter (formFeed ▸ .formFeed)
  · exact .letter (carriageReturn ▸ .carriageReturn)
  · have byte : c.toNat < 0x100 := by omega
    exact .unit ⟨Text.isHexDigit_of_byte byte, Text.hexNumber_of_byte byte⟩
  · exact .plain quote backslash (Nat.not_lt.mp control)

theorem writesChars_escape (chars : List Char) : WritesChars chars (chars.flatMap Text.Quoted.escapeChar) := by
  induction chars with
  | nil => exact .nil
  | cons c chars ih => exact .cons (writesChar_escapeChar c) ih

theorem writesString_literal (s : String) : WritesString s (Text.Quoted.literal s).toList := by
  have written : (Text.Quoted.literal s).toList = '"' :: (s.toList.flatMap Text.Quoted.escapeChar ++ ['"']) := by
    simp [Text.Quoted.literal, Text.Quoted.escape]
  rw [written]
  exact .mk (writesChars_escape s.toList)

/-- All numbers of the document are numbers in the range of doubles. -/
inductive Numbered : Json → Prop where
  | null : Numbered .null
  | bool (b : Bool) : Numbered (.bool b)
  | number {literal : String} : IsNumber literal.toList → Numbered (.number literal)
  | string (s : String) : Numbered (.string s)
  | array {items : List Json} : (∀ item ∈ items, Numbered item) → Numbered (.array items)
  | object {members : List (String × Json)} : (∀ member ∈ members, Numbered member.2) → Numbered (.object members)

attribute [simp] Numbered.null Numbered.bool Numbered.string

@[simp]
theorem numbered_array_iff {items : List Json} : Numbered (.array items) ↔ ∀ item ∈ items, Numbered item := by
  refine ⟨fun numbered => ?_, .array⟩
  cases numbered
  assumption

@[simp]
theorem numbered_object_iff {members : List (String × Json)} :
    Numbered (.object members) ↔ ∀ member ∈ members, Numbered member.2 := by
  refine ⟨fun numbered => ?_, .object⟩
  cases numbered
  assumption

theorem writes_renderItems {items : List Json} (filled : items ≠ [])
    (each : ∀ item ∈ items, Writes (.value item) item.render.toList) :
    Writes (.items items) (",".intercalate (renderItems items)).toList := by
  have blank : Blanks [] := List.forall_mem_nil _
  induction items with
  | nil => exact absurd rfl filled
  | cons item rest ih =>
    obtain ⟨first, others⟩ := List.forall_mem_cons.mp each
    cases rest with
    | nil => simpa [renderItems] using Writes.item blank first blank
    | cons next rest => simpa [renderItems] using Writes.items blank first blank (ih (by simp) others)

theorem writes_renderMembers {members : List (String × Json)} (filled : members ≠ [])
    (each : ∀ member ∈ members, Writes (.value member.2) member.2.render.toList) :
    Writes (.members members) (",".intercalate (renderMembers members)).toList := by
  have blank : Blanks [] := List.forall_mem_nil _
  induction members with
  | nil => exact absurd rfl filled
  | cons member rest ih =>
    obtain ⟨name, value⟩ := member
    obtain ⟨first, others⟩ := List.forall_mem_cons.mp each
    have named := writesString_literal name
    cases rest with
    | nil => simpa [renderMembers] using Writes.member blank named blank blank first blank
    | cons next rest =>
      simpa [renderMembers] using Writes.members blank named blank blank first blank (ih (by simp) others)

theorem Numbered.writes_render {json : Json} (numbered : Numbered json) : Writes (.value json) json.render.toList := by
  have blank : Blanks [] := List.forall_mem_nil _
  induction numbered with
  | null => exact .null
  | bool b =>
    cases b with
    | false => exact .isFalse
    | true => exact .isTrue
  | number isNumber => exact .number isNumber
  | string s => exact .string (writesString_literal s)
  | @array items _ ih =>
    cases items with
    | nil => simpa [render, renderItems] using Writes.emptyArray blank
    | cons item rest => simpa [render] using Writes.array (writes_renderItems (List.cons_ne_nil item rest) ih)
  | @object members _ ih =>
    cases members with
    | nil => simpa [render, renderMembers] using Writes.emptyObject blank
    | cons member rest => simpa [render] using Writes.object (writes_renderMembers (List.cons_ne_nil member rest) ih)

end NimTemplate.Json
