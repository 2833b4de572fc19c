import Mathlib.Data.List.Nodup
import NimTemplate.Proofs.Constancy
import NimTemplate.Proofs.Literals
import NimTemplate.Proofs.Nesting
import NimTemplate.Value.Json

/-! The JSON text of a value is an expression for it. Reading the text back and evaluating it gives
the value again, up to what JSON cannot express. -/

namespace NimTemplate

namespace Value

/-- Values that hold no numbers. An object has each of its names once. -/
inductive Plain : Value → Prop where
  | undefined : Plain .undefined
  | null : Plain .null
  | bool (b : Bool) : Plain (.bool b)
  | text (s : String) : Plain (.text s)
  | builtin (b : Builtin) : Plain (.builtin b)
  | array {items : List Value} : (∀ item ∈ items, Plain item) → Plain (.array items)
  | object {fields : List (String × Value)} : (fields.map Prod.fst).Nodup → (∀ field ∈ fields, Plain field.2) →
      Plain (.object fields)

/-- Has no JSON form of its own. -/
def isAbsent : Value → Bool
  | undefined | builtin _ => true
  | _ => false

mutual

/-- What the JSON form keeps of a value: lists hold `null` for absent items, and objects do without
absent fields. -/
def normal : Value → Value
  | array items => .array (normalItems items)
  | object fields => .object (normalFields fields)
  | value => value

def normalItems : List Value → List Value
  | [] => []
  | item :: rest => (if item.isAbsent then .null else item.normal) :: normalItems rest

def normalFields : List (String × Value) → List (String × Value)
  | [] => []
  | (name, value) :: rest =>
    if value.isAbsent then normalFields rest else (name, value.normal) :: normalFields rest

end

mutual

/-- How deep lists and objects stand in each other. -/
def nesting : Value → Nat
  | array items => 1 + nestingOfItems items
  | object fields => 1 + nestingOfFields fields
  | _ => 0

def nestingOfItems : List Value → Nat
  | [] => 0
  | item :: rest => max item.nesting (nestingOfItems rest)

def nestingOfFields : List (String × Value) → Nat
  | [] => 0
  | (_, value) :: rest => max value.nesting (nestingOfFields rest)

end

theorem toJson?_eq_none_iff (value : Value) : value.toJson? = none ↔ value.isAbsent := by
  cases value <;> simp [toJson?, isAbsent]

theorem nesting_le_items {item : Value} {items : List Value} (member : item ∈ items) :
    item.nesting ≤ nestingOfItems items := by
  induction items with
  | nil => cases member
  | cons first rest ih =>
    rw [nestingOfItems]
    rcases List.mem_cons.mp member with rfl | later
    · exact Nat.le_max_left _ _
    · exact Nat.le_trans (ih later) (Nat.le_max_right _ _)

theorem nesting_le_fields {field : String × Value} {fields : List (String × Value)} (member : field ∈ fields) :
    field.2.nesting ≤ nestingOfFields fields := by
  induction fields with
  | nil => cases member
  | cons first rest ih =>
    rw [nestingOfFields]
    rcases List.mem_cons.mp member with rfl | later
    · exact Nat.le_max_left _ _
    · exact Nat.le_trans (ih later) (Nat.le_max_right _ _)

end Value

/-! Fields that are written once each. -/

theorem insertField_of_new {fields : List (String × Value)} {name : String} (new : name ∉ fields.map Prod.fst)
    (value : Value) : insertField fields name value = fields ++ [(name, value)] := by
  induction fields with
  | nil => rfl
  | cons field fields ih =>
    simp only [List.map_cons, List.mem_cons, not_or] at new
    rw [insertField, if_neg (Ne.symm new.1), ih new.2, List.cons_append]

theorem collectFields_of_nodup {fields : List (String × Value)} (once : (fields.map Prod.fst).Nodup) :
    collectFields fields = fields := by
  -- Behind fields that are known already, the others are added at the end.
  have collected : ∀ (later known : List (String × Value)), ((known ++ later).map Prod.fst).Nodup →
      later.foldl (fun known field => insertField known field.1 field.2) known = known ++ later := by
    intro later
    induction later with
    | nil =>
      intro known _
      exact (List.append_nil known).symm
    | cons field later ih =>
      intro known once
      have new : field.1 ∉ known.map Prod.fst := by
        rw [List.map_append, List.nodup_append'] at once
        exact fun member => once.2.2 member List.mem_cons_self
      rw [List.foldl_cons, insertField_of_new new, ih _ (by simpa using once), List.append_assoc,
        List.singleton_append]
  exact collected fields [] once

theorem keys_normalFields (fields : List (String × Value)) :
    ((Value.normalFields fields).map Prod.fst).Sublist (fields.map Prod.fst) := by
  induction fields with
  | nil => exact .slnil
  | cons field fields ih =>
    rw [Value.normalFields]
    split
    next => exact ih.cons _
    next => exact ih.cons_cons _

/-! What a text stands for. -/

namespace Expr

open Environment (standard)

/-- The tokens are read as an operand, given the nesting. -/
structure IsOperand (tokens : List Token) (nesting : Nat) (expr : Expr) : Prop where
  starts : ∃ token more, tokens = token :: more ∧ startsOperand token
  read : ∀ n, nesting ≤ n → ∀ rest, readOperand n (tokens ++ rest) = .ok (expr, rest)

/-- The value does not depend on what is rendered. -/
structure HasValue (expr : Expr) (value : Value) : Prop where
  known : ∀ name ∈ expr.freeNames, standard.Knows name
  evaluated : expr.eval standard = .ok value

theorem IsOperand.readExpr_eq {tokens rest : List Token} {nesting n : Nat} {expr : Expr}
    (operand : IsOperand tokens nesting expr) (enough : nesting ≤ n) (stops : Stops 7 rest) :
    readExpr (n + 1) (tokens ++ rest) = .ok (expr, rest) := by
  obtain ⟨token, more, rfl, starts⟩ := operand.starts
  exact readExpr_of_operand starts (operand.read n enough rest) stops

theorem IsOperand.readExpr_before {tokens : List Token} {nesting n : Nat} {expr : Expr} {p : Punct}
    (operand : IsOperand tokens nesting expr) (enough : nesting ≤ n) (loose : 7 < looseness p) (rest : List Token) :
    readExpr (n + 1) (tokens ++ .punct p :: rest) = .ok (expr, .punct p :: rest) :=
  operand.readExpr_eq enough (stops_cons_iff.mpr loose)

theorem IsOperand.head?_ne {tokens : List Token} {nesting : Nat} {expr : Expr} (operand : IsOperand tokens nesting expr)
    (rest : List Token) : (tokens ++ rest).head? ≠ some (.punct .closeBracket) := by
  obtain ⟨token, more, rfl, starts⟩ := operand.starts
  intro same
  obtain rfl : token = .punct .closeBracket := by simpa using same
  cases starts

end Expr

namespace Json

open Environment (standard)
open NimTemplate.Expr (IsOperand HasValue)
open Token (Lexes Marks)

/-- The text of a document is read as an operand that has the value. -/
def Denotes (json : Json) (nesting : Nat) (value : Value) : Prop :=
  ∃ tokens expr, Lexes json.render.toList tokens ∧ IsOperand tokens nesting expr ∧ HasValue expr value

variable {nesting : Nat}

theorem Denotes.mono {json : Json} {deeper : Nat} {value : Value} (denotes : Denotes json nesting value)
    (le : nesting ≤ deeper) : Denotes json deeper value := by
  obtain ⟨tokens, expr, lexes, operand, has⟩ := denotes
  exact ⟨tokens, expr, lexes, ⟨operand.starts, fun n enough => operand.read n (Nat.le_trans le enough)⟩, has⟩

theorem denotes_string (s : String) : Denotes (.string s) nesting (.text s) := by
  refine ⟨[.text s], .text s, Token.lexes_literal s, ⟨⟨_, _, rfl, rfl⟩, ?_⟩, ⟨?_, rfl⟩⟩
  · intro n _ rest
    exact Expr.readOperand_text s
  · intro name member
    cases member

/-- The words of the format are names that are bound to what they say. -/
theorem denotes_word {json : Json} {value : Value} {c : Char} {word : List Char}
    (rendered : json.render.toList = c :: word) (letters : ∀ d ∈ c :: word, d.isAlpha)
    (free : String.ofList (c :: word) ∉ "typeof" :: Expr.reserved)
    (bound : standard.find? (String.ofList (c :: word)) = some value) : Denotes json nesting value := by
  rw [List.mem_cons, not_or] at free
  refine ⟨[.name (String.ofList (c :: word))], .name (String.ofList (c :: word)), ?_, ⟨⟨_, _, rfl, ?_⟩, ?_⟩, ⟨?_, ?_⟩⟩
  · rw [rendered]
    apply Token.lexes_name
    · simp [Token.isNameStart, Text.isLetter, letters c List.mem_cons_self]
    · intro d member
      simp [Token.isNamePart, Text.isLetter, letters d (List.mem_cons_of_mem _ member)]
  · simpa [Expr.startsOperand] using free.1
  · intro n _ rest
    rw [List.singleton_append, Expr.readOperand, if_neg free.2]
  · intro name member
    rw [List.mem_singleton.mp member, Environment.Knows, bound]
    rfl
  · rw [Expr.eval, Environment.get, bound]

theorem denotes_null : Denotes .null nesting .null := by
  have rendered : (render .null).toList = ['n', 'u', 'l', 'l'] := rfl
  exact denotes_word rendered (by simp) (by decide) rfl

theorem denotes_bool (b : Bool) : Denotes (.bool b) nesting (.bool b) := by
  cases b with
  | false =>
    have rendered : (render (.bool false)).toList = ['f', 'a', 'l', 's', 'e'] := rfl
    exact denotes_word rendered (by simp) (by decide) rfl
  | true =>
    have rendered : (render (.bool true)).toList = ['t', 'r', 'u', 'e'] := rfl
    exact denotes_word rendered (by simp) (by decide) rfl

/-- The text between the brackets of a list. -/
structure DenotesItems (items : List Json) (nesting : Nat) (values : List Value) (tokens : List Token)
    (exprs : List Expr) : Prop where
  lexes : Lexes (",".intercalate (renderItems items)).toList tokens
  read : ∀ n, nesting ≤ n → ∀ rest,
    Expr.readItems (n + 1) .closeBracket (tokens ++ .punct .closeBracket :: rest) = .ok (exprs, rest)
  known : ∀ name ∈ Expr.freeNamesOfItems exprs, standard.Knows name
  evaluated : Expr.evalItems standard exprs = .ok values

/-- The text between the braces of an object. -/
structure DenotesMembers (members : List (String × Json)) (nesting : Nat) (fields : List (String × Value))
    (tokens : List Token) (exprs : List (String × Expr)) : Prop where
  lexes : Lexes (",".intercalate (renderMembers members)).toList tokens
  read : ∀ n, nesting ≤ n → ∀ rest,
    Expr.readFields (n + 1) (tokens ++ .punct .closeBrace :: rest) = .ok (exprs, rest)
  known : ∀ name ∈ Expr.freeNamesOfFields exprs, standard.Knows name
  evaluated : Expr.evalFields standard exprs = .ok fields

theorem denotesItems_nil : DenotesItems [] nesting [] [] [] where
  lexes := by simpa [renderItems] using Lexes.nil
  read := fun n _ rest => Expr.readItems_close .closeBracket
  known := by simp [Expr.freeNamesOfItems]
  evaluated := rfl

theorem denotesItems_last {item : Json} {value : Value} {tokens : List Token} {expr : Expr}
    (lexes : Lexes item.render.toList tokens) (operand : IsOperand tokens nesting expr) (has : HasValue expr value) :
    DenotesItems [item] nesting [value] tokens [expr] where
  lexes := by simpa [renderItems] using lexes
  read := by
    intro n enough rest
    exact Expr.readItems_last (by decide) (operand.head?_ne _) (operand.readExpr_before enough (by decide) rest)
  known := by simpa [Expr.freeNamesOfItems] using has.known
  evaluated := by
    rw [Expr.evalItems, has.evaluated]
    rfl

theorem denotesItems_cons {item next : Json} {more : List Json} {value : Value} {values : List Value}
    {tokens others : List Token} {expr : Expr} {exprs : List Expr} (lexes : Lexes item.render.toList tokens)
    (operand : IsOperand tokens nesting expr) (has : HasValue expr value)
    (following : DenotesItems (next :: more) nesting values others exprs) :
    DenotesItems (item :: next :: more) nesting (value :: values) (tokens ++ .punct .comma :: others) (expr :: exprs) where
  lexes := by
    have joined := lexes.append (fun _ _ => Marks.comma.separate _) (following.lexes.cons .comma)
    simpa [renderItems] using joined
  read := by
    intro n enough rest
    rw [List.append_assoc, List.cons_append, Expr.readItems_comma (operand.head?_ne _) _
      (operand.readExpr_before enough (by decide) _), following.read n enough rest]
    · rfl
    · simp only [List.length_append, List.length_cons]
      omega
  known := by
    rw [Expr.freeNamesOfItems]
    exact List.forall_mem_append.mpr ⟨has.known, following.known⟩
  evaluated := by
    rw [Expr.evalItems, has.evaluated]
    dsimp only [bind, Except.bind]
    rw [following.evaluated]
    rfl

theorem denotesItems_of_forall {items : List Json} {values : List Value}
    (each : List.Forall₂ (Denotes · nesting ·) items values) :
    ∃ tokens exprs, DenotesItems items nesting values tokens exprs := by
  induction each with
  | nil => exact ⟨[], [], denotesItems_nil⟩
  | cons first others ih =>
    obtain ⟨tokens, expr, lexes, operand, has⟩ := first
    cases others with
    | nil => exact ⟨tokens, [expr], denotesItems_last lexes operand has⟩
    | cons =>
      obtain ⟨more, exprs, following⟩ := ih
      exact ⟨_, _, denotesItems_cons lexes operand has following⟩

theorem denotes_array {items : List Json} {values : List Value}
    (each : List.Forall₂ (Denotes · nesting ·) items values) : Denotes (.array items) (nesting + 1) (.array values) := by
  obtain ⟨tokens, exprs, denotes⟩ := denotesItems_of_forall each
  refine ⟨.punct .openBracket :: (tokens ++ [.punct .closeBracket]), .array exprs, ?_, ⟨⟨_, _, rfl, rfl⟩, ?_⟩, ⟨?_, ?_⟩⟩
  · have bracketed := (denotes.lexes.append (fun _ _ => Marks.closeBracket.separate _) (Lexes.nil.cons .closeBracket)).cons
      .openBracket
    simpa [render] using bracketed
  · intro n enough rest
    obtain ⟨n, rfl⟩ : ∃ inner, n = inner + 1 := ⟨n - 1, by omega⟩
    rw [List.cons_append, List.append_assoc, List.singleton_append, Expr.readOperand_array,
      denotes.read n (by omega) rest]
    rfl
  · exact denotes.known
  · rw [Expr.eval, denotes.evaluated]
    rfl

theorem lexes_member (name : String) {value : Json} {tokens : List Token} (lexes : Lexes value.render.toList tokens) :
    Lexes (Text.Quoted.literal name ++ ":" ++ value.render).toList (.text name :: .punct .colon :: tokens) := by
  have joined := (Token.lexes_literal name).append (fun _ _ => Marks.colon.separate _) (lexes.cons .colon)
  simpa using joined

theorem denotesMembers_nil : DenotesMembers [] nesting [] [] [] where
  lexes := by simpa [renderMembers] using Lexes.nil
  read := fun _ _ _ => Expr.readFields_close
  known := by simp [Expr.freeNamesOfFields]
  evaluated := rfl

theorem denotesMembers_last (name : String) {json : Json} {value : Value} {tokens : List Token} {expr : Expr}
    (lexes : Lexes json.render.toList tokens) (operand : IsOperand tokens nesting expr) (has : HasValue expr value) :
    DenotesMembers [(name, json)] nesting [(name, value)] (.text name :: .punct .colon :: tokens) [(name, expr)] where
  lexes := by simpa [renderMembers] using lexes_member name lexes
  read := by
    intro n enough rest
    exact Expr.readFields_last (.text name) (operand.readExpr_before enough (by decide) rest)
  known := by simpa [Expr.freeNamesOfFields] using has.known
  evaluated := by
    rw [Expr.evalFields, has.evaluated]
    rfl

theorem denotesMembers_cons (name : String) {json : Json} {next : String × Json} {more : List (String × Json)}
    {value : Value} {fields : List (String × Value)} {tokens others : List Token} {expr : Expr}
    {exprs : List (String × Expr)} (lexes : Lexes json.render.toList tokens) (operand : IsOperand tokens nesting expr)
    (has : HasValue expr value) (following : DenotesMembers (next :: more) nesting fields others exprs) :
    DenotesMembers ((name, json) :: next :: more) nesting ((name, value) :: fields)
      (.text name :: .punct .colon :: tokens ++ .punct .comma :: others) ((name, expr) :: exprs) where
  lexes := by
    have joined := (lexes_member name lexes).append (fun _ _ => Marks.comma.separate _) (following.lexes.cons .comma)
    simpa [renderMembers] using joined
  read := by
    intro n enough rest
    simp only [List.cons_append, List.append_assoc]
    rw [Expr.readFields_comma (.text name) _ (operand.readExpr_before enough (by decide) _), following.read n enough rest]
    · rfl
    · simp only [List.length_append, List.length_cons]
      omega
  known := by
    rw [Expr.freeNamesOfFields]
    exact List.forall_mem_append.mpr ⟨has.known, following.known⟩
  evaluated := by
    rw [Expr.evalFields, has.evaluated]
    dsimp only [bind, Except.bind]
    rw [following.evaluated]
    rfl

/-- A member that is written for a field. -/
def DenotesField (nesting : Nat) (member : String × Json) (field : String × Value) : Prop :=
  member.1 = field.1 ∧ Denotes member.2 nesting field.2

theorem denotesMembers_of_forall {members : List (String × Json)} {fields : List (String × Value)}
    (each : List.Forall₂ (DenotesField nesting) members fields) :
    ∃ tokens exprs, DenotesMembers members nesting fields tokens exprs := by
  induction each with
  | nil => exact ⟨[], [], denotesMembers_nil⟩
  | @cons member field _ _ first others ih =>
    obtain ⟨name, json⟩ := member
    obtain ⟨name, value⟩ := field
    obtain ⟨rfl, tokens, expr, lexes, operand, has⟩ := first
    cases others with
    | nil => exact ⟨_, _, denotesMembers_last _ lexes operand has⟩
    | cons =>
      obtain ⟨more, exprs, following⟩ := ih
      exact ⟨_, _, denotesMembers_cons _ lexes operand has following⟩

theorem denotes_object {members : List (String × Json)} {fields : List (String × Value)}
    (each : List.Forall₂ (DenotesField nesting) members fields) (once : (fields.map Prod.fst).Nodup) :
    Denotes (.object members) (nesting + 1) (.object fields) := by
  obtain ⟨tokens, exprs, denotes⟩ := denotesMembers_of_forall each
  refine ⟨.punct .openBrace :: (tokens ++ [.punct .closeBrace]), .object exprs, ?_, ⟨⟨_, _, rfl, rfl⟩, ?_⟩, ⟨?_, ?_⟩⟩
  · have bracketed := (denotes.lexes.append (fun _ _ => Marks.closeBrace.separate _) (Lexes.nil.cons .closeBrace)).cons
      .openBrace
    simpa [render] using bracketed
  · intro n enough rest
    obtain ⟨n, rfl⟩ : ∃ inner, n = inner + 1 := ⟨n - 1, by omega⟩
    rw [List.cons_append, List.append_assoc, List.singleton_append, Expr.readOperand_object,
      denotes.read n (by omega) rest]
    rfl
  · exact denotes.known
  · rw [Expr.eval, denotes.evaluated]
    exact congrArg (Except.ok ∘ Value.object) (collectFields_of_nodup once)

end Json

namespace Value

open NimTemplate.Json (Denotes DenotesField)

theorem forall_jsonItems {items : List Value} {nesting : Nat}
    (each : ∀ item ∈ items, ∀ json, item.toJson? = some json → Denotes json nesting item.normal) :
    List.Forall₂ (Denotes · nesting ·) (jsonItems items) (normalItems items) := by
  induction items with
  | nil => exact .nil
  | cons item items ih =>
    rw [jsonItems, normalItems]
    refine .cons ?_ (ih fun other member => each other (List.mem_cons_of_mem item member))
    cases written : item.toJson? with
    | none =>
      rw [if_pos ((toJson?_eq_none_iff item).mp written)]
      exact Json.denotes_null
    | some json =>
      rw [if_neg (by simp [← toJson?_eq_none_iff, written])]
      exact each item List.mem_cons_self json written

theorem forall_jsonFields {fields : List (String × Value)} {nesting : Nat}
    (each : ∀ field ∈ fields, ∀ json, field.2.toJson? = some json → Denotes json nesting field.2.normal) :
    List.Forall₂ (DenotesField nesting) (jsonFields fields) (normalFields fields) := by
  induction fields with
  | nil => exact .nil
  | cons field fields ih =>
    obtain ⟨name, value⟩ := field
    have others := ih fun other member => each other (List.mem_cons_of_mem (name, value) member)
    rw [jsonFields, normalFields]
    cases written : value.toJson? with
    | none =>
      rw [if_pos ((toJson?_eq_none_iff value).mp written)]
      exact others
    | some json =>
      rw [if_neg (by simp [← toJson?_eq_none_iff, written])]
      exact .cons ⟨rfl, each (name, value) List.mem_cons_self json written⟩ others

theorem Plain.denotes {value : Value} (plain : Plain value) {json : Json} (written : value.toJson? = some json) :
    Denotes json value.nesting value.normal := by
  induction plain generalizing json with
  | undefined | builtin => cases written
  | null =>
    cases written
    exact Json.denotes_null
  | bool b =>
    cases written
    exact Json.denotes_bool b
  | text s =>
    cases written
    exact Json.denotes_string s
  | array _ ih =>
    cases written
    rw [Value.nesting, Nat.add_comm, normal]
    apply Json.denotes_array
    apply forall_jsonItems
    intro item member json written
    exact (ih item member written).mono (nesting_le_items member)
  | object once _ ih =>
    cases written
    rw [Value.nesting, Nat.add_comm, normal]
    refine Json.denotes_object (forall_jsonFields ?_) (once.sublist (keys_normalFields _))
    intro field member json written
    exact (ih field member written).mono (nesting_le_fields member)

end Value

theorem Json.Denotes.constant?_eq {json : Json} {nesting : Nat} {value : Value} (denotes : json.Denotes nesting value)
    (enough : nesting < Expr.maxNesting) : constant? json.render = some value := by
  obtain ⟨tokens, expr, lexes, operand, has⟩ := denotes
  have read : Expr.readExpr Expr.maxNesting tokens = .ok (expr, []) := by
    have whole := operand.readExpr_eq (Nat.le_pred_of_lt enough) (Expr.Stops.nil 7)
    rwa [List.append_nil] at whole
  have parsed : Expr.parse json.render = .ok expr := by
    rw [Expr.parse, lexes.all_eq]
    exact Expr.ofTokens_of_readExpr read
  rw [constant?, Environment.evaluate_of_known parsed has.known, has.evaluated]
  rfl

/-- The JSON text of a value is a constant expression for what JSON keeps of the value. Only values
that are absent at the top have no such text. A quoted text stands for the text itself. -/
theorem constant_of_json_text :
    (∀ value : Value, value.jsonText? = none ↔ value.isAbsent) ∧
    (∀ (value : Value) (text : String), value.Plain → value.nesting ≤ 255 → value.jsonText? = some text →
      constant? text = some value.normal) ∧
    ∀ s : String, constant? (Text.Quoted.literal s) = some (.text s) := by
  refine ⟨?_, ?_, ?_⟩
  · intro value
    rw [Value.jsonText?, Option.map_eq_none_iff, Value.toJson?_eq_none_iff]
  · intro value text plain shallow written
    obtain ⟨json, found, rfl⟩ := Option.map_eq_some_iff.mp written
    exact (plain.denotes found).constant?_eq (Nat.lt_succ_of_le shallow)
  · intro s
    have denotes : (Json.string s).Denotes 0 (.text s) := Json.denotes_string s
    exact denotes.constant?_eq (by decide)

/-- A list that holds an absent item, and an object with an absent field and a text of escapes. -/
theorem constant_of_json_text_in_list :
    let value : Value := .array [.undefined, .object [("a b", .text "\"\\\x01é"), ("f", .builtin .escape)], .array []]
    value.Plain ∧ value.nesting ≤ 255 ∧ value.jsonText? = some "[null,\x7b\"a b\":\"\\\"\\\\\\u0001é\"\x7d,[]]" ∧
      constant? "[null,\x7b\"a b\":\"\\\"\\\\\\u0001é\"\x7d,[]]" =
        some (.array [.null, .object [("a b", .text "\"\\\x01é")], .array []]) := by
  intro value
  have plain : value.Plain := by
    refine .array (List.forall_mem_cons.mpr ⟨.undefined, List.forall_mem_cons.mpr ⟨.object (by decide) ?_, ?_⟩⟩)
    · exact List.forall_mem_cons.mpr ⟨.text _, List.forall_mem_singleton.mpr (.builtin .escape)⟩
    · exact List.forall_mem_singleton.mpr (.array (by simp))
  have written : value.jsonText? = some "[null,\x7b\"a b\":\"\\\"\\\\\\u0001é\"\x7d,[]]" := by
    decide +kernel
  exact ⟨plain, by decide, written, constant_of_json_text.2.1 value _ plain (by decide) written⟩

end NimTemplate
