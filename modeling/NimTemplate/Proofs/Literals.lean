import NimTemplate.Proofs.Digits
import NimTemplate.Proofs.Lexing

/-! Texts whose tokens do not depend on what follows. Quoted texts are read back as they were,
whatever characters they hold. -/

namespace NimTemplate.Token

/-- The text cannot go on with a name that ends before it. -/
def Separate (rest : List Char) : Prop := ∀ c ∈ rest.head?, isNamePart c = false

/-- The tokens of a text, before any text that does not go on with its last name. -/
def Lexes (text : List Char) (tokens : List Token) : Prop :=
  ∀ rest, Separate rest → all (text ++ rest) = (all rest).map (tokens ++ ·)

namespace Lexes

variable {text more : List Char} {tokens others : List Token}

theorem all_eq (lexes : Lexes text tokens) : all text = .ok tokens := by
  have whole := lexes [] (by simp [Separate])
  rwa [List.append_nil, all_nil, Except.map, List.append_nil] at whole

theorem nil : Lexes [] [] := by
  intro rest _
  cases found : all rest <;> simp [Except.map, found]

theorem append (first : Lexes text tokens) (apart : ∀ rest, Separate rest → Separate (more ++ rest))
    (second : Lexes more others) : Lexes (text ++ more) (tokens ++ others) := by
  intro rest ends
  rw [List.append_assoc, first _ (apart rest ends), second rest ends]
  cases all rest <;> simp [Except.map]

theorem blank {c : Char} (isBlank : Text.isBlank c) (lexes : Lexes text tokens) : Lexes (c :: text) tokens := by
  intro rest ends
  have skipped : Text.trimStart (c :: (text ++ rest)) = Text.trimStart (text ++ rest) :=
    List.dropWhile_cons_of_pos isBlank
  rw [List.cons_append, all_congr skipped]
  exact lexes rest ends

end Lexes

/-! Single characters and words. -/

/-- Characters that are a punctuator before any text. -/
inductive Marks : Char → Punct → Prop where
  | colon : Marks ':' .colon
  | comma : Marks ',' .comma
  | plus : Marks '+' .plus
  | openParen : Marks '(' .openParen
  | closeParen : Marks ')' .closeParen
  | openBracket : Marks '[' .openBracket
  | closeBracket : Marks ']' .closeBracket
  | openBrace : Marks '\x7b' .openBrace
  | closeBrace : Marks '\x7d' .closeBrace

theorem Marks.separate {c : Char} {p : Punct} (marks : Marks c p) (rest : List Char) : Separate (c :: rest) := by
  simp only [Separate, List.head?_cons, Option.mem_def, Option.some.injEq, forall_eq']
  cases marks <;> simp [isNamePart, isLetter_ascii, isNumeric_ascii]

theorem Marks.read_eq {c : Char} {p : Punct} (marks : Marks c p) (rest : List Char) :
    read c rest = .ok (.punct p, rest) := by
  cases marks <;>
    simp [read, startsNumber, isNameStart, isLetter_ascii, readPunct, Punct.all, Punct.text]

theorem Marks.all_eq {c : Char} {p : Punct} (marks : Marks c p) (rest : List Char) :
    all (c :: rest) = (all rest).map (.punct p :: ·) := by
  have filled : Text.isBlank c = false := by cases marks <;> rfl
  exact all_cons filled (marks.read_eq rest)

theorem Lexes.cons {c : Char} {p : Punct} {text : List Char} {tokens : List Token} (marks : Marks c p)
    (lexes : Lexes text tokens) : Lexes (c :: text) (.punct p :: tokens) := by
  intro rest ends
  rw [List.cons_append, marks.all_eq, lexes rest ends]
  cases all rest <;> rfl

theorem separate_blank (rest : List Char) : Separate (' ' :: rest) := by
  simp [Separate, isNamePart, isLetter_ascii, isNumeric_ascii]

/-- Characters of one class are in no other whose ranges lie apart from its own. -/
theorem covers_apart {ranges others : List Text.Range}
    (apart : ranges.all fun range => others.all fun other => range.2 < other.1 || other.2 < range.1) {c : Char}
    (covered : Text.covers ranges c) : Text.covers others c = false := by
  obtain ⟨range, member, inside⟩ := List.any_eq_true.mp covered
  apply List.any_eq_false.mpr
  intro other listed
  have between := List.all_eq_true.mp (List.all_eq_true.mp apart range member) other listed
  simp only [Bool.and_eq_true, Bool.or_eq_true, decide_eq_true_eq] at inside between ⊢
  omega

theorem isAlpha_iff {c : Char} :
    c.isAlpha ↔ (65 ≤ c.toNat ∧ c.toNat ≤ 90) ∨ (97 ≤ c.toNat ∧ c.toNat ≤ 122) := by
  change (decide ('A'.val ≤ c.val ∧ c.val ≤ 'Z'.val) || ('a'.val ≤ c.val && c.val ≤ 'z'.val)) ↔ _
  simp only [Bool.or_eq_true, Bool.and_eq_true, decide_eq_true_eq, UInt32.le_iff_toNat_le]
  rfl

theorem isBlank_of_isNamePart {c : Char} (part : isNamePart c) : Text.isBlank c = false := by
  simp only [isNamePart, Text.isLetter, Text.isNumeric, Bool.or_eq_true, beq_iff_eq] at part
  rcases part with (((ascii | letter) | digit | numeric) | rfl) | rfl
  · have covered : Text.covers [(65, 90), (97, 122)] c := by
      simpa [Text.covers] using isAlpha_iff.mp ascii
    exact covers_apart (by decide) covered
  · exact covers_apart (by decide +kernel) letter
  · have covered : Text.covers [(48, 57)] c := by
      simpa [Text.covers] using Char.isDigit_iff_toNat.mp digit
    exact covers_apart (by decide) covered
  · exact covers_apart (by decide +kernel) numeric
  · rfl
  · rfl

theorem isBlank_of_isNameStart {c : Char} (starts : isNameStart c) : Text.isBlank c = false :=
  isBlank_of_isNamePart (isNamePart_of_isNameStart starts)

theorem isDigit_of_isNameStart {c : Char} (starts : isNameStart c) : c.isDigit = false := by
  apply Bool.eq_false_iff.mpr
  intro digit
  have bounds : 48 ≤ c.toNat ∧ c.toNat ≤ 57 := by
    simpa [Char.isDigit, UInt32.le_iff_toNat_le] using digit
  rw [isNameStart, isLetter_ascii (by omega)] at starts
  simp only [isAlpha_iff, Bool.or_eq_true, beq_iff_eq] at starts
  rcases starts with (letter | rfl) | rfl
  · omega
  · cases digit
  · cases digit

theorem read_name {c : Char} {word rest : List Char} (starts : isNameStart c) (parts : ∀ d ∈ word, isNamePart d)
    (ends : Separate rest) : read c (word ++ rest) = .ok (.name (String.ofList (c :: word)), rest) := by
  have other {d : Char} (ascii : d.toNat < 128) (mark : (d.isAlpha || d == '_' || d == '$') = false) : c ≠ d := by
    rintro rfl
    rw [isNameStart, isLetter_ascii ascii, mark] at starts
    cases starts
  have number : startsNumber c (word ++ rest) = false := by
    simp [startsNumber, isDigit_of_isNameStart starts, other (show '.'.toNat < 128 by decide) rfl]
  have quote : ¬ (c = '"' ∨ c = '\'') :=
    not_or.mpr ⟨other (by decide) rfl, other (by decide) rfl⟩
  rw [read, if_neg (by simp [number]), if_neg quote, if_pos starts, Text.takeWhile_run parts ends,
    Text.dropWhile_run parts ends]

theorem lexes_name {c : Char} {word : List Char} (starts : isNameStart c) (parts : ∀ d ∈ word, isNamePart d) :
    Lexes (c :: word) [.name (String.ofList (c :: word))] := by
  intro rest ends
  rw [List.cons_append, all_cons (isBlank_of_isNameStart starts) (read_name starts parts ends)]
  rfl

/-! Quoted texts. -/

theorem stringBody_close (quote : Char) (rest : List Char) : stringBody quote (quote :: rest) = .ok ([], rest) := by
  rw [stringBody.eq_def]
  exact if_pos rfl

theorem stringBody_plain {quote c : Char} (other : c ≠ quote) (line : c ≠ '\n') (plain : c ≠ '\\') (rest : List Char) :
    stringBody quote (c :: rest) = (stringBody quote rest).map fun (body, left) => (c :: body, left) := by
  rw [stringBody.eq_def]
  dsimp only
  rw [if_neg other, if_neg line, if_pos plain]

theorem stringBody_letter {quote c : Char} (backslash : quote ≠ '\\') (single : c ∉ ['\n', 'x', 'u']) (rest : List Char) :
    stringBody quote ('\\' :: c :: rest) =
      (stringBody quote rest).map fun (body, left) => (escaped c :: body, left) := by
  simp only [List.mem_cons, List.not_mem_nil, or_false, not_or] at single
  obtain ⟨line, hex, unit⟩ := single
  rw [stringBody.eq_def]
  dsimp only
  rw [if_neg backslash.symm, if_neg (by decide), if_neg (by decide)]
  split
  next same => cases same
  next same => cases same; exact absurd rfl line
  next same => cases same; exact absurd rfl hex
  next same => cases same; exact absurd rfl unit
  next same =>
    cases same
    exact if_neg (by simp [hex, unit])

theorem stringBody_unit {quote a b c d e : Char} (backslash : quote ≠ '\\') (point : codePoint [a, b, c, d] = .ok e)
    (rest : List Char) : stringBody quote ('\\' :: 'u' :: a :: b :: c :: d :: rest) =
      (stringBody quote rest).map fun (body, left) => (e :: body, left) := by
  rw [stringBody.eq_def]
  dsimp only
  rw [if_neg backslash.symm, if_neg (by decide), if_neg (by decide)]
  split
  next same => cases same
  next same => cases same
  next same => cases same
  next same =>
    cases same
    rw [point]
  next _ other same =>
    cases same
    exact absurd rfl (other a b c d rest rfl)

theorem stringBody_newline {quote : Char} (backslash : quote ≠ '\\') (rest : List Char) :
    stringBody quote ('\\' :: '\n' :: rest) = stringBody quote rest := by
  rw [stringBody.eq_def]
  dsimp only
  rw [if_neg backslash.symm, if_neg (by decide), if_neg (by decide)]
  rfl

theorem stringBody_byte {quote a b c : Char} (backslash : quote ≠ '\\') (point : codePoint [a, b] = .ok c)
    (rest : List Char) : stringBody quote ('\\' :: 'x' :: a :: b :: rest) =
      (stringBody quote rest).map fun (body, left) => (c :: body, left) := by
  rw [stringBody.eq_def]
  dsimp only
  rw [if_neg backslash.symm, if_neg (by decide), if_neg (by decide)]
  split
  next same => cases same
  next same => cases same
  next same =>
    cases same
    rw [point]
  next same => cases same
  next _ other _ same =>
    cases same
    exact absurd rfl (other a b rest rfl)

/-- Content that is written between quotes is read back before any text. -/
theorem Written.stringBody_eq {quote : Char} (backslash : quote ≠ '\\') {content value : List Char}
    (written : Written quote content value) (rest : List Char) :
    stringBody quote (content ++ quote :: rest) = .ok (value, rest) := by
  induction written with
  | nil => exact stringBody_close quote rest
  | plain other line plain _ ih =>
    rw [List.cons_append, stringBody_plain other line plain, ih]
    rfl
  | newline _ ih => exact (stringBody_newline backslash _).trans ih
  | byte point _ ih =>
    simp only [List.cons_append]
    rw [stringBody_byte backslash point, ih]
    rfl
  | unit point _ ih =>
    simp only [List.cons_append]
    rw [stringBody_unit backslash point, ih]
    rfl
  | letter single _ ih =>
    simp only [List.cons_append]
    rw [stringBody_letter backslash single, ih]
    rfl

theorem codePoint_control {c : Char} (control : c.toNat < 0x20) :
    codePoint ['0', '0', Nat.digitChar (c.toNat / 16), Nat.digitChar (c.toNat % 16)] = .ok c := by
  have byte : c.toNat < 0x100 := by omega
  rw [codePoint, List.all_eq_true.mpr (Text.isHexDigit_of_byte byte), Text.hexNumber_of_byte byte, Char.ofNat_toNat]
  exact if_pos c.valid

theorem stringBody_escapeChar (c : Char) (rest : List Char) :
    stringBody '"' (Text.Quoted.escapeChar c ++ rest) =
      (stringBody '"' rest).map fun (body, left) => (c :: body, left) := by
  have mark : '"' ≠ '\\' := by decide
  unfold Text.Quoted.escapeChar
  -- The seven characters with an escape of one letter.
  iterate 7
    split
    next same =>
      rw [same]
      exact stringBody_letter mark (by decide) rest
  split
  next control => exact stringBody_unit mark (codePoint_control control) rest
  next quote backslash _ _ line _ _ _ => exact stringBody_plain quote line backslash rest

theorem stringBody_escape (text rest : List Char) :
    stringBody '"' (text.flatMap Text.Quoted.escapeChar ++ '"' :: rest) = .ok (text, rest) := by
  induction text with
  | nil => exact stringBody_close '"' rest
  | cons c text ih =>
    rw [List.flatMap_cons, List.append_assoc, stringBody_escapeChar, ih]
    rfl

theorem lexes_literal (s : String) : Lexes (Text.Quoted.literal s).toList [.text s] := by
  intro rest _
  have whole : (Text.Quoted.literal s).toList ++ rest =
      '"' :: (s.toList.flatMap Text.Quoted.escapeChar ++ '"' :: rest) := by
    simp [Text.Quoted.literal, Text.Quoted.escape]
  have first : read '"' (s.toList.flatMap Text.Quoted.escapeChar ++ '"' :: rest) = .ok (.text s, rest) := by
    rw [read, if_neg (by simp [startsNumber]), if_pos (.inl rfl), stringBody_escape]
    exact congrArg (fun s => Except.ok (Token.text s, rest)) String.ofList_toList
  rw [whole, all_cons rfl first]
  rfl

end NimTemplate.Token
