import Mathlib.Data.List.Chain
import NimTemplate.Proofs.Grammar
import NimTemplate.Proofs.QuoteCuts
import NimTemplate.Proofs.Requoting

/-! Literals in double quotes inside of expressions. Without backslashes a literal lasts to the next
quote of its kind. In an expression no literal stands right behind another one, so the quote that
ends a literal is never taken for a doubled one. -/

namespace NimTemplate

namespace Token

/-- Behind a literal come the tokens of the rest. -/
theorem Written.comes {quote : Char} (marks : quote = '"' ∨ quote = '\'') {content value rest : List Char}
    (written : Written quote content value) {c : Char} {token : Token}
    (comes : Comes (quote :: (content ++ quote :: rest)) c token) : c = quote ∨ Comes rest c token := by
  have starts := trimStart_quote marks (content ++ quote :: rest)
  cases comes with
  | here same =>
    rw [starts] at same
    cases same
    exact .inl rfl
  | later same first others =>
    rw [starts] at same
    cases same
    rw [written.read_eq marks] at first
    cases first
    exact .inr others

theorem Written.quote_not_mem {quote : Char} (marks : quote = '"' ∨ quote = '\'') {content value : List Char}
    (written : Written quote content value) (bare : '\\' ∉ content) : quote ∉ content := by
  intro member
  obtain ⟨before, behind, rfl⟩ := List.mem_iff_append.mp member
  have last : before.getLast? = some '\\' :=
    (written.literal marks).getLast?_eq (quote_ne_backslash marks) (by rw [List.append_assoc]; rfl) (by simp)
  exact bare (List.mem_append_left _ (List.mem_of_getLast? last))

def isText : Token → Bool
  | .text _ => true
  | _ => false

end Token

namespace Expr

/-- No text stands right behind another one. -/
def TextsApart (tokens : List Token) : Prop := tokens.IsChain fun token next => ¬ (token.isText ∧ next.isText)

namespace TextsApart

variable {token : Token} {tokens before behind : List Token}

theorem cons (other : token.isText = false) (rest : TextsApart tokens) : TextsApart (token :: tokens) := by
  apply List.isChain_cons.mpr
  exact ⟨by simp [other], rest⟩

theorem append_cons (first : TextsApart before) (other : token.isText = false) (rest : TextsApart behind) :
    TextsApart (before ++ token :: behind) :=
  List.IsChain.append first (rest.cons other) (by simp [other])

theorem enclosed {opener closer : Token} (starts : opener.isText = false) (ends : closer.isText = false)
    (inner : TextsApart tokens) : TextsApart (opener :: tokens ++ [closer]) :=
  (inner.cons starts).append_cons ends .nil

end TextsApart

theorem Derives.textsApart {phrase : Phrase} {tokens : List Token} (derived : Derives phrase tokens) :
    TextsApart tokens := by
  induction derived with
  | plain _ ih | tighter _ _ ih | tightest _ ih | unsigned _ ih | bare _ ih | lastItem _ ih => exact ih
  | number | text | name => exact .singleton _
  | noItems | noFields => exact .nil
  | choice _ _ _ tested one other => exact (tested.append_cons rfl one).append_cons rfl other
  | joined _ _ _ left right => exact left.append_cons rfl right
  | signed listed _ ih =>
    have other : ∀ entry ∈ unaryOperators, entry.1.isText = false := by decide
    exact ih.cons (other _ listed)
  | property s _ ih => exact ih.append_cons rfl (.singleton _)
  | index _ _ subject inner | call _ _ subject inner =>
    exact (subject.append_cons rfl inner).append_cons rfl .nil
  | group _ ih | array _ ih | object _ ih => exact ih.enclosed rfl rfl
  | nextItem _ _ item items => exact item.append_cons rfl items
  | @lastField token _ _ _ _ _ value => exact .append_cons (.singleton token) rfl value
  | @nextField token _ _ _ _ _ _ _ _ value fields =>
    have first : TextsApart (token :: .punct .colon :: _) := .append_cons (.singleton token) rfl value
    exact first.append_cons rfl fields

end Expr

namespace Nim

/-! Requoting what is requoted. -/

section

variable {previous : Char} {content : List Char}

theorem escapeQuotes_plain (plain : '"' ∉ content) : escapeQuotes previous content = content := by
  induction content generalizing previous with
  | nil => rfl
  | cons c content ih =>
    obtain ⟨other, others⟩ := List.ne_and_not_mem_of_not_mem_cons plain
    rw [escapeQuotes_other (Ne.symm other), ih others]

theorem escapeQuotes_append (unescaped : previous ≠ '\\') (bare : '\\' ∉ content) (plain : '"' ∉ content)
    (rest : List Char) :
    escapeQuotes previous (content ++ '"' :: rest) = content ++ '\\' :: '"' :: escapeQuotes '"' rest := by
  induction content generalizing previous with
  | nil => exact if_pos ⟨rfl, unescaped⟩
  | cons c content ih =>
    obtain ⟨other, others⟩ := List.ne_and_not_mem_of_not_mem_cons plain
    obtain ⟨filled, bare⟩ := List.ne_and_not_mem_of_not_mem_cons bare
    rw [List.cons_append, escapeQuotes_other (Ne.symm other), ih (Ne.symm filled) bare others]
    rfl

theorem head?_escapeQuotes (c : Char) (content rest : List Char) :
    (escapeQuotes '"' (c :: content) ++ rest).head? ≠ some '"' := by
  by_cases double : c = '"'
  · rw [escapeQuotes, if_pos ⟨double, by decide⟩]
    simp
  · rw [escapeQuotes_other double]
    simpa using double

end

theorem literal?_bare {quote : Char} {content rest : List Char} (absent : quote ∉ content) (bare : '\\' ∉ content)
    (apart : rest.head? ≠ some quote) : literal? quote (content ++ quote :: rest) = some (content, rest) := by
  rw [literal?_append absent, if_neg apart, if_neg (fun last => bare (List.mem_of_getLast? last))]

/-- A literal whose double quotes are escaped stays as it is. Its quotes are tried one after the
other, and only with the last one the end of the literal is found. -/
theorem requote_escaped {previous : Char} {content rest : List Char} (unescaped : previous ≠ '\\')
    (bare : '\\' ∉ content) (single : '\'' ∉ content) (apart : rest.head? ≠ some '"') :
    requote ('"' :: (escapeQuotes previous content ++ '"' :: rest)) =
      '"' :: (escapeQuotes previous content ++ '"' :: requote rest) := by
  by_cases double : '"' ∈ content
  · obtain ⟨before, behind, rfl, first⟩ := List.eq_append_cons_of_mem double
    simp only [List.mem_append, List.mem_cons, not_or] at bare single
    have parts (more : List Char) : before ++ '\\' :: '"' :: escapeQuotes '"' behind ++ '"' :: more =
        before ++ ['\\'] ++ '"' :: (escapeQuotes '"' behind ++ '"' :: more) := by simp
    have absent : '"' ∉ before ++ ['\\'] := by simp [first]
    have found := literal?_append absent (escapeQuotes '"' behind ++ '"' :: rest)
    rw [escapeQuotes_append unescaped bare.1 first, parts, parts]
    -- A quote right behind the first escaped one ends the literal. Without it the backslash makes
    -- the search fail, and it starts again with the escaped quote.
    cases behind with
    | nil =>
      rw [if_pos (by rfl)] at found
      rw [requote_literal (.inl rfl) found]
      simp [escapeQuotes]
    | cons c behind =>
      rw [if_neg (head?_escapeQuotes c behind _), if_pos (by simp)] at found
      have plain : ∀ d ∈ before ++ ['\\'], ¬ (d = '"' ∨ d = '\'') := by
        rintro d member (rfl | rfl)
        · exact absent member
        · simp [single.1] at member
      rw [requote_kept (.inl rfl) found, requote_append plain,
        requote_escaped (by decide) bare.2.2 single.2.2 apart]
  · rw [escapeQuotes_plain double, requote_literal (.inl rfl) (literal?_bare double bare apart)]
    rfl
termination_by content.length

theorem clashes_bare {content : List Char} (bare : '\\' ∉ content) : clashes content = false := by
  induction content with
  | nil => rfl
  | cons c content ih =>
    obtain ⟨other, others⟩ := List.ne_and_not_mem_of_not_mem_cons bare
    rw [clashes_cons (Ne.symm other), ih others]

/-- The content of a literal once it stands in double quotes. -/
def doubleQuoted (quote : Char) (content : List Char) : List Char :=
  if quote = '\'' then escapeQuotes '\x00' content else content

section

variable {quote : Char} (marks : quote = '"' ∨ quote = '\'') {content value : List Char}
  (written : Token.Written quote content value) (bare : '\\' ∉ content)

include marks written bare

theorem written_doubleQuoted : Token.Written '"' (doubleQuoted quote content) value := by
  rcases marks with rfl | rfl
  · exact written
  · exact written_escapeQuotes written (clashes_bare bare) (.inl (by decide))

theorem requote_bare {rest : List Char} (apart : rest.head? ≠ some quote) :
    requote (quote :: (content ++ quote :: rest)) = '"' :: (doubleQuoted quote content ++ '"' :: requote rest) :=
  requote_literal marks (literal?_bare (written.quote_not_mem marks bare) bare apart)

theorem requote_doubleQuoted {rest : List Char} (apart : rest.head? ≠ some '"') :
    requote ('"' :: (doubleQuoted quote content ++ '"' :: rest)) =
      '"' :: (doubleQuoted quote content ++ '"' :: requote rest) := by
  rcases marks with rfl | rfl
  · exact requote_bare (.inl rfl) written bare apart
  · exact requote_escaped (by decide) bare (written.quote_not_mem (.inr rfl) bare) apart

end

/-! Whole texts. -/

theorem head?_requote {text : List Char} (apart : ∀ c ∈ text.head?, ¬ (c = '"' ∨ c = '\'')) :
    (requote text).head? = text.head? := by
  cases text with
  | nil => rw [requote_nil]
  | cons c text =>
    rw [requote_plain (apart c rfl)]
    rfl

theorem atQuote_requote {text : List Char} (quoted : Token.AtQuote text) : Token.AtQuote (requote text) := by
  cases text with
  | nil => rwa [requote_nil]
  | cons c text =>
    have marks := quoted c rfl
    cases found : literal? c text with
    | none =>
      rw [requote_kept marks found]
      exact quoted
    | some parts =>
      rw [requote_literal marks found]
      simp [Token.AtQuote]

/-- Requoting the text keeps its tokens, leaves only literals in double quotes and is done at once. -/
structure Requoted (text : List Char) (tokens : List Token) : Prop where
  lexed : Token.all (requote text) = .ok tokens
  double : ∀ c s, Token.Comes (requote text) c (.text s) → c = '"'
  fixed : requote (requote text) = requote text

namespace Requoted

variable {text behind : List Char} {tokens more : List Token}

theorem plain (free : Token.QuoteFree text) (lexed : Token.all text = .ok tokens) : Requoted text tokens := by
  have same : requote text = text := by
    simpa [requote_nil] using requote_append free []
  refine ⟨by rwa [same], ?_, by rw [same, same]⟩
  intro c s comes
  rw [same] at comes
  exact absurd comes.quote (free c comes.mem)

theorem append (free : Token.QuoteFree text) (quoted : Token.AtQuote behind) (lexed : Token.all text = .ok tokens)
    (rest : Requoted behind more) : Requoted (text ++ behind) (tokens ++ more) := by
  have still := atQuote_requote quoted
  have whole := requote_append free behind
  refine ⟨?_, ?_, ?_⟩
  · rw [whole]
    exact (Token.all_before_eq_ok still free).mpr ⟨tokens, more, lexed, rest.lexed, rfl⟩
  · intro c s comes
    have marks := comes.quote
    rw [whole] at comes
    rcases comes.before still free with early | late
    · exact absurd marks (free c early)
    · exact rest.double c s late
  · rw [whole, requote_append free, rest.fixed]

theorem literal {quote : Char} (marks : quote = '"' ∨ quote = '\'') {content value left : List Char}
    (written : Token.Written quote content value) (bare : '\\' ∉ content)
    (apart : ∀ c ∈ left.head?, ¬ (c = '"' ∨ c = '\'')) (rest : Requoted left more) :
    Requoted (quote :: (content ++ quote :: left)) (.text (String.ofList value) :: more) := by
  have converted := written_doubleQuoted marks written bare
  have whole := requote_bare marks written bare fun first => apart quote first marks
  refine ⟨?_, ?_, ?_⟩
  · rw [whole, converted.all_eq (.inl rfl), rest.lexed]
    rfl
  · intro c s comes
    rw [whole] at comes
    exact (converted.comes (.inl rfl) comes).elim id (rest.double c s)
  · have head : (requote left).head? ≠ some '"' := by
      rw [head?_requote apart]
      intro first
      exact apart '"' first (.inl rfl)
    rw [whole, requote_doubleQuoted marks written bare head, rest.fixed]

end Requoted

/-- A text without backslashes is requoted well unless a literal stands right behind another one. -/
theorem requoted_of_all {text : List Char} {tokens : List Token} (bare : '\\' ∉ text)
    (lexed : Token.all text = .ok tokens) (apart : Expr.TextsApart tokens) : Requoted text tokens := by
  obtain ⟨before, behind, rfl, free, quoted⟩ := Token.cut_at_quote text
  obtain ⟨front, back, first, later, rfl⟩ := (Token.all_before_eq_ok quoted free).mp lexed
  refine .append free quoted first ?_
  cases behind with
  | nil => exact .plain (by simp [Token.QuoteFree]) later
  | cons quote behind =>
    have marks := quoted quote rfl
    obtain ⟨content, value, left, more, rfl, written, others, rfl⟩ := Token.all_quote_eq_ok marks later
    have chain : Expr.TextsApart (.text (String.ofList value) :: more) := (List.isChain_append.mp apart).2.1
    simp only [List.mem_append, List.mem_cons, not_or] at bare
    have clear : ∀ c ∈ left.head?, ¬ (c = '"' ∨ c = '\'') := by
      -- A quote there would start a second text.
      intro c member next
      obtain ⟨tail, rfl⟩ := List.head?_eq_some_iff.mp member
      obtain ⟨_, _, _, _, _, _, _, rfl⟩ := Token.all_quote_eq_ok next others
      exact (List.isChain_cons_cons.mp chain).1 ⟨rfl, rfl⟩
    have rest : Requoted left more := requoted_of_all bare.2.2.2.2 others chain.tail
    exact .literal marks written bare.2.2.1 clear rest
termination_by text.length

/-- Requoting an expression without backslashes leaves its tokens and what they are read as. All of
its literals are in double quotes then, and requoting it again changes nothing. -/
theorem requoting_keeps_expression {source : String} {expr : Expr} (bare : '\\' ∉ source.toList)
    (parsed : Expr.parse source = .ok expr) :
    Expr.parse (normalizeQuotes source) = .ok expr ∧
      (∃ tokens, Token.all source.toList = .ok tokens ∧ Token.all (normalizeQuotes source).toList = .ok tokens ∧
        ∀ c s, Token.Comes (normalizeQuotes source).toList c (.text s) ↔ c = '"' ∧ .text s ∈ tokens) ∧
      normalizeQuotes (normalizeQuotes source) = normalizeQuotes source := by
  obtain ⟨tokens, lexed, read⟩ := bind_eq_ok parsed
  have requoted := requoted_of_all bare lexed (Expr.derives_of_ofTokens read).textsApart
  rw [normalizeQuotes, normalizeQuotes, String.toList_ofList]
  refine ⟨?_, ⟨tokens, lexed, requoted.lexed, ?_⟩, congrArg String.ofList requoted.fixed⟩
  · rw [Expr.parse, String.toList_ofList, requoted.lexed]
    exact read
  · intro c s
    rw [Token.mem_iff_comes requoted.lexed]
    constructor
    · intro comes
      exact ⟨requoted.double c s comes, c, comes⟩
    · rintro ⟨rfl, d, comes⟩
      rwa [← requoted.double d s comes]

/-- Two literals, each with a quote of the other kind in it. -/
theorem listed_literals_are_kept :
    Expr.parse "['say \"hi\"',\"it's\"]" = .ok (.array [.text "say \"hi\"", .text "it's"]) ∧
      normalizeQuotes "['say \"hi\"',\"it's\"]" = "[\"say \\\"hi\\\"\",\"it's\"]" ∧
      Expr.parse (normalizeQuotes "['say \"hi\"',\"it's\"]") = .ok (.array [.text "say \"hi\"", .text "it's"]) := by
  have parsed : Expr.parse "['say \"hi\"',\"it's\"]" = .ok (.array [.text "say \"hi\"", .text "it's"]) := by
    have first : Token.read '\'' "say \"hi\"',\"it's\"]".toList = .ok (.text "say \"hi\"", ",\"it's\"]".toList) := by
      exact eq_ok_of_toOption (by decide +kernel)
    have second : Token.read '"' "it's\"]".toList = .ok (.text "it's", "]".toList) := by
      exact eq_ok_of_toOption (by decide +kernel)
    have behind : Token.all ",\"it's\"]".toList = .ok [.punct .comma, .text "it's", .punct .closeBracket] := by
      change Token.all (',' :: '"' :: "it's\"]".toList) = _
      rw [Token.Marks.comma.all_eq, Token.all_cons rfl second]
      change ((Token.all [']']).map _).map _ = _
      rw [Token.Marks.closeBracket.all_eq, Token.all_nil]
      rfl
    change (Token.all ('[' :: '\'' :: "say \"hi\"',\"it's\"]".toList)).bind Expr.ofTokens = _
    rw [Token.Marks.openBracket.all_eq, Token.all_cons rfl first, behind]
    conv => lhs; cbv
  exact ⟨parsed, by decide +kernel, (requoting_keeps_expression (by decide) parsed).1⟩

end Nim

end NimTemplate
