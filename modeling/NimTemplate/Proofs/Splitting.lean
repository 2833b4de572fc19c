import NimTemplate.Proofs.Braces

/-! Splitting text at its marks. Read from the left, a text is plain up to its first mark; a mark
behind a backslash is kept as text and any other starts an expression, and reading goes on
behind it. The segments hold every character of the text, and splitting fails where an
expression that is come to has no end. -/

namespace NimTemplate.Interpolation

/-- A mark stands right at the start. -/
def opens : List Char → Bool
  | c :: d :: _ => isMark c && d == '\x7b'
  | _ => false

theorem split_skip {run rest : List Char} {c : Char} (plain : opens (c :: rest) = false)
    (bare : c = '\\' → opens rest = false) : split run (c :: rest) = split (c :: run) rest := by
  rw [split.eq_def]
  dsimp only
  split
  next mark rest =>
    have unmarked : isMark mark = false := by simpa [opens] using bare rfl
    simp [unmarked]
  next mark rest _ =>
    have unmarked : isMark c = false := by simpa [opens] using plain
    simp [unmarked]
  next => rfl

def HasMark (text : List Char) : Prop := ∃ mark, isMark mark ∧ [mark, '\x7b'] <:+: text

theorem not_hasMark_nil : ¬ HasMark [] := by
  intro ⟨mark, _, within⟩
  cases List.eq_nil_of_infix_nil within

theorem opens_iff {text : List Char} : opens text ↔ ∃ mark, isMark mark ∧ [mark, '\x7b'] <+: text := by
  constructor
  · intro opened
    unfold opens at opened
    split at opened
    next c d behind =>
      simp only [Bool.and_eq_true, beq_iff_eq] at opened
      exact ⟨c, opened.1, behind, by rw [opened.2]; rfl⟩
    next => cases opened
  · intro ⟨mark, marked, behind, same⟩
    rw [← same]
    simpa [opens] using marked

theorem hasMark_cons_iff {c : Char} {text : List Char} : HasMark (c :: text) ↔ opens (c :: text) ∨ HasMark text := by
  simp only [HasMark, opens_iff, List.infix_cons_iff]
  grind

theorem opens_eq_false {text : List Char} (clear : ¬ HasMark text) : opens text = false := by
  cases text with
  | nil => rfl
  | cons c text => simpa using fun opened => clear (hasMark_cons_iff.mpr (.inl opened))

/-- Whether a text opens with a mark is decided in it, unless a brace follows. -/
theorem opens_append {text behind : List Char} (filled : text ≠ []) (apart : behind.head? ≠ some '\x7b') :
    opens (text ++ behind) = opens text := by
  match text with
  | [] => exact absurd rfl filled
  | [c] =>
    cases behind with
    | nil => rfl
    | cons d behind =>
      have other : d ≠ '\x7b' := by simpa using apart
      simp [opens, other]
  | c :: d :: text => rfl

/-- Up to a place where a mark may stand, plain text is passed over. -/
theorem split_past {plain behind : List Char} (run : List Char) (clear : ¬ HasMark plain)
    (apart : behind.head? ≠ some '\x7b') (bare : opens behind → plain.getLast? ≠ some '\\') :
    split run (plain ++ behind) = split (plain.reverse ++ run) behind := by
  induction plain generalizing run with
  | nil => rfl
  | cons c plain ih =>
    have later : ¬ HasMark plain := fun marked => clear (hasMark_cons_iff.mpr (.inr marked))
    have here : opens (c :: (plain ++ behind)) = false := by
      rw [← List.cons_append, opens_append (by simp) apart]
      exact opens_eq_false clear
    have unescaped : c = '\\' → opens (plain ++ behind) = false := by
      intro backslash
      cases plain with
      | nil => simpa [backslash] using bare
      | cons d plain =>
        rw [opens_append (by simp) apart]
        exact opens_eq_false later
    rw [List.cons_append, split_skip here unescaped, ih _ later, List.reverse_cons, List.append_assoc]
    · rfl
    · intro opened last
      apply bare opened
      cases plain with
      | nil => cases last
      | cons d plain => rwa [List.getLast?_cons_cons]

/-- The first mark of a text, with the plain text before it and what stands behind it. A
backslash right before the mark belongs to it, and the mark is kept as text. -/
structure FirstMark (text plain : List Char) (kept : Bool) (mark : Char) (behind : List Char) : Prop where
  whole : text = plain ++ (if kept then ['\\'] else []) ++ mark :: '\x7b' :: behind
  isMark : isMark mark
  clear : ¬ HasMark plain
  bare : kept = false → plain.getLast? ≠ some '\\'

theorem mark_ne {mark : Char} (marked : isMark mark) : mark ≠ '\x7b' ∧ mark ≠ '\\' := by
  constructor
  all_goals
    intro same
    rw [same] at marked
    cases marked

theorem exists_firstMark {text : List Char} (marked : HasMark text) :
    ∃ plain kept mark behind, FirstMark text plain kept mark behind := by
  induction text with
  | nil => exact absurd marked not_hasMark_nil
  | cons c text ih =>
    by_cases opened : opens (c :: text)
    · obtain ⟨mark, isMark, behind, same⟩ := opens_iff.mp opened
      exact ⟨[], false, mark, behind, same.symm, isMark, not_hasMark_nil, by simp⟩
    · obtain ⟨plain, kept, mark, behind, first⟩ := ih ((hasMark_cons_iff.mp marked).resolve_left opened)
      -- Right before an unescaped mark, a backslash is not plain text but escapes the mark.
      by_cases escapes : c = '\\' ∧ plain = [] ∧ kept = false
      · obtain ⟨rfl, rfl, rfl⟩ := escapes
        refine ⟨[], true, mark, behind, ?_, first.isMark, not_hasMark_nil, by simp⟩
        rw [first.whole]
        rfl
      · refine ⟨c :: plain, kept, mark, behind, by rw [first.whole]; simp, first.isMark, ?_, ?_⟩
        · intro within
          rcases hasMark_cons_iff.mp within with inside | inside
          · apply opened
            rw [first.whole, List.append_assoc, ← List.cons_append, opens_append (by simp)]
            · exact inside
            · cases kept <;> simp [(mark_ne first.isMark).1]
          · exact first.clear inside
        · intro unkept last
          cases plain with
          | nil => exact escapes ⟨by simpa using last, rfl, unkept⟩
          | cons d plain => exact first.bare unkept (by rwa [List.getLast?_cons_cons] at last)

/-! One mark after the other. -/

section

variable {text plain behind : List Char} {mark : Char}

theorem split_plain (clear : ¬ HasMark text) : split [] text = .ok (flush text.reverse) := by
  have past := split_past [] clear (by simp : ([] : List Char).head? ≠ some '\x7b') (by simp [opens])
  rw [List.append_nil, List.append_nil] at past
  rw [past, split]

theorem split_kept (first : FirstMark text plain true mark behind) :
    split [] text = split [] behind >>= fun segments =>
      .ok (flush plain.reverse ++ .text (String.ofList [mark, '\x7b']) :: segments) := by
  rw [first.whole, List.append_assoc, split_past [] first.clear (by simp) (by simp [opens, isMark]), List.append_nil]
  simp only [if_true, List.singleton_append]
  rw [split, if_pos first.isMark]
  rfl

theorem split_open (first : FirstMark text plain false mark behind) :
    split [] text = untilBrace .code [] behind >>= fun found => split [] found.2 >>= fun segments =>
      .ok (flush plain.reverse ++ .expr (String.ofList found.1) (mark == '#') :: segments) := by
  have other := mark_ne first.isMark
  rw [first.whole, List.append_assoc, split_past [] first.clear _ (fun _ => first.bare rfl), List.append_nil]
  · simp only [Bool.false_eq_true, if_false, List.nil_append]
    rw [split.eq_3 _ _ _ (fun _ backslash _ => other.2 backslash), if_pos first.isMark]
    split
    next error failed =>
      rw [failed]
      rfl
    next source left found =>
      rw [found]
      rfl
  · simpa using other.1

end

/-- How a segment stands in the text that it was split from. -/
def written : Segment → List Char
  | .text s => if s = "#\x7b" ∨ s = "!\x7b" then '\\' :: s.toList else s.toList
  | .expr source escape => (if escape then '#' else '!') :: '\x7b' :: source.toList ++ ['\x7d']

def unsplit (segments : List Segment) : String := String.ofList (segments.flatMap written)

/-- Text is not empty and has no mark in it, unless it is one; an expression ends with itself when
a brace is put behind it. -/
def IsProper : Segment → Prop
  | .text s => s ≠ "" ∧ (s = "#\x7b" ∨ s = "!\x7b" ∨ ¬ HasMark s.toList)
  | .expr source _ => braceIndex (source ++ "\x7d") = .ok source.utf8ByteSize

/-- The segments are proper, and written one behind the other they make up the text. -/
structure Covers (segments : List Segment) (text : List Char) : Prop where
  whole : segments.flatMap written = text
  proper : ∀ segment ∈ segments, IsProper segment

theorem Covers.append {segments more : List Segment} {text behind : List Char} (first : Covers segments text)
    (last : Covers more behind) : Covers (segments ++ more) (text ++ behind) where
  whole := by rw [List.flatMap_append, first.whole, last.whole]
  proper := List.forall_mem_append.mpr ⟨first.proper, last.proper⟩

theorem Covers.cons {segments : List Segment} {text : List Char} (rest : Covers segments text) (segment : Segment)
    (proper : IsProper segment) : Covers (segment :: segments) (written segment ++ text) where
  whole := by rw [List.flatMap_cons, rest.whole]
  proper := List.forall_mem_cons.mpr ⟨proper, rest.proper⟩

theorem written_of_clear {s : String} (clear : ¬ HasMark s.toList) : written (.text s) = s.toList := by
  rw [written, if_neg]
  rintro (rfl | rfl)
  · exact clear ⟨'#', rfl, by decide⟩
  · exact clear ⟨'!', rfl, by decide⟩

theorem covers_flush {plain : List Char} (clear : ¬ HasMark plain) : Covers (flush plain.reverse) plain := by
  rw [← String.toList_ofList (l := plain)] at clear
  by_cases empty : plain = []
  · subst empty
    exact ⟨rfl, by simp [flush]⟩
  · have flushed : flush plain.reverse = [.text (String.ofList plain)] := by simp [flush, empty]
    rw [flushed]
    constructor
    · rw [List.flatMap_singleton, written_of_clear clear, String.toList_ofList]
    · intro segment member
      rw [List.mem_singleton.mp member]
      exact ⟨by simpa using empty, .inr (.inr clear)⟩

theorem covers_kept {mark : Char} (marked : isMark mark) {segments : List Segment} {behind : List Char}
    (later : Covers segments behind) :
    Covers (.text (String.ofList [mark, '\x7b']) :: segments) ('\\' :: mark :: '\x7b' :: behind) := by
  have either : mark = '#' ∨ mark = '!' := by simpa [isMark] using marked
  rcases either with rfl | rfl
  · exact later.cons (.text "#\x7b") ⟨by decide, .inl rfl⟩
  · exact later.cons (.text "!\x7b") ⟨by decide, .inr (.inl rfl)⟩

theorem covers_expr {mark : Char} (marked : isMark mark) {segments : List Segment} {behind source left : List Char}
    (found : untilBrace .code [] behind = .ok (source, left)) (later : Covers segments left) :
    Covers (.expr (String.ofList source) (mark == '#') :: segments) (mark :: '\x7b' :: behind) := by
  obtain ⟨rfl, elsewhere⟩ := untilBrace_eq_ok found
  have alone : untilBrace .code [] (String.ofList source ++ "\x7d").toList = .ok (source, []) := by
    rw [String.toList_append, String.toList_ofList]
    exact elsewhere []
  have covers := later.cons (.expr (String.ofList source) (mark == '#')) (braceIndex_of_untilBrace alone)
  have either : mark = '#' ∨ mark = '!' := by simpa [isMark] using marked
  rcases either with rfl | rfl
  all_goals simpa [written] using covers

theorem covers_of_split {text : List Char} {segments : List Segment} (done : split [] text = .ok segments) :
    Covers segments text := by
  by_cases marked : HasMark text
  · obtain ⟨plain, kept, mark, behind, first⟩ := exists_firstMark marked
    have length := congrArg List.length first.whole
    simp only [List.length_append, List.length_cons] at length
    cases kept with
    | true =>
      rw [split_kept first] at done
      obtain ⟨later, inner, same⟩ := bind_eq_ok done
      cases same
      have covers := (covers_flush first.clear).append (covers_kept first.isMark (covers_of_split inner))
      rw [first.whole, List.append_assoc]
      exact covers
    | false =>
      rw [split_open first] at done
      obtain ⟨⟨source, left⟩, found, done⟩ := bind_eq_ok done
      obtain ⟨later, inner, same⟩ := bind_eq_ok done
      cases same
      have shorter := untilBrace_length found
      have covers := (covers_flush first.clear).append (covers_expr first.isMark found (covers_of_split inner))
      rw [first.whole, List.append_assoc]
      exact covers
  · rw [split_plain marked] at done
    cases done
    exact covers_flush marked
termination_by text.length

/-- Where reading comes to from the start of a text: behind marks that are kept, and behind the
closing braces of expressions. -/
inductive Reaches : List Char → List Char → Prop where
  | here (text : List Char) : Reaches text text
  | kept {text plain mark behind rest} : FirstMark text plain true mark behind → Reaches behind rest → Reaches text rest
  | expr {text plain mark source left rest} : FirstMark text plain false mark (source ++ '\x7d' :: left) →
    braceIndex (String.ofList (source ++ '\x7d' :: left)) = .ok (String.ofList source).utf8ByteSize →
    Reaches left rest → Reaches text rest

/-- Reading comes to the mark of an expression, with the given text behind it. -/
def ReachesExpr (text behind : List Char) : Prop :=
  ∃ rest plain mark, Reaches text rest ∧ FirstMark rest plain false mark behind

theorem reachesExpr_of_split {text : List Char} {error : BraceError} (failed : split [] text = .error error) :
    ∃ behind, ReachesExpr text behind ∧ untilBrace .code [] behind = .error error := by
  by_cases marked : HasMark text
  · obtain ⟨plain, kept, mark, behind, first⟩ := exists_firstMark marked
    have length := congrArg List.length first.whole
    simp only [List.length_append, List.length_cons] at length
    cases kept with
    | true =>
      rw [split_kept first] at failed
      rcases bind_eq_error failed with inner | ⟨later, _, done⟩
      · obtain ⟨faulty, ⟨rest, before, other, reaches, last⟩, unclosed⟩ := reachesExpr_of_split inner
        exact ⟨faulty, ⟨rest, before, other, .kept first reaches, last⟩, unclosed⟩
      · cases done
    | false =>
      rw [split_open first] at failed
      rcases bind_eq_error failed with unclosed | ⟨⟨source, left⟩, found, failed⟩
      · exact ⟨behind, ⟨text, plain, mark, .here text, first⟩, unclosed⟩
      · rcases bind_eq_error failed with inner | ⟨later, _, done⟩
        · have shorter := untilBrace_length found
          obtain ⟨faulty, ⟨rest, before, other, reaches, last⟩, unclosed⟩ := reachesExpr_of_split inner
          obtain ⟨rfl, _⟩ := untilBrace_eq_ok found
          have closed := braceIndex_of_untilBrace (by rwa [String.toList_ofList])
          exact ⟨faulty, ⟨rest, before, other, .expr first closed reaches, last⟩, unclosed⟩
        · cases done
  · rw [split_plain marked] at failed
    cases failed
termination_by text.length

theorem Reaches.split_eq_error {text rest : List Char} {error : BraceError} (reaches : Reaches text rest)
    (failed : split [] rest = .error error) : split [] text = .error error := by
  induction reaches with
  | here => exact failed
  | kept first _ ih =>
    rw [split_kept first, ih failed]
    rfl
  | expr first closed _ ih =>
    rw [split_open first, untilBrace_of_braceIndex closed]
    change split [] _ >>= _ = _
    rw [ih failed]
    rfl

/-- Splitting loses nothing and makes nothing up, and it fails if and only if an expression that
reading comes to has no closing brace. -/
theorem splitting_keeps_text (text : String) :
    (∀ found, segments text = .ok found →
      unsplit found = text ∧
      (∀ s, .text s ∈ found → s ≠ "" ∧ (s = "#\x7b" ∨ s = "!\x7b" ∨ ¬ HasMark s.toList)) ∧
      ∀ source escape, .expr source escape ∈ found →
        braceIndex (source ++ "\x7d") = .ok source.utf8ByteSize) ∧
    ∀ error, segments text = .error error ↔
      ∃ behind, ReachesExpr text.toList behind ∧ braceIndex (String.ofList behind) = .error error := by
  constructor
  · intro found done
    have covers := covers_of_split done
    refine ⟨?_, fun s member => covers.proper _ member, fun source escape member => covers.proper _ member⟩
    rw [unsplit, covers.whole, String.ofList_toList]
  · intro error
    constructor
    · intro failed
      obtain ⟨behind, reaches, unclosed⟩ := reachesExpr_of_split failed
      exact ⟨behind, reaches, untilBrace_eq_error_iff.mp unclosed⟩
    · intro ⟨behind, ⟨rest, plain, mark, reaches, first⟩, unclosed⟩
      apply reaches.split_eq_error
      rw [split_open first, untilBrace_eq_error_iff.mpr unclosed]
      rfl

end NimTemplate.Interpolation
