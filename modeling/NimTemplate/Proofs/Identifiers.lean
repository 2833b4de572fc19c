import Mathlib.Data.List.Chain
import NimTemplate.Nim.Procedure
import NimTemplate.Proofs.Digits

/-! The names of mixin procedures as Nim sees them. No two mixins share a procedure, although Nim
looks neither at underscores nor at the case of letters behind the first. -/

namespace NimTemplate.Nim

/-- What Nim compares of an identifier: its first character as it is, and of the others all but
the underscores, in small letters. -/
def compared : List Char → List Char
  | [] => []
  | c :: rest => c :: (rest.filter (· != '_')).map Char.toLower

def SameIdentifier (a b : String) : Prop := compared a.toList = compared b.toList

/-- Letters, digits and single underscores, with a letter at the start and no underscore at the
end. -/
structure IsIdentifier (text : List Char) : Prop where
  starts : ∃ c ∈ text.head?, c.isAlpha
  parts : ∀ c ∈ text, c.isAlphanum ∨ c = '_'
  single : text.IsChain fun a b => ¬ (a = '_' ∧ b = '_')
  ends : text.getLast? ≠ some '_'

/-! The code of a name. -/

/-- The characters that codes are made of. -/
def isCodePart (c : Char) : Bool := c.isLower || c.isDigit

theorem isCodePart_encodeChar (c : Char) : ∀ d ∈ encodeChar c, isCodePart d := by
  have digits : ∀ d < 16, isCodePart (Nat.digitChar d) := by decide
  unfold encodeChar
  split
  next plain =>
    simp only [isPlain, Bool.or_eq_true, Bool.and_eq_true] at plain
    simp only [List.mem_singleton, forall_eq, isCodePart, Bool.or_eq_true]
    exact plain.imp_left And.left
  next =>
    simp only [List.cons_append, List.forall_mem_cons, List.forall_mem_append]
    exact ⟨by decide, Text.forall_mem_toDigits digits _, by decide, List.forall_mem_nil _⟩

theorem isCodePart_code (name : List Char) : ∀ c ∈ name.flatMap encodeChar, isCodePart c := by
  intro c member
  obtain ⟨d, _, part⟩ := List.mem_flatMap.mp member
  exact isCodePart_encodeChar d c part

/-- The digits of a code point end at the first `x` behind them. -/
theorem digits_inj {m n : Nat} {rest other : List Char}
    (same : Nat.toDigits 16 m ++ 'x' :: rest = Nat.toDigits 16 n ++ 'x' :: other) : m = n ∧ rest = other := by
  have apart (n : Nat) : ∀ c ∈ Nat.toDigits 16 n, (c != 'x') = true := Text.forall_mem_toDigits (by decide) n
  have digits := congrArg (List.takeWhile (· != 'x')) same
  rw [List.takeWhile_append_of_pos (apart m), List.takeWhile_append_of_pos (apart n)] at digits
  simp only [List.takeWhile_cons, bne_self_eq_false, Bool.false_eq_true, ↓reduceIte, List.append_nil] at digits
  have number : m = n := by rw [← Text.hexNumber_toDigits m, digits, Text.hexNumber_toDigits]
  subst number
  simpa using same

/-- No code of a character begins another. -/
theorem encodeChar_inj {c d : Char} {rest other : List Char}
    (same : encodeChar c ++ rest = encodeChar d ++ other) : c = d ∧ rest = other := by
  have escaped {c : Char} (plain : isPlain c) : c ≠ 'x' := by
    rintro rfl
    exact absurd plain (by decide)
  unfold encodeChar at same
  split at same <;> split at same
  next => simpa using same
  next plain _ => exact absurd (List.cons.inj same).1 (escaped plain)
  next _ plain => exact absurd (List.cons.inj same).1.symm (escaped plain)
  next =>
    simp only [List.cons_append, List.append_assoc, List.nil_append, List.cons.injEq, true_and] at same
    obtain ⟨number, behind⟩ := digits_inj same
    exact ⟨Char.toNat_inj.mp number, behind⟩

theorem encodeChar_ne_nil (c : Char) : encodeChar c ≠ [] := by
  unfold encodeChar
  split <;> simp

theorem code_inj {name other : List Char} (same : name.flatMap encodeChar = other.flatMap encodeChar) :
    name = other := by
  induction name generalizing other with
  | nil =>
    cases other with
    | nil => rfl
    | cons d other => simp [encodeChar_ne_nil] at same
  | cons c name ih =>
    cases other with
    | nil => simp [encodeChar_ne_nil] at same
    | cons d other =>
      obtain ⟨rfl, behind⟩ := encodeChar_inj same
      rw [ih behind]

/-! The whole identifier. -/

theorem toLower_of_isCodePart {c : Char} (part : isCodePart c) : c.toLower = c := by
  have small : ¬ ('A'.val ≤ c.val ∧ c.val ≤ 'Z'.val) := by
    intro capital
    have bounds : (97 ≤ c.val.toNat ∧ c.val.toNat ≤ 122) ∨ (48 ≤ c.val.toNat ∧ c.val.toNat ≤ 57) := by
      change (('a'.val ≤ c.val && c.val ≤ 'z'.val) || ('0'.val ≤ c.val && c.val ≤ '9'.val)) at part
      simpa [UInt32.le_iff_toNat_le] using part
    have last : c.val.toNat ≤ 90 := UInt32.le_iff_toNat_le.mp capital.2
    have first : 65 ≤ c.val.toNat := UInt32.le_iff_toNat_le.mp capital.1
    omega
  exact dif_neg small

theorem ne_underscore_of_isCodePart {c : Char} (part : isCodePart c) : c ≠ '_' := by
  rintro rfl
  exact absurd part (by decide)

theorem compared_append (c : Char) (start code : List Char) (parts : ∀ c ∈ code, isCodePart c) :
    compared (c :: start ++ code) = compared (c :: start) ++ code := by
  have kept : code.filter (· != '_') = code :=
    List.filter_eq_self.mpr fun c member => by simpa using ne_underscore_of_isCodePart (parts c member)
  have small : code.map Char.toLower = code.map id :=
    List.map_congr_left fun c member => toLower_of_isCodePart (parts c member)
  rw [List.cons_append, compared, compared, List.filter_append, List.map_append, kept, small, List.map_id,
    List.cons_append]

theorem toList_mixinName {name : String} (filled : name ≠ "") :
    (mixinName name).toList = "jade_mixins_".toList ++ name.toList.flatMap encodeChar := by
  simp [mixinName, filled]

theorem compared_mixinName (name : String) :
    compared (mixinName name).toList = "jademixins".toList ++ name.toList.flatMap encodeChar := by
  by_cases filled : name = ""
  · rw [filled]
    decide
  · rw [toList_mixinName filled]
    exact compared_append 'j' ['a', 'd', 'e', '_', 'm', 'i', 'x', 'i', 'n', 's', '_'] _ (isCodePart_code _)

theorem isPart_of_all {text : List Char} (all : text.all fun c => c.isAlphanum || c == '_') :
    ∀ c ∈ text, c.isAlphanum ∨ c = '_' := by
  intro c member
  simpa using List.all_eq_true.mp all c member

theorem isIdentifier_mixinName (name : String) : IsIdentifier (mixinName name).toList := by
  by_cases filled : name = ""
  · rw [filled]
    exact ⟨⟨'j', rfl, rfl⟩, isPart_of_all (by decide), by decide, by decide⟩
  · have parts := isCodePart_code name.toList
    have someCode : name.toList.flatMap encodeChar ≠ [] := by
      intro none
      exact filled (String.toList_eq_nil_iff.mp (code_inj none))
    rw [toList_mixinName filled]
    generalize name.toList.flatMap encodeChar = code at parts someCode
    constructor
    case starts => exact ⟨'j', rfl, rfl⟩
    case parts =>
      have letter : ∀ c ∈ code, c.isAlphanum ∨ c = '_' := by
        intro c member
        have part := parts c member
        rw [isCodePart, Bool.or_eq_true] at part
        change ((c.isUpper || c.isLower) || c.isDigit) ∨ c = '_'
        rw [Bool.or_eq_true, Bool.or_eq_true]
        exact .inl (part.imp_left .inr)
      exact List.forall_mem_append.mpr ⟨isPart_of_all (by decide), letter⟩
    case single =>
      refine List.isChain_append.mpr ⟨by decide, ?_, ?_⟩
      · apply List.Pairwise.isChain
        apply List.pairwise_of_forall_mem_list
        intro a member b _ both
        exact ne_underscore_of_isCodePart (parts a member) both.1
      · intro a _ b first both
        exact ne_underscore_of_isCodePart (parts b (List.mem_of_mem_head? first)) both.2
    case ends =>
      rw [List.getLast?_append_of_ne_nil _ someCode]
      intro last
      exact ne_underscore_of_isCodePart (parts '_' (List.mem_of_getLast? last)) rfl

/-- Mixins with different names have procedures that Nim tells apart, and the name of each is an
identifier of Nim. -/
theorem mixin_names_stay_apart :
    (∀ a b : String, SameIdentifier (mixinName a) (mixinName b) ↔ a = b) ∧
      ∀ name : String, IsIdentifier (mixinName name).toList := by
  refine ⟨fun a b => ?_, isIdentifier_mixinName⟩
  rw [SameIdentifier, compared_mixinName, compared_mixinName, List.append_cancel_left_eq]
  constructor
  · intro same
    exact String.toList_inj.mp (code_inj same)
  · rintro rfl
    rfl

end NimTemplate.Nim
