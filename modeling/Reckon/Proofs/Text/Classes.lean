import Mathlib
import Reckon.Term.Shape
import Reckon.Token.Lexer

/-!
# Classes of characters

The classes that the scanner tells apart have no character in common: blanks, digits, characters
of names, and marks (operators, punctuation and the point). Tables are compared range by range.
-/

namespace Reckon

namespace Text

/-- No two ranges of the tables meet. -/
def Ranges.apart (first second : Ranges) : Bool :=
  first.all fun r => second.all fun s => (r.2.blt s.1).or (s.2.blt r.1)

theorem Ranges.has_eq_false {first second : Ranges} (apart : first.apart second = true)
    {point : Nat} (member : first.has point = true) : second.has point = false := by
  obtain ⟨⟨low, high⟩, inFirst, above, below⟩ := Ranges.has_iff.1 member
  rw [Bool.eq_false_iff]
  intro inOther
  obtain ⟨⟨low', high'⟩, inSecond, above', below'⟩ := Ranges.has_iff.1 inOther
  have disjoint := List.all_eq_true.1 (List.all_eq_true.1 apart _ inFirst) _ inSecond
  simp only [Bool.or_eq_true, Nat.blt_eq] at disjoint
  omega

/-- The families of decimal digits as ranges. -/
def decimalRanges : Ranges :=
  zeroPoints.map fun start => (start, start + 9)

/-- A decimal digit lies in one of the families. -/
theorem has_decimalRanges {c : Char} (digit : (digitValue? c).isSome = true) :
    decimalRanges.has c.toNat = true := by
  simp only [digitValue?, Option.isSome_map, List.find?_isSome, Bool.and_eq_true,
    decide_eq_true_eq] at digit
  obtain ⟨start, member, above, below⟩ := digit
  exact Ranges.has_iff.2 ⟨(start, start + 9), List.mem_map_of_mem member, above, by simp; omega⟩

theorem isDigit_of_ascii {c : Char} (digit : c.isDigit = true) : Text.isDigit c = true := by
  have bounds : 48 ≤ c.toNat ∧ c.toNat ≤ 57 := by
    simpa [Char.isDigit, UInt32.le_iff_toNat_le] using digit
  simp only [isDigit, digitValue?, Option.isSome_map, List.find?_isSome, Bool.or_eq_true,
    Bool.and_eq_true, decide_eq_true_eq]
  exact Or.inl ⟨0x30, by decide, bounds.1, by omega⟩

theorem isBlank_of_ascii {c : Char} (digit : c.isDigit = true) : isBlank c = false := by
  have bounds : 48 ≤ c.toNat ∧ c.toNat ≤ 57 := by
    simpa [Char.isDigit, UInt32.le_iff_toNat_le] using digit
  exact Ranges.has_eq_false (by decide : Ranges.apart [(48, 57)] blankRanges = true)
    (by simp [Ranges.has, bounds])

/-- The characters of names. -/
def nameRanges : Ranges :=
  (0x41, 0x5a) :: (0x5f, 0x5f) :: (0x61, 0x7a) :: letterRanges

theorem has_nameRanges {c : Char} (letter : isNameChar c = true) :
    nameRanges.has c.toNat = true := by
  simp only [isNameChar, isLetter, Char.isAlpha, Char.isUpper, Char.isLower, Bool.or_eq_true,
    Bool.and_eq_true, decide_eq_true_eq, beq_iff_eq, UInt32.le_iff_toNat_le] at letter
  rw [Ranges.has_iff]
  rcases letter with ((upper | lower) | other) | rfl
  · exact ⟨(0x41, 0x5a), .head _, upper⟩
  · exact ⟨(0x61, 0x7a), .tail _ (.tail _ (.head _)), lower⟩
  · obtain ⟨range, member, bounds⟩ := Ranges.has_iff.1 other
    exact ⟨range, .tail _ (.tail _ (.tail _ member)), bounds⟩
  · exact ⟨(0x5f, 0x5f), .tail _ (.head _), by decide⟩

end Text

/-- Marks, brackets, points and blanks belong to no name. -/
theorem isNameChar_eq_false {c : Char} (plain : c ∈ "+-*/^<>=!.()[], ".toList) :
    isNameChar c = false :=
  List.all_iff_forall_prop.1 (by decide +kernel : "+-*/^<>=!.()[], ".toList.all
    fun c => decide (isNameChar c = false)) c plain

theorem ne_of_isNameChar {c d : Char} (letter : isNameChar c = true)
    (plain : d ∈ "+-*/^<>=!.()[], ".toList) : c ≠ d := by
  rintro rfl
  rw [isNameChar_eq_false plain] at letter
  cases letter

theorem isNameChar_of_isLetter {c : Char} (letter : Text.isLetter c = true) :
    isNameChar c = true := by
  rw [isNameChar, letter, Bool.true_or]

/-- A character of a name is no digit of any script. -/
theorem isDigit_of_isNameChar {c : Char} (letter : isNameChar c = true) :
    Text.isDigit c = false := by
  have member := Text.has_nameRanges letter
  have isolated := Text.Ranges.has_eq_false
    (by decide +kernel : Text.nameRanges.apart Text.isolatedDigitRanges = true) member
  have decimal := Text.Ranges.has_eq_false
    (by decide +kernel : Text.nameRanges.apart Text.decimalRanges = true) member
  rw [Text.isDigit, isolated, Bool.or_false, Bool.eq_false_iff]
  intro digit
  rw [Text.has_decimalRanges digit] at decimal
  cases decimal

theorem isBlank_of_isNameChar {c : Char} (letter : isNameChar c = true) :
    Text.isBlank c = false :=
  Text.Ranges.has_eq_false
    (by decide +kernel : Text.nameRanges.apart Text.blankRanges = true) (Text.has_nameRanges letter)

/-- A character of a name does not begin a number. -/
theorem asciiDigit_of_isNameChar {c : Char} (letter : isNameChar c = true) :
    c.isDigit = false := by
  rw [Bool.eq_false_iff]
  intro digit
  have none := isDigit_of_isNameChar letter
  rw [Text.isDigit_of_ascii digit] at none
  cases none

/-- An operator character, a parenthesis, a bracket or a comma. -/
def isMark (c : Char) : Bool :=
  ['+', '-', '*', '/', '^', '<', '>', '=', '!', '(', ')', '[', ']', ','].contains c

/-- A mark is neither a blank nor part of a number or a name. -/
theorem isMark_classes {c : Char} (mark : isMark c = true) :
    Text.isBlank c = false ∧ Text.isDigit c = false ∧ c ≠ '.' ∧ isNameChar c = false := by
  have all : ∀ c ∈ ['+', '-', '*', '/', '^', '<', '>', '=', '!', '(', ')', '[', ']', ','],
      Text.isBlank c = false ∧ Text.isDigit c = false ∧ c ≠ '.' ∧ isNameChar c = false :=
    -- one by one: to decide a statement about all characters is to go through all of them
    List.all_iff_forall_prop.1 (by decide +kernel)
  exact all c (List.contains_iff_mem.1 mark)

theorem asciiDigit_of_isMark {c : Char} (mark : isMark c = true) : c.isDigit = false := by
  rw [Bool.eq_false_iff]
  intro digit
  have none := (isMark_classes mark).2.1
  rw [Text.isDigit_of_ascii digit] at none
  cases none

theorem Operator.isMark_of_mem_symbol (op : Operator) {c : Char} (member : c ∈ op.symbol.toList) :
    isMark c = true := by
  have all : (op.symbol.toList.all isMark) = true := by cases op <;> decide
  exact List.all_eq_true.1 all c member

theorem isNameChar_of_ascii {c : Char} (digit : c.isDigit = true) : isNameChar c = false := by
  rw [Bool.eq_false_iff]
  intro letter
  rw [asciiDigit_of_isNameChar letter] at digit
  cases digit

theorem isLetter_of_isMark {c : Char} (mark : isMark c = true) : Text.isLetter c = false :=
  (Bool.or_eq_false_iff.1 (isMark_classes mark).2.2.2).1

theorem isNameChar_of_isAlpha {c : Char} (alpha : c.isAlpha = true) : isNameChar c = true :=
  isNameChar_of_isLetter (Text.isLetter_of_isAlpha alpha)

end Reckon
