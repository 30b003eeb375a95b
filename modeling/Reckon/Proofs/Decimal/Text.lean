import Mathlib.Data.List.TakeWhile
import Reckon.Decimal.Text
import Reckon.Proofs.Text.Classes

/-!
# Texts that are no numbers

A text with a parenthesis or a power in it denotes no number, and neither does a single letter.

Results: `Decimal.ofText?_eq_none`, `Decimal.ofText?_letter`.
-/

namespace Reckon

namespace Decimal

/-- Characters that occur in no number. -/
def isBarrier (c : Char) : Bool :=
  c == '(' || c == '^'

theorem isBarrier_classes {c : Char} (barrier : isBarrier c = true) :
    c.isDigit = false ∧ c.toLower = c ∧ asciiDigit c = c ∧ Text.isBlank c = false ∧
      c ∉ ['-', '+', '.', 'e', 'E', '_', 'i', 'n', 'f', 't', 'y', 'a', 's'] := by
  rcases Bool.or_eq_true_iff.1 barrier with opening | power
  · rw [eq_of_beq opening]
    decide
  · rw [eq_of_beq power]
    decide

variable {c : Char} {cs : List Char}

theorem readExponent?_eq_none (barrier : isBarrier c = true) (member : c ∈ cs) :
    readExponent? cs = none := by
  obtain ⟨digit, -, -, -, other⟩ := isBarrier_classes barrier
  have refused : ∀ ds : List Char, c ∈ ds → (ds.isEmpty || !ds.all Char.isDigit) = true := by
    intro ds inside
    have some : ds.all Char.isDigit = false := by
      rw [List.all_eq_false]
      exact ⟨c, inside, by simp [digit]⟩
    rw [some, Bool.not_false, Bool.or_true]
  unfold readExponent?
  split
  next negative ds shape =>
    have inside : c ∈ ds := by
      split at shape
      next =>
        obtain ⟨-, rfl⟩ := Prod.mk.inj shape
        exact (List.mem_cons.1 member).resolve_left (by rintro rfl; simp at other)
      next =>
        obtain ⟨-, rfl⟩ := Prod.mk.inj shape
        exact (List.mem_cons.1 member).resolve_left (by rintro rfl; simp at other)
      next =>
        obtain ⟨-, rfl⟩ := Prod.mk.inj shape
        exact member
    rw [if_pos (refused ds inside)]

theorem mem_dropWhile_digits (digit : c.isDigit = false) (member : c ∈ cs) :
    c ∈ cs.dropWhile Char.isDigit := by
  rw [← List.takeWhile_append_dropWhile (p := Char.isDigit) (l := cs), List.mem_append] at member
  refine member.resolve_left fun inside => ?_
  rw [List.mem_takeWhile_imp inside] at digit
  cases digit

theorem readNumeral?_eq_none (barrier : isBarrier c = true) (member : c ∈ cs) :
    readNumeral? cs = none := by
  obtain ⟨digit, -, -, -, other⟩ := isBarrier_classes barrier
  -- What follows the digits holds the barrier, so it is there and is no exponent.
  have ends : ∀ rest, c ∈ rest → ∃ mark tail, rest = mark :: tail ∧
      ((mark == 'e' || mark == 'E') = true → readExponent? tail = none) := by
    intro rest inside
    cases rest with
    | nil => cases inside
    | cons mark tail =>
      refine ⟨mark, tail, rfl, fun exponent => ?_⟩
      have apart : c ≠ mark := by
        rintro rfl
        rcases Bool.or_eq_true_iff.1 exponent with e | e <;> simp [eq_of_beq e] at other
      exact readExponent?_eq_none barrier ((List.mem_cons.1 inside).resolve_left apart)
  have inside := mem_dropWhile_digits digit member
  unfold readNumeral?
  dsimp only [spanDigits, ofNumeral]
  split
  next tail point =>
    rw [point] at inside
    obtain ⟨mark, rest, shape, refused⟩ := ends _ (mem_dropWhile_digits digit
      ((List.mem_cons.1 inside).resolve_left (by rintro rfl; simp at other)))
    simp only [shape]
    split
    next => rfl
    split
    next exponent => rw [refused exponent, Option.map_none]
    next => rfl
  next =>
    obtain ⟨mark, rest, shape, refused⟩ := ends _ inside
    simp only [shape]
    split
    next => rfl
    split
    next exponent => rw [refused exponent, Option.map_none]
    next => rfl

theorem readUnsigned?_eq_none (barrier : isBarrier c = true) (member : c ∈ cs) :
    readUnsigned? cs = none := by
  obtain ⟨digit, lower, -, -, other⟩ := isBarrier_classes barrier
  have inLower : c ∈ cs.map Char.toLower := by
    have mapped := List.mem_map_of_mem (f := Char.toLower) member
    rwa [lower] at mapped
  have word : ∀ w : List Char, c ∉ w → (cs.map Char.toLower == w) = false := by
    intro w absent
    rw [beq_eq_false_iff_ne]
    rintro rfl
    exact absent inLower
  have front : ∀ k : Nat, ∀ w : List Char, c ∉ w → ((cs.map Char.toLower).take k == w) = true →
      ∀ signaling, readNaN? signaling (cs.drop k) = none := by
    intro k w absent equal signaling
    have inside : c ∈ cs.drop k := by
      rw [← List.take_append_drop k cs, List.mem_append] at member
      refine member.resolve_left fun taken => absent ?_
      rw [← eq_of_beq equal, ← List.map_take]
      have mapped := List.mem_map_of_mem (f := Char.toLower) taken
      rwa [lower] at mapped
    have some : (cs.drop k).all Char.isDigit = false := by
      rw [List.all_eq_false]
      exact ⟨c, inside, by simp [digit]⟩
    rw [readNaN?, some]
    rfl
  have absent : ∀ w : List Char,
      w.all ['-', '+', '.', 'e', 'E', '_', 'i', 'n', 'f', 't', 'y', 'a', 's'].contains = true →
        c ∉ w :=
    fun w letters inside => other (List.contains_iff_mem.1 (List.all_eq_true.1 letters c inside))
  unfold readUnsigned?
  dsimp only
  rw [word "inf".toList (absent _ (by decide)), word "infinity".toList (absent _ (by decide))]
  simp only [Bool.or_self, Bool.false_eq_true, if_false]
  split
  next nan => exact front 3 _ (absent _ (by decide)) nan _
  split
  next snan => exact front 4 _ (absent _ (by decide)) snan _
  exact readNumeral?_eq_none barrier member

theorem readSigned?_eq_none (barrier : isBarrier c = true) (member : c ∈ cs) :
    readSigned? cs = none := by
  obtain ⟨-, -, -, -, other⟩ := isBarrier_classes barrier
  unfold readSigned?
  split
  next =>
    have inside := (List.mem_cons.1 member).resolve_left (by rintro rfl; simp at other)
    rw [readUnsigned?_eq_none barrier inside, Option.map_none]
  next =>
    have inside := (List.mem_cons.1 member).resolve_left (by rintro rfl; simp at other)
    exact readUnsigned?_eq_none barrier inside
  next => exact readUnsigned?_eq_none barrier member

theorem mem_trimBlanks (visible : Text.isBlank c = false) (member : c ∈ cs) :
    c ∈ Text.trimBlanks cs := by
  have dropped : ∀ {ds : List Char}, c ∈ ds → c ∈ ds.dropWhile Text.isBlank := by
    intro ds inside
    rw [← List.takeWhile_append_dropWhile (p := Text.isBlank) (l := ds), List.mem_append] at inside
    refine inside.resolve_left fun blank => ?_
    rw [List.mem_takeWhile_imp blank] at visible
    cases visible
  rw [Text.trimBlanks, List.mem_reverse]
  exact dropped (List.mem_reverse.2 (dropped member))

/-- A text with a parenthesis or a power in it is no number. -/
theorem ofText?_eq_none {s : String} (barrier : isBarrier c = true) (member : c ∈ s.toList) :
    ofText? s = none := by
  obtain ⟨-, -, ascii, visible, other⟩ := isBarrier_classes barrier
  have kept : c ∈ (Text.trimBlanks s.toList).filter (· != '_') := by
    refine List.mem_filter.2 ⟨mem_trimBlanks visible member, ?_⟩
    simp only [bne_iff_ne]
    rintro rfl
    simp at other
  have mapped := List.mem_map_of_mem (f := asciiDigit) kept
  rw [ascii] at mapped
  rw [ofText?, readSigned?_eq_none barrier mapped]
  rfl

/-- A single letter is no number. -/
theorem ofText?_letter (letter : Text.isLetter c = true) : ofText? (String.ofList [c]) = none := by
  have nameChar := isNameChar_of_isLetter letter
  have visible := isBlank_of_isNameChar nameChar
  have digit := asciiDigit_of_isNameChar nameChar
  have marks : ∀ d ∈ ['_', '-', '+', '.'], c ≠ d := by
    intro d member same
    rw [same] at letter
    have none : (['_', '-', '+', '.'].all fun d => !Text.isLetter d) = true := by decide +kernel
    simpa [letter] using List.all_eq_true.1 none d member
  have ascii : asciiDigit c = c := by
    have decimal := isDigit_of_isNameChar nameChar
    have value := (Bool.or_eq_false_iff.1 decimal).1
    rw [asciiDigit, Option.isSome_eq_false_iff.1 value |> Option.isNone_iff_eq_none.1]
  have characters : (Text.trimBlanks [c]).filter (· != '_') = [c] := by
    simp [Text.trimBlanks, visible, marks]
  have numeral : readNumeral? [c] = none := by
    unfold readNumeral?
    simp only [spanDigits, List.takeWhile_cons, List.dropWhile_cons, digit, Bool.false_eq_true,
      if_false]
    split
    next point => exact absurd (List.cons.inj point).1 (marks '.' (by simp))
    next => rfl
  rw [ofText?, String.toList_ofList, characters, List.map_singleton, ascii]
  have signed : readSigned? [c] = readUnsigned? [c] := by
    unfold readSigned?
    split
    next minus => exact absurd (List.cons.inj minus).1 (marks '-' (by simp))
    next plus => exact absurd (List.cons.inj plus).1 (marks '+' (by simp))
    next => rfl
  rw [signed, readUnsigned?]
  simp [numeral]

end Decimal

end Reckon
