import Reckon.Proofs.Binary64.Shortest
import Reckon.Proofs.Term.Canonical

/-!
# The text of a double is read back

A double is written with a point, and a very large or very small one with an exponent behind its
digits. Numerals are read with either (`Numeral.spells`, `Numeral.spells_exponent`), so that the
text is read as the digits it was laid out of (`exists_spells_layout`). As these are few and their
exponent is small, the decimal of every finite double is a number that needs no rounding; and it is
as close to the double as the shortest digits are.

Results: `Binary64.exists_spells_layout`, `Binary64.exists_toDecimal`.
-/

namespace Reckon

open Decimal

/-! ## Numerals with an exponent -/

/-- The characters are read as this coefficient and exponent, and behind a sign too. -/
structure Spells (cs : List Char) (c : Nat) (e : ℤ) : Prop where
  plain : ∀ d ∈ cs, d ∈ "0123456789.e+-".toList
  unsigned : ∀ d ∈ cs.head?, d ≠ '-' ∧ d ≠ '+'
  read : readNumeral? cs = some (.finite false c e)

theorem Numeral.spells (n : Numeral) :
    Spells n.chars (ofDigits (n.whole ++ n.fraction)) (-(n.fraction.length : ℤ)) :=
  have number : NumberText n.whole n.fraction n.chars [] := n.numberText (by simp)
  ⟨fun _ member => List.mem_append_left "e+-".toList (number.digit_or_point member),
    number.unsigned, number.readNumeral?⟩

theorem readExponent?_signed (negative : Bool) {ds : List Char} (some_digit : ds ≠ [])
    (digits : ∀ d ∈ ds, d.isDigit = true) :
    readExponent? ((if negative then '-' else '+') :: ds) =
      some (signedCoefficient negative (ofDigits ds)) := by
  cases negative <;> simpa [readExponent?, some_digit] using digits

theorem isDigit_of_mem_zeros_append {places c : Nat} {d : Char}
    (member : d ∈ zeros places ++ digits c) : d.isDigit = true :=
  (List.mem_append.1 member).elim isDigit_of_mem_zeros isDigit_of_mem_digits

/-- An exponent with a sign and zeros in front. -/
def exponentChars (k : ℤ) (places : Nat) : List Char :=
  (if k < 0 then '-' else '+') :: (zeros places ++ digits k.natAbs)

theorem readExponent?_exponentChars (k : ℤ) (places : Nat) :
    readExponent? (exponentChars k places) = some k := by
  have read := readExponent?_signed (decide (k < 0))
    (List.append_ne_nil_of_right_ne_nil (zeros places) (digits_ne_nil k.natAbs))
    fun _ => isDigit_of_mem_zeros_append
  rw [ofDigits_append, ofDigits_zeros, ofDigits_digits, mul_zero, zero_add,
    signedCoefficient_natAbs] at read
  simpa [exponentChars] using read

theorem Numeral.spells_exponent (n : Numeral) (k : ℤ) (places : Nat) :
    Spells (n.chars ++ 'e' :: exponentChars k places) (ofDigits (n.whole ++ n.fraction))
      (-(n.fraction.length : ℤ) + k) where
  plain d member := by
    have digit : d.isDigit = true → d ∈ "0123456789.e+-".toList := fun isDigit =>
      List.mem_append_left ".e+-".toList (Decimal.isDigit_cases isDigit)
    rcases List.mem_append.1 member with front | back
    · rcases n.digit_or_point front with isDigit | rfl
      · exact digit isDigit
      · decide
    rcases List.mem_cons.1 back with rfl | back
    · decide
    rcases List.mem_cons.1 back with rfl | back
    · split <;> decide
    · exact digit (isDigit_of_mem_zeros_append back)
  unsigned := by
    obtain ⟨c, cs, shape, digit⟩ := n.exists_chars
    rw [shape]
    rintro d ⟨⟩
    constructor <;> rintro rfl <;> cases digit
  read := by
    have number : NumberText n.whole n.fraction n.chars ('e' :: exponentChars k places) :=
      n.numberText (by rintro c ⟨⟩; decide)
    rw [number.readNumeral?_append]
    simp [readExponent?_exponentChars]

namespace Binary64

/-! ## The layout of digits -/

/-- A whole number with a zero behind its point. -/
def pointZeroNumeral (c k : Nat) : Numeral :=
  { wholeNumeral c k with
    fraction := ['0']
    fractionDigits := by simp }

/-- The digits of a coefficient with a point behind the first one. -/
def leadNumeral (c : Nat) : Numeral where
  whole := (digits c).take 1
  fraction := (digits c).drop 1
  nonempty := by simp [digits_ne_nil]
  wholeDigits _ member := isDigit_of_mem_digits (List.mem_of_mem_take member)
  fractionDigits _ member := isDigit_of_mem_digits (List.mem_of_mem_drop member)

theorem chars_leadNumeral (c : Nat) : (leadNumeral c).chars =
    (digits c).take 1 ++ if ((digits c).drop 1).isEmpty then [] else '.' :: (digits c).drop 1 := by
  unfold Numeral.chars leadNumeral
  simp only [List.isEmpty_iff]
  split <;> simp

theorem length_fraction_leadNumeral (c : Nat) :
    ((leadNumeral c).fraction.length : ℤ) = (digits c).length - 1 := by
  have positive := List.length_pos_iff.2 (digits_ne_nil c)
  rw [leadNumeral, List.length_drop]
  omega

theorem toRat?_pointZeroNumeral (c k : Nat) :
    (pointZeroNumeral c k).decimal.toRat? = some ((c : ℚ) * 10 ^ (k : ℤ)) := by
  have digits : ofDigits ((wholeNumeral c k).whole ++ ['0']) = 10 * (10 ^ k * c) := by
    rw [ofDigits_concat, wholeNumeral, ofDigits_append, ofDigits_zeros, ofDigits_digits]
    simp [zeros]
  rw [Numeral.toRat?_decimal, Option.some.injEq]
  change (ofDigits ((wholeNumeral c k).whole ++ ['0']) : ℚ) * 10 ^ (-(1 : ℤ)) = _
  rw [digits, zpow_natCast]
  push_cast
  ring

/-- The text of a coefficient and an exponent is read as this number. Its exponent is the one given,
but where that is changed to place the point. -/
theorem exists_spells_layout (c : Nat) (e : ℤ) : ∃ a f, Spells (layout c e) a f ∧
    (a : ℚ) * 10 ^ f = c * 10 ^ e ∧ min e (-1) ≤ f ∧ f ≤ max e (-1) := by
  unfold layout
  dsimp only
  split
  · split
    next whole =>
      refine ⟨_, _, (pointZeroNumeral c e.toNat).spells, ?_, ?_⟩
      · have value := toRat?_pointZeroNumeral c e.toNat
        rw [Numeral.toRat?_decimal, Option.some.injEq, Int.toNat_of_nonneg whole] at value
        exact value
      · simp [pointZeroNumeral]
    next fractional =>
      have spells := (pointedNumeral c (-e).toNat).spells
      rw [chars_pointedNumeral (by omega)] at spells
      refine ⟨_, _, spells, ?_, ?_⟩
      · have value := toRat?_pointedNumeral c (-e).toNat
        rw [Numeral.toRat?_decimal, Option.some.injEq, Int.toNat_of_nonneg (by omega), neg_neg]
          at value
        exact value
      · rw [length_pointedNumeral]
        omega
  · have spells := (leadNumeral c).spells_exponent (e + (digits c).length - 1)
      (2 - (digits (e + (digits c).length - 1).natAbs).length)
    have exponent : -((leadNumeral c).fraction.length : ℤ) + (e + (digits c).length - 1) = e := by
      rw [length_fraction_leadNumeral]
      ring
    have coefficient : ofDigits ((leadNumeral c).whole ++ (leadNumeral c).fraction) = c := by
      rw [leadNumeral, List.take_append_drop, ofDigits_digits]
    rw [exponent, coefficient, chars_leadNumeral] at spells
    refine ⟨c, e, ?_, rfl, by omega, by omega⟩
    simpa [exponentChars] using spells

/-! ## The decimal of a double -/

/-- Numbers that are neither very large nor very small can be written. -/
theorem writable_of_lt {a : Nat} {f : ℤ} (lower : -1000 ≤ f) (upper : f ≤ 1000)
    (below : (a : ℚ) * 10 ^ f < 10 ^ (1000 : ℤ)) : (finite false a f).writable = true := by
  have limit : (2000 : ℤ) ≤ writtenLimit := by decide
  unfold writable
  rw [Bool.and_eq_true, decide_eq_true_eq]
  refine ⟨by omega, ?_⟩
  split
  next => exact decide_eq_true (by omega)
  next nonzero =>
    have top : (10 : ℚ) ^ ((digitCount a : ℤ) - 1 + f) < 10 ^ (1000 : ℤ) := by
      rw [zpow_add₀ (by norm_num)]
      exact (mul_le_mul_of_nonneg_right (pow_digitCount_le nonzero)
        (ten_zpow_pos f).le).trans_lt below
    have exponent := (zpow_lt_zpow_iff_right₀ (by norm_num : (1 : ℚ) < 10)).1 top
    refine decide_eq_true ?_
    rw [adjusted]
    omega

/-- The text of so many digits is read back, with the sign in front of it. -/
theorem exists_ofText?_layout (s : Bool) {c : Nat} {e : ℤ} (few : c ≤ 10 ^ 17) (lower : -416 ≤ e)
    (upper : e ≤ 329) : ∃ r, Decimal.ofText? (String.ofList (sign s ++ layout c e)) = some r ∧
      r.toRat? = some ((signedCoefficient s c : ℚ) * 10 ^ e) := by
  obtain ⟨a, f, spells, value, least, most⟩ := exists_spells_layout c e
  have below : (a : ℚ) * 10 ^ f < 10 ^ (1000 : ℤ) := by
    have coefficient : (c : ℚ) ≤ 10 ^ (17 : ℤ) := by exact_mod_cast few
    calc (a : ℚ) * 10 ^ f = c * 10 ^ e := value
      _ ≤ 10 ^ (17 : ℤ) * 10 ^ e := mul_le_mul_of_nonneg_right coefficient (ten_zpow_pos e).le
      _ = 10 ^ (17 + e) := (zpow_add₀ (by norm_num) _ _).symm
      _ < 10 ^ (1000 : ℤ) := zpow_lt_zpow_right₀ (by norm_num) (by omega)
  refine ⟨_, ofText?_of_readNumeral? s spells.plain spells.unsigned spells.read
    (writable_of_lt (by omega) (by omega) below), ?_⟩
  rw [toRat?]
  cases s
  · simpa using value
  · simpa using value

/-- The text of a finite double: its sign, and digits that are close to it. -/
theorem exists_text {x : Float} (isFinite : x.isFinite = true) : ∃ s c e,
    text x = String.ofList (sign s ++ layout c e) ∧ c ≤ 10 ^ 17 ∧ -416 ≤ e ∧ e ≤ 329 ∧
      WithinHalfUnit x (signedCoefficient s c * 10 ^ e) ∧ ((x == 0) = true → c = 0) := by
  obtain ⟨s, m, q, parts⟩ := exists_decode? isFinite
  obtain ⟨mantissa, lower, upper⟩ := bounds_of_decode? parts
  unfold text
  rw [parts]
  dsimp only
  split
  next none =>
    refine ⟨s, 0, 0, rfl, by decide, by decide, by decide, ⟨_, parts, ?_⟩, fun _ => rfl⟩
    have unit : (0 : ℚ) ≤ 2 ^ q / 2 := by positivity
    simpa [Parts.toRat, none] using unit
  next nonzero =>
    obtain ⟨few, least, most⟩ := shortest_bounds nonzero mantissa lower upper
    refine ⟨s, _, _, rfl, few, least, most, ⟨_, parts, ?_⟩,
      fun zero => absurd (mantissa_eq_zero parts zero) nonzero⟩
    have close := abs_shortest_sub_le nonzero mantissa lower
    rw [Parts.toRat]
    cases s with
    | false => simpa using close
    | true =>
      rw [abs_sub_comm] at close
      simpa [neg_add_eq_sub] using close

/-- The decimal of a finite double is a number close to it that is shown as it is. -/
theorem exists_toDecimal {x : Float} (isFinite : x.isFinite = true) :
    ∃ y, (toDecimal x).toRat? = some y ∧ Representable exactDigits y ∧ WithinHalfUnit x y ∧
      ((x == 0) = true → y = 0) := by
  obtain ⟨s, c, e, written, few, lower, upper, close, zero⟩ := exists_text isFinite
  obtain ⟨r, read, value⟩ := exists_ofText?_layout s few lower upper
  refine ⟨(signedCoefficient s c : ℚ) * 10 ^ e, ?_, ?_, close, fun equal => ?_⟩
  · rw [toDecimal, written, read, Option.getD_some, value]
  · have short : |signedCoefficient s c| < 10 ^ 18 := by
      have wide : (c : ℤ) < 10 ^ 18 := by exact_mod_cast few.trans_lt (by decide)
      cases s <;> simpa using wide
    have bottom : Reckon.minExponent ≤ -416 := by decide
    have top : 18 + 329 ≤ maxExponent := by decide
    exact (representable_scaled short (by omega) (by omega)).mono (by decide)
  · rw [zero equal, signedCoefficient_zero, Int.cast_zero, zero_mul]

end Binary64

end Reckon
