import Reckon.Decimal.Text
import Reckon.Proofs.Decimal.Exact

/-!
# Numerals

A numeral is a number written as digits with an optional point; it is canonical if no digit can be
left out. The plain text of a number of at most a thousand digits is a canonical numeral of the same
value, after a minus sign if it is negative.

Results: `positionalNumeral`, `exists_numeral_of_round`, `exists_numeral`.
-/

namespace Reckon

/-- Digits before the point, of which there is at least one, and digits after it. -/
structure Numeral where
  whole : List Char
  fraction : List Char
  nonempty : whole ≠ []
  wholeDigits : ∀ c ∈ whole, c.isDigit = true
  fractionDigits : ∀ c ∈ fraction, c.isDigit = true

namespace Numeral

/-- The text of a numeral; the point is only written in front of digits. -/
def chars (n : Numeral) : List Char :=
  if n.fraction = [] then n.whole else n.whole ++ '.' :: n.fraction

/-- The number that a numeral stands for. -/
def decimal (n : Numeral) : Decimal :=
  .ofNumeral n.whole n.fraction

/-- No digit can be left out: there is no zero in front but a single one before the point, and none
at the end of the digits after it. -/
structure IsCanonical (n : Numeral) : Prop where
  leading : n.whole.head? = some '0' → n.whole = ['0']
  trailing : n.fraction.getLast? ≠ some '0'

theorem toRat?_decimal (n : Numeral) : n.decimal.toRat? =
    some ((Decimal.ofDigits (n.whole ++ n.fraction) : ℚ) * 10 ^ (-(n.fraction.length : ℤ))) := by
  simp [decimal, Decimal.ofNumeral, Decimal.toRat?]

theorem exists_chars (n : Numeral) : ∃ c cs, n.chars = c :: cs ∧ c.isDigit = true := by
  obtain ⟨c, cs, shape⟩ := List.exists_cons_of_ne_nil n.nonempty
  have digit := n.wholeDigits c (by simp [shape])
  unfold chars
  split
  next => exact ⟨c, cs, shape, digit⟩
  next => exact ⟨c, _, by rw [shape, List.cons_append], digit⟩

theorem digit_or_point (n : Numeral) {c : Char} (member : c ∈ n.chars) :
    c.isDigit = true ∨ c = '.' := by
  unfold chars at member
  split at member
  next => exact Or.inl (n.wholeDigits c member)
  next =>
    rcases List.mem_append.1 member with whole | rest
    · exact Or.inl (n.wholeDigits c whole)
    rcases List.mem_cons.1 rest with point | fraction
    · exact Or.inr point
    · exact Or.inl (n.fractionDigits c fraction)

end Numeral

namespace Decimal

theorem ofDigits_append (ds es : List Char) :
    ofDigits (ds ++ es) = 10 ^ es.length * ofDigits ds + ofDigits es := by
  change Nat.ofDigitChars 10 (ds ++ es) 0 = _
  rw [Nat.ofDigitChars_append, Nat.ofDigitChars_eq_ofDigitChars_zero]
  rfl

theorem ofDigits_concat (ds : List Char) (d : Char) :
    ofDigits (ds ++ [d]) = 10 * ofDigits ds + (d.toNat - 48) := by
  rw [ofDigits_append]
  simp [ofDigits]

theorem toNat_of_isDigit {c : Char} (digit : c.isDigit = true) : 48 ≤ c.toNat ∧ c.toNat ≤ 57 := by
  simpa [Char.isDigit, UInt32.le_iff_toNat_le] using digit

theorem ofDigits_zeros (n : Nat) : ofDigits (zeros n) = 0 :=
  Nat.ofDigitChars_replicate_zero

theorem ofDigits_digits (c : Nat) : ofDigits (digits c) = c :=
  Nat.ofDigitChars_ten_toDigits

theorem digits_ne_nil (c : Nat) : digits c ≠ [] :=
  Nat.toDigits_ne_nil

theorem isDigit_of_mem_digits {c : Nat} {d : Char} (member : d ∈ digits c) : d.isDigit = true :=
  Nat.isDigit_of_mem_toDigits (by decide) (by decide) member

theorem isDigit_of_mem_nil : ∀ d ∈ ([] : List Char), d.isDigit = true :=
  List.forall_mem_nil _

/-- The numeral of a whole number. -/
def numeral (c : Nat) : Numeral where
  whole := digits c
  fraction := []
  nonempty := digits_ne_nil c
  wholeDigits _ := isDigit_of_mem_digits
  fractionDigits := isDigit_of_mem_nil

theorem decimal_numeral (c : Nat) : (numeral c).decimal = .finite false c 0 := by
  simp [numeral, Numeral.decimal, ofNumeral, ofDigits_digits]

theorem isDigit_of_mem_zeros {n : Nat} {d : Char} (member : d ∈ zeros n) : d.isDigit = true := by
  rw [List.eq_of_mem_replicate member]
  decide

/-! ## The text of a coefficient and an exponent -/

theorem getLast?_digits (c : Nat) : (digits c).getLast? = some (Nat.digitChar (c % 10)) := by
  rcases Nat.lt_or_ge c 10 with single | several
  · rw [digits, Nat.toDigits_of_lt_base single, Nat.mod_eq_of_lt single, List.getLast?_singleton]
  · rw [digits, Nat.toDigits_of_base_le (by decide) several, List.getLast?_concat]

/-- The digits of a coefficient have no zero in front. -/
theorem head?_digits {c : Nat} (nonzero : c ≠ 0) : (digits c).head? ≠ some '0' := by
  induction c using Nat.strong_induction_on with
  | _ c ih =>
    rcases Nat.lt_or_ge c 10 with single | several
    · rw [digits, Nat.toDigits_of_lt_base single, List.head?_cons, Ne, Option.some.injEq,
        Nat.digitChar_eq_zero]
      exact nonzero
    · have front := ih (c / 10) (by omega) (by omega)
      rw [digits, Nat.toDigits_of_base_le (by decide) several,
        List.head?_append_of_ne_nil _ Nat.toDigits_ne_nil]
      exact front

/-- A whole number with zeros at its end. -/
def wholeNumeral (c k : Nat) : Numeral where
  whole := digits c ++ zeros k
  fraction := []
  nonempty := List.append_ne_nil_of_left_ne_nil (digits_ne_nil c) _
  wholeDigits _ member := (List.mem_append.1 member).elim isDigit_of_mem_digits isDigit_of_mem_zeros
  fractionDigits := isDigit_of_mem_nil

theorem toRat?_wholeNumeral (c k : Nat) :
    (wholeNumeral c k).decimal.toRat? = some ((c : ℚ) * 10 ^ (k : ℤ)) := by
  rw [Numeral.toRat?_decimal, wholeNumeral, List.append_nil, ofDigits_append, ofDigits_zeros,
    ofDigits_digits]
  simp [zeros, mul_comm]

theorem isCanonical_wholeNumeral {c : Nat} (nonzero : c ≠ 0) (k : Nat) :
    (wholeNumeral c k).IsCanonical where
  leading zero := by
    change (digits c ++ zeros k).head? = _ at zero
    rw [List.head?_append_of_ne_nil _ (digits_ne_nil c)] at zero
    exact absurd zero (head?_digits nonzero)
  trailing := by simp [wholeNumeral]

/-- The digits of a coefficient with as many zeros in front as it needs for its places. -/
def padded (c places : Nat) : List Char :=
  zeros (places + 1 - (digits c).length) ++ digits c

theorem length_padded (c places : Nat) :
    (padded c places).length = max (places + 1) (digits c).length := by
  simp only [padded, zeros, List.length_append, List.length_replicate]
  omega

theorem isDigit_of_mem_padded {c places : Nat} {d : Char} (member : d ∈ padded c places) :
    d.isDigit = true :=
  (List.mem_append.1 member).elim isDigit_of_mem_zeros isDigit_of_mem_digits

/-- A number with digits after its point. -/
def pointedNumeral (c places : Nat) : Numeral where
  whole := (padded c places).take ((padded c places).length - places)
  fraction := (padded c places).drop ((padded c places).length - places)
  nonempty := by
    have long := length_padded c places
    rw [Ne, List.take_eq_nil_iff, ← List.length_eq_zero_iff]
    omega
  wholeDigits _ member := isDigit_of_mem_padded (List.mem_of_mem_take member)
  fractionDigits _ member := isDigit_of_mem_padded (List.mem_of_mem_drop member)

theorem length_pointedNumeral (c places : Nat) :
    (pointedNumeral c places).fraction.length = places := by
  have long := length_padded c places
  rw [pointedNumeral, List.length_drop]
  omega

theorem chars_pointedNumeral {c places : Nat} (some : 0 < places) :
    (pointedNumeral c places).chars = pointed c places := by
  have fraction : (pointedNumeral c places).fraction ≠ [] := by
    rw [Ne, ← List.length_eq_zero_iff, length_pointedNumeral]
    omega
  rw [Numeral.chars, if_neg fraction]
  rfl

theorem toRat?_pointedNumeral (c places : Nat) :
    (pointedNumeral c places).decimal.toRat? = some ((c : ℚ) * 10 ^ (-(places : ℤ))) := by
  rw [Numeral.toRat?_decimal, length_pointedNumeral, pointedNumeral, List.take_append_drop, padded,
    ofDigits_append, ofDigits_zeros, ofDigits_digits]
  simp

theorem isCanonical_pointedNumeral {c : Nat} (stripped : c % 10 ≠ 0) (places : Nat) :
    (pointedNumeral c places).IsCanonical where
  leading zero := by
    have long := length_padded c places
    rcases Nat.lt_or_ge places (digits c).length with several | few
    · have unpadded : padded c places = digits c := by
        rw [padded, Nat.sub_eq_zero_of_le several]
        rfl
      rw [pointedNumeral, List.head?_take, if_neg (by omega), unpadded] at zero
      exact absurd zero (head?_digits (by omega))
    · change (padded c places).take ((padded c places).length - places) = ['0']
      rw [show (padded c places).length - places = 1 by omega, padded,
        show places + 1 - (digits c).length = places - (digits c).length + 1 by omega]
      rfl
  trailing := by
    rw [pointedNumeral, List.getLast?_drop]
    split
    next => simp
    next =>
      rw [padded, List.getLast?_append_of_ne_nil _ (digits_ne_nil c), getLast?_digits, Ne,
        Option.some.injEq, Nat.digitChar_eq_zero]
      exact stripped

/-- The numeral that the positional text of a number is. -/
def positionalNumeral (c : Nat) (e : ℤ) : Numeral :=
  if 0 ≤ e then wholeNumeral c e.toNat else pointedNumeral c (-e).toNat

theorem chars_positionalNumeral (c : Nat) (e : ℤ) :
    (positionalNumeral c e).chars = positional c e := by
  unfold positionalNumeral positional
  split
  next => rfl
  next => exact chars_pointedNumeral (by omega)

theorem toRat?_positionalNumeral (c : Nat) (e : ℤ) :
    (positionalNumeral c e).decimal.toRat? = some ((c : ℚ) * 10 ^ e) := by
  unfold positionalNumeral
  split
  next whole => rw [toRat?_wholeNumeral, Int.toNat_of_nonneg whole]
  next => rw [toRat?_pointedNumeral, Int.toNat_of_nonneg (by omega), neg_neg]

/-- Without zeros at the end of a fraction the positional text is canonical. -/
theorem isCanonical_positionalNumeral {c : Nat} {e : ℤ} (nonzero : c ≠ 0)
    (stripped : e < 0 → c % 10 ≠ 0) : (positionalNumeral c e).IsCanonical := by
  unfold positionalNumeral
  split
  next => exact isCanonical_wholeNumeral nonzero _
  next fractional => exact isCanonical_pointedNumeral (stripped (by omega)) _

theorem stripZeros_value (c : Nat) (e ideal : ℤ) :
    ((Precision.stripZeros c e ideal).1 : ℚ) * 10 ^ (Precision.stripZeros c e ideal).2 =
      (c : ℚ) * 10 ^ e := by
  induction c, e using Precision.stripZeros.induct ideal with
  | case1 c e zero ih =>
    rw [Precision.stripZeros, dif_pos zero, ih]
    have whole : (c : ℚ) = 10 * (c / 10 : Nat) := by exact_mod_cast (by omega : c = 10 * (c / 10))
    rw [zpow_add_one₀ (by norm_num), whole]
    ring
  | case2 c e other => rw [Precision.stripZeros, dif_neg other]

theorem stripZeros_ne_zero {c : Nat} (nonzero : c ≠ 0) (e ideal : ℤ) :
    (Precision.stripZeros c e ideal).1 ≠ 0 := by
  induction c, e using Precision.stripZeros.induct ideal with
  | case1 c e zero ih =>
    rw [Precision.stripZeros, dif_pos zero]
    exact ih (by omega)
  | case2 c e other =>
    rw [Precision.stripZeros, dif_neg other]
    exact nonzero

/-- A zero is left at the end only where no more may be taken away. -/
theorem stripZeros_stripped {c : Nat} (nonzero : c ≠ 0) (e ideal : ℤ)
    (below : (Precision.stripZeros c e ideal).2 < ideal) :
    (Precision.stripZeros c e ideal).1 % 10 ≠ 0 := by
  induction c, e using Precision.stripZeros.induct ideal with
  | case1 c e zero ih =>
    rw [Precision.stripZeros, dif_pos zero] at below ⊢
    exact ih (by omega) below
  | case2 c e other =>
    rw [Precision.stripZeros, dif_neg other] at below ⊢
    exact fun last => other ⟨nonzero, last, below⟩

/-- A finite number that is shown as it is gives a numeral after its sign. -/
theorem exists_numeral_shown (s : Bool) (c : Nat) (e : ℤ) : ∃ n : Numeral,
    (if c = 0 then String.ofList (sign s ++ ['0']) else
      String.ofList (sign s ++ positional (Precision.stripZeros c e 0).1
        (Precision.stripZeros c e 0).2)).toList = sign s ++ n.chars := by
  split
  next => exact ⟨numeral 0, String.toList_ofList⟩
  next => exact ⟨_, by rw [String.toList_ofList, chars_positionalNumeral]⟩

/-- A zero loses its sign. -/
theorem eq_unsigned_of_round_zero {p : Precision} {a : Decimal} {s : Bool} {c : Nat} {e : ℤ}
    (value : a.toRat? = some 0) (rounded : p.round a = .ok (.finite s c e)) : s = false := by
  obtain ⟨s', c', e', rfl, product⟩ := exists_of_toRat? value
  obtain rfl : c' = 0 := by
    have zero : (signedCoefficient s' c' : ℚ) = 0 :=
      (mul_eq_zero.1 product).resolve_right (ten_zpow_pos e').ne'
    exact signedCoefficient_eq_zero.1 (by exact_mod_cast zero)
  rw [Precision.round, bne_self_eq_false, Bool.and_false, Precision.finish, if_pos rfl] at rounded
  cases rounded
  rfl

/-- The plain text of a number that rounding to a thousand digits does not change is a canonical
numeral of the same value, after a minus sign if the number is negative. -/
theorem exists_numeral_of_round {a r : Decimal} {q : ℚ} (value : a.toRat? = some q)
    (rounded : (Precision.halfEven exactDigits).round a = .ok r) (same : r.toRat? = some q) :
    ∃ n : Numeral, n.IsCanonical ∧ n.decimal.toRat? = some |q| ∧
      a.plain = String.ofList (if q < 0 then '-' :: n.chars else n.chars) := by
  obtain ⟨s, c, e, rfl, product⟩ := exists_of_toRat? same
  simp only [plain, rounded]
  split
  next zero =>
    have none : q = 0 := by rw [← product, zero]; simp
    rw [none] at value
    refine ⟨numeral 0, ⟨fun _ => by decide, by decide⟩, ?_, ?_⟩
    · rw [decimal_numeral, none, abs_zero]
      simp [toRat?]
    · rw [none, if_neg (lt_irrefl _), eq_unsigned_of_round_zero value rounded]
      decide
  next nonzero =>
    have positive : (0 : ℚ) < c * 10 ^ e :=
      mul_pos (by exact_mod_cast Nat.pos_of_ne_zero nonzero) (ten_zpow_pos e)
    refine ⟨_, isCanonical_positionalNumeral (stripZeros_ne_zero nonzero e 0)
      (stripZeros_stripped nonzero e 0), ?_, ?_⟩
    · rw [toRat?_positionalNumeral, stripZeros_value, ← product, abs_value]
    · rw [chars_positionalNumeral]
      cases s with
      | false =>
        have sign : ¬ q < 0 := by
          rw [← product]
          simpa using positive.le
        rw [if_neg sign]
        rfl
      | true =>
        have sign : q < 0 := by
          rw [← product]
          simpa using positive
        rw [if_pos sign]
        rfl

/-- The plain text of a number of at most a thousand digits is a numeral of the same value, after
a minus sign if the number is negative. -/
theorem exists_numeral {a : Decimal} {q : ℚ} (value : a.toRat? = some q)
    (fits : Representable exactDigits q) : ∃ n : Numeral, n.decimal.toRat? = some |q| ∧
      a.plain = String.ofList (if q < 0 then '-' :: n.chars else n.chars) := by
  obtain ⟨r, rounded, same⟩ := Precision.round_exact (p := .halfEven exactDigits) value fits
  obtain ⟨n, -, shown⟩ := exists_numeral_of_round value rounded same
  exact ⟨n, shown⟩

/-- Numbers that are rounded alike have one text. -/
theorem plain_eq_of_round {a b r : Decimal}
    (left : (Precision.halfEven exactDigits).round a = .ok r)
    (right : (Precision.halfEven exactDigits).round b = .ok r) : a.plain = b.plain := by
  rw [plain, plain, left, right]

end Decimal

end Reckon
