import Reckon.Proofs.Decimal.Held
import Reckon.Proofs.Token.Tiling

/-!
# Plain notation is canonical

A canonical numeral is the only one of its value: the places after its point are those that the
value needs, and its digits are those of the coefficient that is left. So equal numbers of at most a
thousand digits have one plain text, however their coefficients and exponents are chosen, and that
text is read back as the number, by `Decimal.ofText?` and, without a sign, as a single token.

Results: `Numeral.IsCanonical.eq_of_value`, `Decimal.isCanonical_render`.
-/

namespace Reckon

/-! ## Digits and values -/

namespace Decimal

variable {ds es : List Char}

theorem eq_of_digit {c d : Char} (first : c.isDigit = true) (second : d.isDigit = true)
    (same : c.toNat - 48 = d.toNat - 48) : c = d := by
  have lower := (toNat_of_isDigit first).1
  have lower' := (toNat_of_isDigit second).1
  rw [← Char.ofNat_toNat c, ← Char.ofNat_toNat d, show c.toNat = d.toNat by omega]

/-- As many digits are told apart by their values. -/
theorem ofDigits_inj (length : ds.length = es.length) (first : ∀ c ∈ ds, c.isDigit = true)
    (second : ∀ c ∈ es, c.isDigit = true) (same : ofDigits ds = ofDigits es) : ds = es := by
  induction ds using List.reverseRecOn generalizing es with
  | nil => exact (List.length_eq_zero_iff.1 length.symm).symm
  | append_singleton ds d ih =>
    obtain rfl | ⟨es, e, rfl⟩ := es.eq_nil_or_concat'
    · simp at length
    have lastDigit := first d (by simp)
    have lastDigit' := second e (by simp)
    have last := toNat_of_isDigit lastDigit
    have last' := toNat_of_isDigit lastDigit'
    rw [ofDigits_concat, ofDigits_concat] at same
    rw [List.length_append, List.length_append] at length
    rw [ih (by simpa using length) (fun c member => first c (List.mem_append_left _ member))
      (fun c member => second c (List.mem_append_left _ member)) (by omega),
      eq_of_digit lastDigit lastDigit' (by omega)]

/-- A digit in front that is not zero tells how large the value is at least. -/
theorem tens_le_ofDigits {d : Char} (digit : d.isDigit = true) (nonzero : d ≠ '0') :
    tens ds.length ≤ ofDigits (d :: ds) := by
  have positive : 0 < d.toNat - 48 :=
    Nat.pos_of_ne_zero fun zero => nonzero (eq_of_digit digit (by decide) zero)
  rw [← List.singleton_append, ofDigits_append, ← tens_eq_pow]
  have lead : ofDigits [d] = d.toNat - 48 := by simp [ofDigits]
  rw [lead]
  exact (Nat.le_mul_of_pos_right _ positive).trans (Nat.le_add_right _ _)

end Decimal

/-! ## Canonical numerals -/

namespace Numeral

variable {n m : Numeral}

/-- All digits as one number. -/
def coefficient (n : Numeral) : Nat :=
  Decimal.ofDigits (n.whole ++ n.fraction)

theorem isDigit_of_mem {c : Char} (member : c ∈ n.whole ++ n.fraction) : c.isDigit = true :=
  (List.mem_append.1 member).elim (n.wholeDigits c) (n.fractionDigits c)

theorem coefficient_of_value {q : ℚ} (value : n.decimal.toRat? = some q) :
    (n.coefficient : ℚ) = q * 10 ^ (n.fraction.length : ℤ) := by
  rw [toRat?_decimal, Option.some.injEq] at value
  rw [← value, mul_assoc, ← zpow_add₀ (by norm_num), neg_add_cancel, zpow_zero, mul_one]
  rfl

namespace IsCanonical

/-- The last digit after the point counts. -/
theorem coefficient_mod (canonical : n.IsCanonical) (some : n.fraction ≠ []) :
    n.coefficient % 10 ≠ 0 := by
  obtain ⟨ds, d, split⟩ := (List.eq_nil_or_concat' n.fraction).resolve_left some
  have digit := n.fractionDigits d (by simp [split])
  have nonzero : d ≠ '0' := by
    rintro rfl
    exact canonical.trailing (by simp [split])
  have bounds := Decimal.toNat_of_isDigit digit
  have positive : d.toNat - 48 ≠ 0 := fun zero =>
    nonzero (Decimal.eq_of_digit digit (by decide) zero)
  rw [coefficient, split, ← List.append_assoc, Decimal.ofDigits_concat]
  omega

/-- There are no more places after the point than the value needs. -/
theorem length_fraction_le (canonical : n.IsCanonical) {c e : ℤ}
    (value : n.decimal.toRat? = some ((c : ℚ) * 10 ^ e)) :
    (n.fraction.length : ℤ) ≤ max 0 (-e) := by
  by_contra more
  have some : n.fraction ≠ [] := by
    rw [Ne, ← List.length_eq_zero_iff]
    omega
  obtain ⟨k, shift⟩ : ∃ k : Nat, e + n.fraction.length = k + 1 :=
    ⟨(e + n.fraction.length - 1).toNat, by omega⟩
  have multiple : (n.coefficient : ℚ) = ((c * 10 ^ k * 10 : ℤ) : ℚ) := by
    rw [coefficient_of_value value, mul_assoc, ← zpow_add₀ (by norm_num), shift,
      zpow_add_one₀ (by norm_num), zpow_natCast]
    push_cast
    ring
  have whole : (n.coefficient : ℤ) = c * 10 ^ k * 10 := by exact_mod_cast multiple
  exact canonical.coefficient_mod some (by omega)

/-- There are no more digits before the point than the value has. -/
theorem length_whole_le (canonical : n.IsCanonical) {q : ℚ} {k : ℤ}
    (value : n.decimal.toRat? = some q) (below : q < 10 ^ k) (one : 1 ≤ k) :
    (n.whole.length : ℤ) ≤ k := by
  cases shape : n.whole with
  | nil => exact absurd shape n.nonempty
  | cons d ds =>
    by_cases zero : d = '0'
    · have single := canonical.leading (by rw [shape, zero, List.head?_cons])
      rw [← shape, single]
      simpa using one
    have least : tens (ds ++ n.fraction).length ≤
        Decimal.ofDigits (d :: (ds ++ n.fraction)) :=
      Decimal.tens_le_ofDigits (n.wholeDigits d (by simp [shape])) zero
    have least : ((10 : ℚ) ^ (ds.length + n.fraction.length)) ≤ n.coefficient := by
      rw [coefficient, shape]
      rw [tens_eq_pow, List.length_append] at least
      exact_mod_cast least
    rw [coefficient_of_value value, zpow_natCast, pow_add] at least
    have reached := le_of_mul_le_mul_right least (by positivity)
    rw [← zpow_natCast] at reached
    have := (zpow_lt_zpow_iff_right₀ (by norm_num : (1 : ℚ) < 10)).1 (reached.trans_lt below)
    rw [List.length_cons]
    omega

/-- Digits that would be the others with zeros in front are the others. -/
theorem length_le_of_padded (canonical : n.IsCanonical) {k : Nat}
    (padded : Decimal.zeros k ++ m.whole = n.whole) : k = 0 := by
  cases k with
  | zero => rfl
  | succ k =>
    have zero : n.whole.head? = some '0' := by rw [← padded]; rfl
    have single := congrArg List.length (padded.trans (canonical.leading zero))
    have some := List.length_pos_iff.2 m.nonempty
    simp only [Decimal.zeros, List.length_append, List.length_replicate, List.length_singleton]
      at single
    omega

/-- There is one canonical numeral of each value. -/
theorem eq_of_value (first : n.IsCanonical) (second : m.IsCanonical)
    (same : n.decimal.toRat? = m.decimal.toRat?) : n = m := by
  have value := n.toRat?_decimal
  have value' := m.toRat?_decimal
  have places : n.fraction.length = m.fraction.length := by
    have le := first.length_fraction_le (same.trans (by exact_mod_cast value'))
    have ge := second.length_fraction_le (same.symm.trans (by exact_mod_cast value))
    omega
  have coefficients : n.coefficient = m.coefficient := by
    have equal := coefficient_of_value (same.trans value')
    rw [places, ← coefficient_of_value value'] at equal
    exact_mod_cast equal
  -- the shorter one of the two is padded with zeros
  wlog shorter : m.whole.length ≤ n.whole.length generalizing n m
  · exact (this second first same.symm value' value places.symm coefficients.symm
      (Nat.le_of_not_le shorter)).symm
  have padded : Decimal.zeros (n.whole.length - m.whole.length) ++ (m.whole ++ m.fraction) =
      n.whole ++ n.fraction := by
    refine Decimal.ofDigits_inj ?_ (fun c member => ?_) (fun c => isDigit_of_mem) ?_
    · simp only [Decimal.zeros, List.length_append, List.length_replicate]
      omega
    · exact (List.mem_append.1 member).elim Decimal.isDigit_of_mem_zeros isDigit_of_mem
    · rw [Decimal.ofDigits_append, Decimal.ofDigits_zeros, Nat.mul_zero, Nat.zero_add]
      exact coefficients.symm
  rw [← List.append_assoc] at padded
  obtain ⟨whole, fraction⟩ := List.append_inj' padded places.symm
  rw [first.length_le_of_padded whole] at whole
  obtain ⟨w, f⟩ := n
  obtain ⟨w', f'⟩ := m
  obtain rfl : w' = w := whole
  obtain rfl : f' = f := fraction
  rfl

end IsCanonical

/-! ## Reading a numeral -/

theorem numberText (n : Numeral) {rest : List Char}
    (stop : ∀ c ∈ rest.head?, c.isDigit = false ∧ c ≠ '.') :
    NumberText n.whole n.fraction n.chars rest where
  wholeDigits := n.wholeDigits
  fractionDigits := n.fractionDigits
  nonempty := .inl n.nonempty
  stop c member := (stop c member).1
  shape := by
    unfold chars
    split
    next none => exact .inr ⟨rfl, none, fun c member => (stop c member).2⟩
    next => exact .inl rfl

theorem length_chars_le (n : Numeral) :
    n.chars.length ≤ n.whole.length + 1 + n.fraction.length := by
  unfold chars
  split
  · omega
  · simp only [List.length_append, List.length_cons]
    omega

/-- A numeral that is a whole text is one token. -/
theorem scan_chars (n : Numeral) : scan (String.ofList n.chars) =
    .ok [⟨.number n.decimal, String.ofList n.chars, 0⟩] :=
  (scans_number 0 n (Edge.borders_nil _)).scan

/-- The canonical numeral of a number that a thousand digits hold is short enough to be read. -/
theorem IsCanonical.length_chars_le_of_holds {n : Numeral} (canonical : n.IsCanonical) {q : ℚ}
    (value : n.decimal.toRat? = some q) (nonneg : 0 ≤ q)
    (held : (Precision.halfEven Decimal.exactDigits).Holds q) :
    (n.chars.length : ℤ) ≤ Decimal.writtenLimit := by
  obtain ⟨⟨c, e, written, -, above⟩, below⟩ := held
  have places := canonical.length_fraction_le (value.trans (by rw [written]))
  rw [abs_of_nonneg nonneg] at below
  have front := canonical.length_whole_le value below (by decide)
  have total := n.length_chars_le
  have smallest : -1000998 ≤ e := above
  have most : maxExponent + 1 = 1000000 := rfl
  have limit : (2001000 : ℤ) ≤ Decimal.writtenLimit := by decide
  omega

end Numeral

/-! ## The plain text of a number -/

namespace Decimal

/-- Plain notation in which nothing can be left out: digits, among which there may be a point with
digits on both sides, no zero in front but a single one before the point, no zero at the end after
it, and a minus sign only in front of a digit that is not zero. -/
def IsCanonicalText (s : String) : Prop :=
  ∃ (negative : Bool) (n : Numeral), s.toList = sign negative ++ n.chars ∧ n.IsCanonical ∧
    (negative = true → ∃ d ∈ n.whole ++ n.fraction, d ≠ '0')

variable {v w : Decimal} {x y : ℚ}

/-- The plain text of a number that a thousand digits hold: a canonical numeral of its magnitude,
behind its sign. -/
theorem exists_render (value : v.toRat? = some x)
    (held : (Precision.halfEven exactDigits).Holds x) :
    ∃ n : Numeral, n.IsCanonical ∧ n.decimal.toRat? = some |x| ∧
      (Term.numeric v).render none =
        .ok (String.ofList (sign (decide (x < 0)) ++ n.chars)) := by
  obtain ⟨r, rounded, same⟩ :=
    (Precision.round_gives (by decide) value held.written).exists_ok held.below
  obtain ⟨n, canonical, magnitude, text⟩ := exists_numeral_of_round value rounded same
  refine ⟨n, canonical, magnitude, ?_⟩
  rw [Term.render_numeric rounded, text]
  by_cases negative : x < 0
  · simp [negative, sign]
  · simp [negative, sign]

/-- It is read back as the number. -/
theorem exists_ofText?_signed {n : Numeral} (canonical : n.IsCanonical)
    (magnitude : n.decimal.toRat? = some |x|)
    (held : (Precision.halfEven exactDigits).Holds x) :
    ∃ r, ofText? (String.ofList (sign (decide (x < 0)) ++ n.chars)) = some r ∧
      r.toRat? = some x := by
  have short := canonical.length_chars_le_of_holds magnitude (abs_nonneg x)
    ⟨held.written.abs, by rw [abs_abs]; exact held.below⟩
  refine ⟨_, (n.numberText (by simp)).ofText?_signed _ short, ?_⟩
  rw [Numeral.toRat?_decimal, Option.some.injEq] at magnitude
  rw [toRat?, Option.some.injEq]
  by_cases negative : x < 0
  · rw [abs_of_neg negative] at magnitude
    rw [decide_eq_true negative, signedCoefficient_true]
    push_cast
    linarith
  · rw [abs_of_nonneg (not_lt.1 negative)] at magnitude
    rw [decide_eq_false negative, signedCoefficient_false]
    exact_mod_cast magnitude

/-- A numeral of a number other than zero has a digit other than zero. -/
theorem exists_digit_ne_zero {n : Numeral} (value : n.decimal.toRat? = some x) (nonzero : x ≠ 0) :
    ∃ d ∈ n.whole ++ n.fraction, d ≠ '0' := by
  by_contra none
  push Not at none
  have zero : ofDigits (n.whole ++ n.fraction) = 0 := by
    rw [List.eq_replicate_of_mem none]
    exact ofDigits_zeros _
  rw [Numeral.toRat?_decimal, zero, Nat.cast_zero, zero_mul, Option.some.injEq] at value
  exact nonzero value.symm

theorem isCanonicalText_signed {n : Numeral} (canonical : n.IsCanonical)
    (magnitude : n.decimal.toRat? = some |x|) :
    IsCanonicalText (String.ofList (sign (decide (x < 0)) ++ n.chars)) :=
  ⟨_, n, String.toList_ofList, canonical, fun negative =>
    exists_digit_ne_zero magnitude (abs_ne_zero.2 (of_decide_eq_true negative).ne)⟩

/-- The plain text of numbers that a thousand digits hold is canonical: it has nothing that can be
left out, it is read back as the number, it tells numbers apart that are not equal and only those,
and it is one token of the number unless a minus sign stands in front. -/
theorem isCanonical_render (first : v.toRat? = some x) (second : w.toRat? = some y)
    (held : (Precision.halfEven exactDigits).Holds x)
    (held' : (Precision.halfEven exactDigits).Holds y) :
    ∃ s, (Term.numeric v).render none = .ok s ∧ IsCanonicalText s ∧
      (∃ r, ofText? s = some r ∧ r.same v = true) ∧
      ((Term.numeric w).render none = .ok s ↔ v.same w = true) ∧
      (0 ≤ x → ∃ r, scan s = .ok [⟨.number r, s, 0⟩] ∧ r.same v = true) := by
  obtain ⟨n, canonical, magnitude, shown⟩ := exists_render first held
  obtain ⟨m, canonical', magnitude', shown'⟩ := exists_render second held'
  obtain ⟨r, read, value⟩ := exists_ofText?_signed canonical magnitude held
  obtain ⟨r', read', value'⟩ := exists_ofText?_signed canonical' magnitude' held'
  refine ⟨_, shown, isCanonicalText_signed canonical magnitude,
    ⟨r, read, (same_iff value first).2 rfl⟩, ?_, fun nonneg => ?_⟩
  · rw [same_iff first second, shown', Except.ok.injEq]
    constructor
    · intro texts
      rw [texts, read, Option.some.injEq] at read'
      rw [read', value', Option.some.injEq] at value
      exact value.symm
    · rintro rfl
      rw [canonical.eq_of_value canonical' (magnitude.trans magnitude'.symm)]
  · rw [decide_eq_false nonneg.not_gt]
    rw [abs_of_nonneg nonneg] at magnitude
    exact ⟨_, n.scan_chars, (same_iff magnitude first).2 rfl⟩

/-- The numbers `120.0` and `1.2E+2` have one text. -/
theorem isCanonical_render_hundred_twenty :
    ∃ s, (Term.numeric (.finite false 1200 (-1))).render none = .ok s ∧ IsCanonicalText s ∧
      (∃ r, ofText? s = some r ∧ r.same (.finite false 1200 (-1)) = true) ∧
      ((Term.numeric (.finite false 12 1)).render none = .ok s ↔
        (finite false 1200 (-1)).same (.finite false 12 1) = true) ∧
      ((0 : ℚ) ≤ 120 →
        ∃ r, scan s = .ok [⟨.number r, s, 0⟩] ∧ r.same (.finite false 1200 (-1)) = true) := by
  have three : Representable 3 ((120 : ℤ) : ℚ) := representable_int (by decide) (by decide)
  have held : (Precision.halfEven exactDigits).Holds 120 :=
    Precision.holds_of_representable (three.mono (by decide))
  refine isCanonical_render (x := 120) (y := 120) ?_ ?_ held held
  · norm_num [toRat?]
  · norm_num [toRat?]

end Decimal

end Reckon
