import Reckon.Proofs.Decimal.Quotient

/-!
# Numbers that a precision has room for

A number that can be written with the digits of a precision, the subnormal numbers included, is not
changed by rounding: an operation with this exact result gives it, or it is an overflow because the
number is beyond the exponent range. A precision holds the number if it is not.

Results: `Writes.rounded_eq`, `finish_gives`, from which `round_gives` and `abs_gives`, `div_held`;
`holds_of_representable`, `holds_rounded`.
-/

namespace Reckon

namespace Precision

/-- The number is a coefficient with no more digits than the precision times a power of ten that is
not too low. -/
def Writes (p : Precision) (q : ℚ) : Prop :=
  ∃ c g : ℤ, q = c * 10 ^ g ∧ |c| < 10 ^ p.digits ∧ p.tiny ≤ g

/-- The number can be written, and it is not too large. -/
structure Holds (p : Precision) (q : ℚ) : Prop where
  written : p.Writes q
  below : |q| < 10 ^ (maxExponent + 1)

variable {p : Precision} {x y q : ℚ}

theorem Writes.neg (written : p.Writes q) : p.Writes (-q) := by
  obtain ⟨c, g, rfl, short, above⟩ := written
  exact ⟨-c, g, by push_cast; ring, by rwa [abs_neg], above⟩

theorem Writes.abs (written : p.Writes q) : p.Writes |q| := by
  rcases abs_choice q with same | opposite
  · rwa [same]
  · rw [opposite]
    exact written.neg

/-- An integer with no more digits than the precision. -/
theorem writes_int {n : ℤ} (short : |n| < 10 ^ p.digits) : p.Writes n := by
  refine ⟨n, 0, by simp, short, ?_⟩
  have low : minExponent + 1 ≤ 0 := by decide
  unfold tiny
  omega

theorem holds_zero (p : Precision) : p.Holds 0 where
  written := by exact_mod_cast writes_int (p := p) (n := 0) (by simp)
  below := by
    rw [abs_zero]
    exact Decimal.ten_zpow_pos _

/-- A number with few digits whose leading digit is in the exponent range is held. -/
theorem holds_of_representable (fits : Representable p.digits q) : p.Holds q := by
  obtain ⟨⟨c, g, rfl, short⟩, zero | ⟨above, below⟩⟩ := fits
  · rw [zero]
    exact holds_zero p
  · refine ⟨⟨c, g, rfl, short, ?_⟩, below⟩
    have reach := above.trans_lt (abs_coefficient_lt short g)
    have := (zpow_lt_zpow_iff_right₀ (by norm_num : (1 : ℚ) < 10)).1 reach
    unfold tiny
    omega

/-- The digits of a number that can be written are those that rounding keeps. -/
theorem Writes.magnitude_eq (written : p.Writes q) (positive : 0 < q) : p.magnitude q = q := by
  obtain ⟨c, g, rfl, short, above⟩ := written
  have leads := log_coefficient_lt short positive
  have grid : p.lowest (c * 10 ^ g) ≤ g := by
    unfold lowest
    omega
  exact le_antisymm (magnitude_le grid le_rfl) (le_magnitude grid le_rfl)

theorem Writes.rounded_eq (written : p.Writes q) : p.rounded q = q := by
  rcases lt_trichotomy q 0 with negative | rfl | positive
  · rw [rounded, if_pos negative, written.neg.magnitude_eq (neg_pos.2 negative), neg_neg]
  · exact rounded_zero p
  · rw [rounded, if_neg positive.not_gt, written.magnitude_eq positive]

/-! ## Operations -/

/-- The operation gives the number, unless it is too large. -/
def Gives (result : Except Signal Decimal) (q : ℚ) : Prop :=
  (∃ r, result = .ok r ∧ r.toRat? = some q ∧ |q| < 10 ^ (maxExponent + 1)) ∨
    result = .error .overflow ∧ 10 ^ (maxExponent + 1) ≤ |q|

theorem Gives.exists_ok {result : Except Signal Decimal} (given : Gives result q)
    (below : |q| < 10 ^ (maxExponent + 1)) : ∃ r, result = .ok r ∧ r.toRat? = some q := by
  rcases given with ⟨r, done, value, -⟩ | ⟨-, large⟩
  · exact ⟨r, done, value⟩
  · exact absurd below large.not_gt

theorem Gives.eq_overflow {result : Except Signal Decimal} (given : Gives result q)
    (large : 10 ^ (maxExponent + 1) ≤ |q|) : result = .error .overflow := by
  rcases given with ⟨-, -, -, below⟩ | ⟨failed, -⟩
  · exact absurd large below.not_ge
  · exact failed

theorem finish_gives (digits : 0 < p.digits) {s : Bool} {c : Nat} {e : ℤ}
    (value : (Decimal.signedCoefficient s c : ℚ) * 10 ^ e = q) (written : p.Writes q) :
    Gives (p.finish s c e) q := by
  by_cases below : |q| < 10 ^ (maxExponent + 1)
  · obtain ⟨r, done⟩ := exists_finish digits value (by rwa [written.rounded_eq])
    have rValue := (finish_rounded digits value done).1
    rw [written.rounded_eq] at rValue
    exact .inl ⟨r, done, rValue, below⟩
  · have nonzero : c ≠ 0 := by
      rintro rfl
      rw [← value, Decimal.signedCoefficient_zero, Int.cast_zero, zero_mul, abs_zero] at below
      exact below (Decimal.ten_zpow_pos _)
    refine .inr ⟨?_, not_lt.1 below⟩
    rcases finish_magnitude digits s nonzero e with ⟨d, f, done, -⟩ | ⟨failed, -⟩
    · have inside := (finish_rounded digits value done).2
      rw [written.rounded_eq] at inside
      exact absurd inside below
    · exact failed

variable {a : Decimal}

theorem round_gives (digits : 0 < p.digits) (value : a.toRat? = some q) (written : p.Writes q) :
    Gives (p.round a) q := by
  obtain ⟨s, c, e, rfl, eq⟩ := Decimal.exists_of_toRat? value
  exact finish_gives digits (by rw [signedCoefficient_unsigned_zero, eq]) written

theorem abs_gives (digits : 0 < p.digits) (value : a.toRat? = some q) (written : p.Writes q) :
    Gives (p.abs a) |q| := by
  obtain ⟨s, c, e, rfl, eq⟩ := Decimal.exists_of_toRat? value
  refine finish_gives digits ?_ written.abs
  rw [← eq, Decimal.abs_value]
  simp

/-- A quotient that is held is exact. -/
theorem div_held {b : Decimal} (digits : 0 < p.digits) (left : a.toRat? = some x)
    (right : b.toRat? = some y) (nonzero : y ≠ 0) (held : p.Holds (x / y)) :
    ∃ r, p.div a b = .ok r ∧ r.toRat? = some (x / y) := by
  have exact := held.written.rounded_eq
  obtain ⟨r, done, value⟩ := div_rounded digits left right nonzero (by rw [exact]; exact held.below)
  exact ⟨r, done, by rw [value, exact]⟩

/-- A rounded number is not rounded again if it is neither among the largest nor subnormal. -/
theorem holds_rounded (digits : 0 < p.digits) (normal : 10 ^ minExponent ≤ |q|)
    (moderate : |q| < 10 ^ maxExponent) : p.Holds (p.rounded q) := by
  refine holds_of_representable ⟨hasDigits_rounded digits q, .inr ⟨?_, abs_rounded_lt moderate⟩⟩
  rw [← magnitude_abs]
  refine pow_log_le_magnitude digits ((Decimal.ten_zpow_pos _).trans_le normal) ?_ normal
  unfold tiny
  omega

end Precision

end Reckon
