import Reckon.Decimal.Rounding
import Reckon.Proofs.Decimal.Value

/-!
# Representable numbers

A precision does not round a number that needs no more digits than it has and lies in the exponent
range (`Representable`).
-/

namespace Reckon

/-- The number needs at most so many significant digits. -/
def HasDigits (digits : Nat) (q : ℚ) : Prop :=
  ∃ c e : ℤ, q = c * 10 ^ e ∧ |c| < 10 ^ digits

/-- The number is zero or its leading digit is in the exponent range. -/
def InRange (q : ℚ) : Prop :=
  q = 0 ∨ ((10 : ℚ) ^ minExponent ≤ |q| ∧ |q| < 10 ^ (maxExponent + 1))

/-- A number that a precision of so many digits does not round. -/
structure Representable (digits : Nat) (q : ℚ) : Prop where
  short : HasDigits digits q
  inRange : InRange q

/-! ## Representable numbers -/

/-- The digits of a coefficient reach no higher than its power of ten moves them. -/
theorem abs_coefficient_lt {c : ℤ} {digits : Nat} (short : |c| < 10 ^ digits) (g : ℤ) :
    |(c : ℚ) * 10 ^ g| < 10 ^ ((digits : ℤ) + g) := by
  rw [abs_mul, abs_of_pos (Decimal.ten_zpow_pos g), zpow_add₀ (by norm_num), zpow_natCast]
  refine mul_lt_mul_of_pos_right ?_ (Decimal.ten_zpow_pos g)
  exact_mod_cast short

theorem HasDigits.mono {m n : Nat} {q : ℚ} (short : HasDigits m q) (more : m ≤ n) :
    HasDigits n q := by
  obtain ⟨c, e, value, bound⟩ := short
  exact ⟨c, e, value, bound.trans_le (pow_le_pow_right₀ (by norm_num) more)⟩

/-- Only zero has no digits. -/
theorem HasDigits.pos {n : Nat} {q : ℚ} (short : HasDigits n q) (nonzero : q ≠ 0) : 0 < n := by
  obtain ⟨c, e, rfl, bound⟩ := short
  refine Nat.pos_of_ne_zero fun none => nonzero ?_
  rw [none, pow_zero, Int.abs_lt_one_iff] at bound
  rw [bound, Int.cast_zero, zero_mul]

theorem HasDigits.min {m n : Nat} {q : ℚ} (first : HasDigits m q) (second : HasDigits n q) :
    HasDigits (min m n) q := by
  rcases le_total m n with less | more
  · rwa [min_eq_left less]
  · rwa [min_eq_right more]

theorem Representable.mono {m n : Nat} {q : ℚ} (exact : Representable m q) (more : m ≤ n) :
    Representable n q :=
  ⟨exact.short.mono more, exact.inRange⟩

theorem HasDigits.neg {n : Nat} {q : ℚ} (short : HasDigits n q) : HasDigits n (-q) := by
  obtain ⟨c, e, value, bound⟩ := short
  exact ⟨-c, e, by rw [value]; push_cast; ring, by rwa [abs_neg]⟩

theorem InRange.neg {q : ℚ} (inside : InRange q) : InRange (-q) := by
  simpa [InRange] using inside

theorem Representable.neg {n : Nat} {q : ℚ} (exact : Representable n q) : Representable n (-q) :=
  ⟨exact.short.neg, exact.inRange.neg⟩

theorem Representable.abs {n : Nat} {q : ℚ} (exact : Representable n q) : Representable n |q| := by
  rcases abs_choice q with same | opposite
  · rwa [same]
  · rw [opposite]
    exact exact.neg

theorem representable_zero (n : Nat) : Representable n 0 :=
  ⟨⟨0, 0, by simp, by positivity⟩, Or.inl rfl⟩

theorem inRange_of_le {q : ℚ} {k : ℤ} (one : 1 ≤ |q|) (bound : |q| ≤ 10 ^ k)
    (small : k ≤ maxExponent) : InRange q := by
  right
  constructor
  · calc (10 : ℚ) ^ minExponent ≤ 10 ^ (0 : ℤ) := zpow_le_zpow_right₀ (by norm_num) (by decide)
      _ ≤ |q| := by simpa using one
  · calc |q| ≤ 10 ^ k := bound
      _ < 10 ^ (maxExponent + 1) := zpow_lt_zpow_right₀ (by norm_num) (by omega)

/-- A number of so many digits, the first and the last of which are in the exponent range. -/
theorem representable_scaled {c e : ℤ} {n : Nat} (bound : |c| < 10 ^ n) (lower : minExponent ≤ e)
    (upper : n + e ≤ maxExponent + 1) : Representable n (c * 10 ^ e) := by
  refine ⟨⟨c, e, rfl, bound⟩, ?_⟩
  by_cases zero : c = 0
  · exact .inl (by rw [zero, Int.cast_zero, zero_mul])
  have one : (1 : ℚ) ≤ |(c : ℚ)| := by exact_mod_cast Int.one_le_abs zero
  refine .inr ⟨?_, (abs_coefficient_lt bound e).trans_le
    (zpow_le_zpow_right₀ (by norm_num) upper)⟩
  calc (10 : ℚ) ^ minExponent ≤ 10 ^ e := zpow_le_zpow_right₀ (by norm_num) lower
    _ ≤ |(c : ℚ)| * 10 ^ e := le_mul_of_one_le_left (Decimal.ten_zpow_pos e).le one
    _ = |(c : ℚ) * 10 ^ e| := by rw [abs_mul, abs_of_pos (Decimal.ten_zpow_pos e)]

/-- An integer of at most a thousand digits, written without an exponent. -/
theorem representable_int {n : ℤ} {digits : Nat} (bound : |n| < 10 ^ digits)
    (few : digits ≤ 1000) : Representable digits (n : ℚ) := by
  have limit : (1000 : ℤ) ≤ maxExponent := by decide
  simpa using representable_scaled (e := 0) bound (by decide) (by omega)

theorem hasDigits_tens (e : ℤ) : HasDigits 1 (10 ^ e) :=
  ⟨1, e, by simp, by norm_num⟩

theorem representable_tens {e : ℤ} (above : minExponent ≤ e) (below : e ≤ maxExponent) :
    Representable 1 (10 ^ e) := by
  simpa using representable_scaled (c := 1) (n := 1) (by norm_num) above (by omega)

/-! ## The digits of a coefficient -/

theorem pow_digitCount_le {c : Nat} (nonzero : c ≠ 0) :
    (10 : ℚ) ^ ((digitCount c : ℤ) - 1) ≤ c := by
  have lower := tens_countDigits_le (Nat.pos_of_ne_zero nonzero)
  have count : 1 ≤ countDigits c := countDigits_pos c
  have cast : ((countDigits c - 1 : Nat) : ℤ) = (countDigits c : ℤ) - 1 := by omega
  rw [digitCount_eq, ← cast, ← cast_tens]
  exact_mod_cast lower

theorem lt_pow_digitCount (c : Nat) : (c : ℚ) < 10 ^ (digitCount c : ℤ) := by
  rw [digitCount_eq, ← cast_tens]
  exact_mod_cast lt_tens_countDigits c

theorem digitCount_le_of_lt {c digits : Nat} (nonzero : c ≠ 0) (bound : c < tens digits) :
    digitCount c ≤ digits := by
  have upper : (c : ℚ) < 10 ^ (digits : ℤ) := by
    rw [← cast_tens]
    exact_mod_cast bound
  have below := (pow_digitCount_le nonzero).trans_lt upper
  have := (zpow_lt_zpow_iff_right₀ (by norm_num : (1 : ℚ) < 10)).1 below
  omega

end Reckon
