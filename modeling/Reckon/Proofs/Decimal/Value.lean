import Mathlib.Tactic
import Mathlib.Algebra.Order.Field.Power
import Reckon.Decimal.Basic

/-!
# The rational value of a decimal

`Decimal.toRat?` is the rational number that a finite decimal stands for. Comparison, equality,
sign and whole part of decimals are those of their values.

Results: `same_iff`, `less_eq`, `isZero_iff`, `isNegative_iff`, `isWhole_of_int`,
`truncated?_of_int`.
-/

namespace Reckon

theorem tens_eq_pow (k : Nat) : tens k = 10 ^ k := rfl

@[simp]
theorem cast_tens (k : Nat) : ((tens k : Nat) : ℚ) = (10 : ℚ) ^ (k : ℤ) := by
  rw [tens_eq_pow]
  push_cast
  rw [zpow_natCast]

namespace Decimal

/-- The rational number that a finite decimal stands for. -/
def toRat? : Decimal → Option ℚ
  | .finite s c e => some (signedCoefficient s c * (10 : ℚ) ^ e)
  | _ => none

/-- Only finite decimals have a value. -/
theorem exists_of_toRat? {a : Decimal} {q : ℚ} (value : a.toRat? = some q) :
    ∃ s c e, a = .finite s c e ∧ (signedCoefficient s c : ℚ) * (10 : ℚ) ^ e = q := by
  cases a with
  | finite s c e => exact ⟨s, c, e, rfl, by simpa [toRat?] using value⟩
  | infinity s => simp [toRat?] at value
  | nan s q p => simp [toRat?] at value

theorem ten_zpow_pos (e : ℤ) : (0 : ℚ) < 10 ^ e :=
  zpow_pos (by norm_num) e

@[simp]
theorem signedCoefficient_false (c : Nat) : signedCoefficient false c = c := rfl

@[simp]
theorem signedCoefficient_true (c : Nat) : signedCoefficient true c = -(c : ℤ) := rfl

@[simp]
theorem signedCoefficient_zero (s : Bool) : signedCoefficient s 0 = 0 := by
  cases s <;> rfl

theorem signedCoefficient_eq_zero {s : Bool} {c : Nat} : signedCoefficient s c = 0 ↔ c = 0 := by
  cases s <;> simp

theorem abs_signedCoefficient (s : Bool) (c : Nat) : |(signedCoefficient s c : ℚ)| = c := by
  cases s <;> simp

/-- The magnitude of a number is its coefficient at its place. -/
theorem abs_value (s : Bool) (c : Nat) (e : ℤ) :
    |(signedCoefficient s c : ℚ) * (10 : ℚ) ^ e| = c * 10 ^ e := by
  rw [abs_mul, abs_signedCoefficient, abs_of_pos (ten_zpow_pos e)]

/-- A sign and a magnitude make up an integer. -/
theorem signedCoefficient_natAbs (n : ℤ) : signedCoefficient (decide (n < 0)) n.natAbs = n := by
  by_cases negative : n < 0
  · simp only [negative, decide_true, signedCoefficient_true]
    omega
  · simp only [negative, decide_false, signedCoefficient_false]
    omega

theorem toRat?_ofNat (n : Nat) : (OfNat.ofNat n : Decimal).toRat? = some (n : ℚ) := by
  change some (((n : ℤ) : ℚ) * (10 : ℚ) ^ (0 : ℤ)) = _
  simp

theorem toRat?_nat (c : Nat) : (finite false c 0).toRat? = some (c : ℚ) := by
  simp [toRat?]

theorem toRat?_tens (e : ℤ) : (finite false 1 e).toRat? = some (10 ^ e) := by
  simp [toRat?]

@[simp]
theorem toRat?_zero : (0 : Decimal).toRat? = some 0 := by
  simpa using toRat?_ofNat 0

@[simp]
theorem toRat?_one : (1 : Decimal).toRat? = some 1 := by
  simpa using toRat?_ofNat 1

theorem toRat?_ofInt (n : ℤ) : (ofInt n).toRat? = some (n : ℚ) := by
  simp [toRat?, ofInt, signedCoefficient_natAbs]

theorem toRat?_flip {a : Decimal} {q : ℚ} (value : a.toRat? = some q) :
    a.flip.toRat? = some (-q) := by
  obtain ⟨s, c, e, rfl, rfl⟩ := exists_of_toRat? value
  cases s <;> simp [flip, toRat?]

/-! ## Comparing -/

/-- Alignment to a lower exponent keeps the value. -/
theorem aligned_mul_zpow (s : Bool) (c : Nat) {e low : ℤ} (below : low ≤ e) :
    (aligned s c e low : ℚ) * 10 ^ low = signedCoefficient s c * 10 ^ e := by
  have scale : (10 : ℚ) ^ (e - low) * 10 ^ low = 10 ^ e := by
    rw [← zpow_add₀ (by norm_num)]
    congr 1
    omega
  have shifted : ((e - low).toNat : ℤ) = e - low := Int.toNat_of_nonneg (by omega)
  unfold aligned
  by_cases zero : c = 0
  · simp [zero]
  · have nonzero : (c == 0) = false := by simpa using zero
    rw [nonzero, ← scale]
    cases s <;> simp [shifted] <;> ring

theorem order?_eq {a b : Decimal} {x y : ℚ} (left : a.toRat? = some x) (right : b.toRat? = some y) :
    order? a b = some (compare x y) := by
  obtain ⟨s, c, e, rfl, rfl⟩ := exists_of_toRat? left
  obtain ⟨t, d, f, rfl, rfl⟩ := exists_of_toRat? right
  rw [← aligned_mul_zpow s c (min_le_left e f), ← aligned_mul_zpow t d (min_le_right e f)]
  simp only [order?, Option.some.injEq]
  have positive := ten_zpow_pos (min e f)
  rcases lt_trichotomy (aligned s c e (min e f)) (aligned t d f (min e f)) with below | same | above
  · have scaled := mul_lt_mul_of_pos_right (Int.cast_lt (R := ℚ).2 below) positive
    rw [compare_lt_iff_lt.2 below, compare_lt_iff_lt.2 scaled]
  · rw [same, compare_eq_iff_eq.2 rfl, compare_eq_iff_eq.2 rfl]
  · have scaled := mul_lt_mul_of_pos_right (Int.cast_lt (R := ℚ).2 above) positive
    rw [compare_gt_iff_gt.2 above, compare_gt_iff_gt.2 scaled]

theorem same_iff {a b : Decimal} {x y : ℚ} (left : a.toRat? = some x) (right : b.toRat? = some y) :
    a.same b = true ↔ x = y := by
  simp [same, order?_eq left right]

theorem less_eq {a b : Decimal} {x y : ℚ} (left : a.toRat? = some x) (right : b.toRat? = some y) :
    a.less b = .ok (decide (x < y)) := by
  simp only [less, compared, order?_eq left right]
  change Except.ok _ = _
  congr 1
  rw [Bool.eq_iff_iff]
  simp [compare_lt_iff_lt]

theorem isNegative_iff {a : Decimal} {q : ℚ} (value : a.toRat? = some q) :
    a.isNegative = true ↔ q < 0 := by
  simp [isNegative, order?_eq value toRat?_zero, compare_lt_iff_lt]

theorem isZero_iff {a : Decimal} {q : ℚ} (value : a.toRat? = some q) :
    a.isZero = true ↔ q = 0 := by
  obtain ⟨s, c, e, rfl, rfl⟩ := exists_of_toRat? value
  simp [isZero, (ten_zpow_pos e).ne', signedCoefficient_eq_zero]

theorem isZero_eq_false {a : Decimal} {q : ℚ} (value : a.toRat? = some q) (nonzero : q ≠ 0) :
    a.isZero = false := by
  rw [Bool.eq_false_iff, Ne, isZero_iff value]
  exact nonzero

theorem isSignaling_of_toRat? {a : Decimal} {q : ℚ} (value : a.toRat? = some q) :
    a.isSignaling = false := by
  obtain ⟨s, c, e, rfl, -⟩ := exists_of_toRat? value
  rfl

theorem isNaN_of_toRat? {a : Decimal} {q : ℚ} (value : a.toRat? = some q) : a.isNaN = false := by
  obtain ⟨s, c, e, rfl, -⟩ := exists_of_toRat? value
  rfl

/-! ## Whole numbers -/

/-- A whole value with a negative exponent leaves no remainder. -/
theorem dvd_of_int {s : Bool} {c : Nat} {e n : ℤ} (below : e < 0)
    (value : (signedCoefficient s c : ℚ) * 10 ^ e = n) :
    (signedCoefficient s c) = n * tens (-e).toNat := by
  have shifted : ((-e).toNat : ℤ) = -e := Int.toNat_of_nonneg (by omega)
  have scaled : (signedCoefficient s c : ℚ) = n * tens (-e).toNat := by
    rw [← value, cast_tens, shifted, mul_assoc, ← zpow_add₀ (by norm_num)]
    simp
  exact_mod_cast scaled

theorem isWhole_of_int {a : Decimal} {n : ℤ} (value : a.toRat? = some (n : ℚ)) :
    a.isWhole = true := by
  obtain ⟨s, c, e, rfl, eq⟩ := exists_of_toRat? value
  simp only [isWhole, Bool.or_eq_true, beq_iff_eq, decide_eq_true_eq]
  by_cases below : e < 0
  · right
    have multiple := dvd_of_int below eq
    have divides : (tens (-e).toNat : ℤ) ∣ c := by
      cases s
      · exact ⟨n, by rw [mul_comm]; exact multiple⟩
      · exact ⟨-n, by rw [signedCoefficient_true] at multiple; linarith⟩
    exact Nat.mod_eq_zero_of_dvd (Int.natCast_dvd_natCast.1 divides)
  · exact Or.inl (Or.inr (by omega))

theorem truncated?_of_int {a : Decimal} {n : ℤ} (value : a.toRat? = some (n : ℚ)) :
    a.truncated? = some n := by
  obtain ⟨s, c, e, rfl, eq⟩ := exists_of_toRat? value
  simp only [truncated?, Option.some.injEq]
  by_cases below : e < 0
  · rw [if_neg (by omega)]
    have multiple := dvd_of_int below eq
    have positive : 0 < tens (-e).toNat := tens_pos _
    cases s
    · simp only [signedCoefficient_false] at multiple ⊢
      rw [Int.natCast_div, multiple, Int.mul_ediv_cancel _ (by omega)]
    · simp only [signedCoefficient_true] at multiple ⊢
      have negated : (c : ℤ) = -n * tens (-e).toNat := by linarith
      rw [Int.natCast_div, negated, Int.mul_ediv_cancel _ (by omega), neg_neg]
  · rw [if_pos (by omega)]
    have shifted : (e.toNat : ℤ) = e := Int.toNat_of_nonneg (by omega)
    have scaled : ((signedCoefficient s (c * tens e.toNat) : ℤ) : ℚ) = n := by
      rw [← eq]
      cases s <;> simp [shifted]
    exact_mod_cast scaled

end Decimal

end Reckon
