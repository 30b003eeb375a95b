import Mathlib.Data.Int.Log
import Reckon.Decimal.Arithmetic
import Reckon.Proofs.Decimal.Representable

/-!
# Rounding depends on the value only

The same number can be written with different exponents. What an operation makes of it when it
rounds is the same however it is written: `Precision.rounded` is the nearest number with the digits
of the precision, found from the value alone.

Results: `rounded_eq_self`; `finish_rounded`, from which `round_rounded` and `abs_magnitude`;
`exists_finish`; `pow_le_magnitude_magnitude` (rounding twice).
-/

namespace Reckon

namespace Rounding

/-- The integer above is taken for this fraction above the integer below. -/
def goesUp (mode : Rounding) (below : ℤ) (fraction : ℚ) : Bool :=
  match mode with
  | .halfUp => 1 / 2 ≤ fraction
  | .halfEven => 1 / 2 < fraction || (fraction == 1 / 2 && below % 2 == 1)

/-- The nearest integer. -/
def nearest (mode : Rounding) (x : ℚ) : ℤ :=
  if mode.goesUp ⌊x⌋ (Int.fract x) then ⌊x⌋ + 1 else ⌊x⌋

variable (mode : Rounding)

theorem nearest_intCast (n : ℤ) : mode.nearest n = n := by
  have none : mode.goesUp n 0 = false := by cases mode <;> norm_num [goesUp]
  rw [nearest, Int.floor_intCast, Int.fract_intCast, none, if_neg Bool.false_ne_true]

theorem floor_le_nearest (x : ℚ) : ⌊x⌋ ≤ mode.nearest x := by
  unfold nearest
  split <;> omega

theorem le_nearest {k : ℤ} {x : ℚ} (le : k ≤ x) : k ≤ mode.nearest x :=
  (Int.le_floor.2 le).trans (mode.floor_le_nearest x)

theorem nearest_le {k : ℤ} {x : ℚ} (le : x ≤ k) : mode.nearest x ≤ k := by
  rcases le.lt_or_eq with less | rfl
  · have below : ⌊x⌋ < k := Int.floor_lt.2 less
    unfold nearest
    split <;> omega
  · exact (mode.nearest_intCast k).le

/-- The middle between two integers goes to the upper one if that is even or halves go up. -/
theorem le_nearest_iff_or {k : ℤ} {x : ℚ} : k ≤ mode.nearest x ↔
    (k : ℚ) - 1 / 2 < x ∨ (k : ℚ) - 1 / 2 ≤ x ∧ (mode = .halfUp ∨ Even k) := by
  have whole : (⌊x⌋ : ℚ) + Int.fract x = x := Int.floor_add_fract x
  have nonneg := Int.fract_nonneg x
  have less := Int.fract_lt_one x
  rcases lt_trichotomy k (⌊x⌋ + 1) with below | rfl | above
  · have le : k ≤ ⌊x⌋ := by omega
    have le' : (k : ℚ) ≤ ⌊x⌋ := by exact_mod_cast le
    exact iff_of_true (le.trans (mode.floor_le_nearest x)) (.inl (by linarith))
  · have half : mode.goesUp ⌊x⌋ (Int.fract x) = true ↔
        1 / 2 < Int.fract x ∨ 1 / 2 ≤ Int.fract x ∧ (mode = .halfUp ∨ Even (⌊x⌋ + 1)) := by
      cases mode with
      | halfUp => simpa [goesUp] using le_of_lt
      | halfEven =>
        have odd : ⌊x⌋ % 2 = 1 ↔ Even (⌊x⌋ + 1) := by
          rw [Int.even_iff]
          omega
        simp only [goesUp, Bool.or_eq_true, Bool.and_eq_true, decide_eq_true_eq, beq_iff_eq, odd,
          le_iff_lt_or_eq, eq_comm (a := Int.fract x), reduceCtorEq, false_or]
        tauto
    have reaches : ⌊x⌋ + 1 ≤ mode.nearest x ↔ mode.goesUp ⌊x⌋ (Int.fract x) = true := by
      unfold nearest
      split
      next up => exact iff_of_true le_rfl up
      next up => exact iff_of_false (by omega) up
    have middle : ((⌊x⌋ + 1 : ℤ) : ℚ) - 1 / 2 = x - Int.fract x + 1 / 2 := by
      push_cast
      linarith
    rw [reaches, half, middle]
    refine or_congr ?_ (and_congr_left fun _ => ?_) <;> constructor <;> intro <;> linarith
  · have le : mode.nearest x ≤ ⌊x⌋ + 1 := by
      unfold nearest
      split <;> omega
    have le' : (⌊x⌋ : ℚ) + 2 ≤ k := by exact_mod_cast (by omega : ⌊x⌋ + 2 ≤ k)
    refine iff_of_false (by omega) ?_
    rintro (reached | ⟨reached, -⟩) <;> linarith

theorem le_nearest_iff {k : ℤ} {x : ℚ} (tie : mode = .halfUp ∨ Even k) :
    k ≤ mode.nearest x ↔ (k : ℚ) - 1 / 2 ≤ x := by
  rw [le_nearest_iff_or, and_iff_left tie]
  exact or_iff_right_of_imp le_of_lt

/-- Numbers on the same side of every middle have the same nearest integer. -/
theorem nearest_eq_of_sides {x y : ℚ} (least : ∀ k : ℤ, (k : ℚ) - 1 / 2 ≤ x ↔ (k : ℚ) - 1 / 2 ≤ y)
    (above : ∀ k : ℤ, (k : ℚ) - 1 / 2 < x ↔ (k : ℚ) - 1 / 2 < y) :
    mode.nearest x = mode.nearest y := by
  refine eq_of_forall_le_iff fun k => ?_
  rw [le_nearest_iff_or, le_nearest_iff_or, least, above]

/-! ## Coefficients -/

/-- The nearest integer to a quotient. -/
theorem divide_eq (n : Nat) {d : Nat} (positive : 0 < d) :
    (mode.divide n d : ℤ) = mode.nearest ((n : ℚ) / d) := by
  have cast : (0 : ℚ) < d := by exact_mod_cast positive
  have half : 1 / 2 ≤ ((n % d : Nat) : ℚ) / d ↔ d ≤ 2 * (n % d) := by
    rw [div_le_div_iff₀ (by norm_num) cast, one_mul, mul_comm]
    exact_mod_cast Iff.rfl
  have more : 1 / 2 < ((n % d : Nat) : ℚ) / d ↔ d < 2 * (n % d) := by
    rw [div_lt_div_iff₀ (by norm_num) cast, one_mul, mul_comm]
    exact_mod_cast Iff.rfl
  have same : ((n % d : Nat) : ℚ) / d = 1 / 2 ↔ d = 2 * (n % d) := by
    rw [div_eq_div_iff cast.ne' (by norm_num), one_mul, mul_comm, eq_comm]
    exact_mod_cast Iff.rfl
  have odd : ((n / d : Nat) : ℤ) % 2 = 1 ↔ n / d % 2 = 1 := by omega
  have ups : mode.goesUp (n / d : Nat) (((n % d : Nat) : ℚ) / d) = match mode with
      | .halfUp => decide (d ≤ 2 * (n % d))
      | .halfEven => decide (d < 2 * (n % d)) || (d == 2 * (n % d) && n / d % 2 == 1) := by
    cases mode with
    | halfUp => simp only [goesUp, half]
    | halfEven =>
      rw [goesUp, Bool.eq_iff_iff]
      simp only [Bool.or_eq_true, Bool.and_eq_true, decide_eq_true_eq, beq_iff_eq, more, same, odd]
  rw [nearest, Rat.floor_natCast_div_natCast, Int.fract_div_natCast_eq_div_natCast_mod,
    ← Int.natCast_div, ups, divide.eq_def]
  cases mode <;> dsimp only <;> split <;> simp

/-- Dropping digits is dividing by a power of ten. -/
theorem drop_eq (c k : Nat) : (mode.drop c k : ℤ) = mode.nearest ((c : ℚ) / 10 ^ (k : ℤ)) := by
  unfold drop
  split
  next none =>
    rw [none, Nat.cast_zero, zpow_zero, div_one]
    exact (mode.nearest_intCast c).symm
  next some =>
    split
    next short =>
      -- the number is less than a tenth
      have upper : (c : ℚ) < 10 ^ ((k : ℤ) - 1) :=
        (lt_pow_digitCount c).trans_le (zpow_le_zpow_right₀ (by norm_num) (by omega))
      have tenth : (c : ℚ) / 10 ^ (k : ℤ) < 1 / 10 := by
        rw [div_lt_iff₀ (Decimal.ten_zpow_pos _)]
        rwa [zpow_sub_one₀ (by norm_num), mul_comm, ← one_div] at upper
      have floor : ⌊(c : ℚ) / 10 ^ (k : ℤ)⌋ = 0 :=
        Int.floor_eq_zero_iff.2 ⟨by positivity, tenth.trans (by norm_num)⟩
      have fract : Int.fract ((c : ℚ) / 10 ^ (k : ℤ)) < 1 / 10 := by
        rwa [Int.fract, floor, Int.cast_zero, sub_zero]
      have down : mode.goesUp 0 (Int.fract ((c : ℚ) / 10 ^ (k : ℤ))) = false := by
        cases mode with
        | halfUp =>
          rw [goesUp, decide_eq_false_iff_not]
          linarith
        | halfEven =>
          rw [goesUp, Bool.or_eq_false_iff, decide_eq_false_iff_not]
          exact ⟨by linarith, by simp⟩
      rw [nearest, floor, down, if_neg Bool.false_ne_true]
      rfl
    next => rw [mode.divide_eq c (tens_pos k), cast_tens]

/-- A coefficient that has got one digit more was nines only, and a power of ten is left. -/
theorem drop_eq_tens {c k digits : Nat} (positive : 0 < digits) (few : digitCount c ≤ digits + k)
    (carried : digits < digitCount (mode.drop c k)) : mode.drop c k = tens digits := by
  have upper : (mode.drop c k : ℤ) ≤ (tens digits : ℤ) := by
    rw [mode.drop_eq]
    refine mode.nearest_le ?_
    rw [div_le_iff₀ (Decimal.ten_zpow_pos _), Int.cast_natCast, cast_tens,
      ← zpow_add₀ (by norm_num)]
    exact (lt_pow_digitCount c).le.trans (zpow_le_zpow_right₀ (by norm_num) (by omega))
  have lower : ¬ mode.drop c k < tens digits := by
    intro less
    by_cases zero : mode.drop c k = 0
    · have one : digitCount 0 = 1 := by rw [digitCount_eq, countDigits, if_pos (by decide)]
      rw [zero, one] at carried
      omega
    · exact absurd (digitCount_le_of_lt zero less) (by omega)
  omega

end Rounding

/-! ## The rounded number -/

namespace Precision

/-- The exponent of the last digit that is kept of a positive number. -/
def lowest (p : Precision) (x : ℚ) : ℤ :=
  max (Int.log 10 x + 1 - p.digits) p.tiny

/-- A positive number rounded to the digits of the precision. -/
def magnitude (p : Precision) (x : ℚ) : ℚ :=
  p.rounding.nearest (x / 10 ^ p.lowest x) * 10 ^ p.lowest x

/-- A number rounded to the digits of the precision. -/
def rounded (p : Precision) (q : ℚ) : ℚ :=
  if q < 0 then -p.magnitude (-q) else p.magnitude q

@[simp]
theorem magnitude_zero (p : Precision) : p.magnitude 0 = 0 := by
  have none : p.rounding.nearest 0 = 0 := p.rounding.nearest_intCast 0
  rw [magnitude, zero_div, none, Int.cast_zero, zero_mul]

@[simp]
theorem rounded_zero (p : Precision) : p.rounded 0 = 0 := by
  rw [rounded, if_neg (lt_irrefl _), magnitude_zero]

variable {p : Precision} {x q : ℚ}

theorem magnitude_nonneg (nonneg : 0 ≤ x) : 0 ≤ p.magnitude x := by
  have positive := Decimal.ten_zpow_pos (p.lowest x)
  refine mul_nonneg ?_ positive.le
  exact_mod_cast p.rounding.le_nearest (k := 0) (by
    rw [Int.cast_zero]
    exact div_nonneg nonneg positive.le)

theorem pos_of_magnitude_pos (nonneg : 0 ≤ x) (positive : 0 < p.magnitude x) : 0 < x := by
  refine nonneg.lt_of_ne fun zero => positive.ne' ?_
  rw [← zero, magnitude_zero]

theorem magnitude_abs (q : ℚ) : p.magnitude |q| = |p.rounded q| := by
  unfold rounded
  split
  next negative =>
    rw [abs_of_neg negative, abs_neg, abs_of_nonneg (magnitude_nonneg (neg_pos.2 negative).le)]
  next positive =>
    rw [abs_of_nonneg (not_lt.1 positive), abs_of_nonneg (magnitude_nonneg (not_lt.1 positive))]

/-- A number without digits below one place has none below a lower place. -/
theorem exists_scaled (m : ℤ) {f low : ℤ} (grid : low ≤ f) :
    ∃ n : ℤ, (m : ℚ) * 10 ^ f = n * 10 ^ low := by
  have shifted : ((f - low).toNat : ℤ) = f - low := Int.toNat_of_nonneg (by omega)
  refine ⟨m * 10 ^ (f - low).toNat, ?_⟩
  push_cast
  rw [← zpow_natCast, shifted, mul_assoc, ← zpow_add₀ (by norm_num), sub_add_cancel]

/-- Rounding does not pass a number that has no lower digits than those kept. -/
theorem le_magnitude {m f : ℤ} (grid : p.lowest x ≤ f) (le : (m : ℚ) * 10 ^ f ≤ x) :
    (m : ℚ) * 10 ^ f ≤ p.magnitude x := by
  obtain ⟨n, scaled⟩ := exists_scaled m grid
  have positive := Decimal.ten_zpow_pos (p.lowest x)
  rw [scaled] at le ⊢
  refine mul_le_mul_of_nonneg_right ?_ positive.le
  exact_mod_cast p.rounding.le_nearest ((le_div_iff₀ positive).2 le)

theorem magnitude_le {m f : ℤ} (grid : p.lowest x ≤ f) (le : x ≤ (m : ℚ) * 10 ^ f) :
    p.magnitude x ≤ (m : ℚ) * 10 ^ f := by
  obtain ⟨n, scaled⟩ := exists_scaled m grid
  have positive := Decimal.ten_zpow_pos (p.lowest x)
  rw [scaled] at le ⊢
  refine mul_le_mul_of_nonneg_right ?_ positive.le
  exact_mod_cast p.rounding.nearest_le ((div_le_iff₀ positive).2 le)

/-- The exponent of the leading digit. -/
theorem log_coefficient {c : Nat} (nonzero : c ≠ 0) (e : ℤ) :
    Int.log 10 ((c : ℚ) * 10 ^ e) = e + digitCount c - 1 := by
  have positive : (0 : ℚ) < c * 10 ^ e :=
    mul_pos (by exact_mod_cast Nat.pos_of_ne_zero nonzero) (Decimal.ten_zpow_pos e)
  have lower : ((10 : Nat) : ℚ) ^ (e + digitCount c - 1) ≤ c * 10 ^ e := by
    rw [Nat.cast_ofNat, add_sub_assoc, add_comm, zpow_add₀ (by norm_num)]
    exact mul_le_mul_of_nonneg_right (pow_digitCount_le nonzero) (Decimal.ten_zpow_pos e).le
  have upper : (c : ℚ) * 10 ^ e < ((10 : Nat) : ℚ) ^ (e + digitCount c) := by
    rw [Nat.cast_ofNat, add_comm, zpow_add₀ (by norm_num)]
    exact mul_lt_mul_of_pos_right (lt_pow_digitCount c) (Decimal.ten_zpow_pos e)
  have least := (Int.zpow_le_iff_le_log (by norm_num) positive).1 lower
  have most := (Int.lt_zpow_iff_log_lt (by norm_num) positive).1 upper
  omega

/-- The leading digit is among those that a coefficient may have. -/
theorem log_coefficient_lt {c : ℤ} {digits : Nat} {g : ℤ} (short : |c| < 10 ^ digits)
    (positive : 0 < (c : ℚ) * 10 ^ g) : Int.log 10 ((c : ℚ) * 10 ^ g) < digits + g := by
  have upper := abs_coefficient_lt short g
  rw [abs_of_pos positive] at upper
  exact (Int.lt_zpow_iff_log_lt (by norm_num) positive).1 (by simpa using upper)

/-- A magnitude that fits has no digits below those that are kept. -/
theorem magnitude_eq_self (nonneg : 0 ≤ x) (fits : Representable p.digits x) :
    p.magnitude x = x := by
  rcases fits.inRange with rfl | ⟨above, -⟩
  · exact magnitude_zero p
  rw [abs_of_nonneg nonneg] at above
  have positive : 0 < x := (Decimal.ten_zpow_pos minExponent).trans_le above
  obtain ⟨c, e, value, bound⟩ := fits.short
  have leads : minExponent ≤ Int.log 10 x :=
    (Int.zpow_le_iff_le_log (by norm_num) positive).1 (by simpa using above)
  have reaches : Int.log 10 x < p.digits + e := by
    rw [value] at positive ⊢
    exact log_coefficient_lt bound positive
  have grid : p.lowest x ≤ e := by
    unfold lowest tiny
    omega
  refine le_antisymm ?_ ?_
  · exact (magnitude_le grid value.le).trans value.ge
  · exact value.le.trans (le_magnitude grid value.ge)

/-- A number that fits is not changed. -/
theorem rounded_eq_self (fits : Representable p.digits q) : p.rounded q = q := by
  unfold rounded
  split
  next negative => rw [magnitude_eq_self (neg_pos.2 negative).le fits.neg, neg_neg]
  next nonneg => exact magnitude_eq_self (not_lt.1 nonneg) fits

/-! ## Finishing an operation -/

/-- Dividing by the lowest place that is kept. -/
theorem div_lowest (c : Nat) {e low : ℤ} (above : e < low) :
    (c : ℚ) * 10 ^ e / 10 ^ low = (c : ℚ) / 10 ^ ((low - e).toNat : ℤ) := by
  rw [Int.toNat_of_nonneg (by omega), zpow_sub₀ (by norm_num)]
  field_simp

/-- The place of the last digit that is kept. -/
theorem lowest_coefficient {c : Nat} (nonzero : c ≠ 0) (e : ℤ) :
    p.lowest (c * 10 ^ e) = max (e + digitCount c - p.digits) p.tiny := by
  rw [lowest, log_coefficient nonzero, sub_add_cancel]

/-- The smallest numbers do not reach the largest. -/
theorem tiny_add_digits_le (p : Precision) : p.tiny + p.digits ≤ maxExponent := by
  have apart : minExponent + 1 ≤ maxExponent := by decide
  unfold Precision.tiny
  omega

theorem coefficient_lt {c : Nat} {e top : ℤ} (below : e + digitCount c ≤ top) :
    (c : ℚ) * 10 ^ e < 10 ^ top :=
  calc (c : ℚ) * 10 ^ e < 10 ^ (digitCount c : ℤ) * 10 ^ e :=
        mul_lt_mul_of_pos_right (lt_pow_digitCount c) (Decimal.ten_zpow_pos e)
    _ = 10 ^ (digitCount c + e) := (zpow_add₀ (by norm_num) _ _).symm
    _ ≤ 10 ^ top := zpow_le_zpow_right₀ (by norm_num) (by omega)

/-- Rounding keeps the leading digit or goes up to the next power of ten. -/
theorem pow_log_le_magnitude {x : ℚ} {k : ℤ} (digits : 0 < p.digits) (positive : 0 < x)
    (above : p.tiny ≤ k) (le : 10 ^ k ≤ x) : 10 ^ k ≤ p.magnitude x := by
  have leads : k ≤ Int.log 10 x := (Int.zpow_le_iff_le_log (by norm_num) positive).1 (by simpa)
  have power : ((10 : Nat) : ℚ) ^ Int.log 10 x ≤ x := Int.zpow_log_le_self (by norm_num) positive
  have grid : p.lowest x ≤ Int.log 10 x := by
    unfold lowest
    omega
  have reached := le_magnitude (m := 1) grid (by simpa using power)
  rw [Int.cast_one, one_mul] at reached
  exact (zpow_le_zpow_right₀ (by norm_num) leads).trans reached

/-- The coefficient of a result is the rounded magnitude, whatever the coefficient was before; it is
an overflow if that is too large. -/
theorem finish_magnitude (digits : 0 < p.digits) (s : Bool) {c : Nat} (nonzero : c ≠ 0) (e : ℤ) :
    (∃ d f, p.finish s c e = .ok (.finite s d f) ∧ (d : ℚ) * 10 ^ f = p.magnitude (c * 10 ^ e) ∧
      (d : ℚ) * 10 ^ f < 10 ^ (maxExponent + 1)) ∨
    p.finish s c e = .error .overflow ∧ 10 ^ (maxExponent + 1) ≤ p.magnitude (c * 10 ^ e) := by
  have positive : (0 : ℚ) < c * 10 ^ e :=
    mul_pos (by exact_mod_cast Nat.pos_of_ne_zero nonzero) (Decimal.ten_zpow_pos e)
  have tiny := p.tiny_add_digits_le
  unfold finish
  rw [if_neg nonzero]
  dsimp only
  split
  next large =>
    have power : (10 : ℚ) ^ (maxExponent + 1) ≤ c * 10 ^ e :=
      calc (10 : ℚ) ^ (maxExponent + 1) ≤ 10 ^ (digitCount c - 1 + e) :=
            zpow_le_zpow_right₀ (by norm_num) (by omega)
        _ = 10 ^ ((digitCount c : ℤ) - 1) * 10 ^ e := zpow_add₀ (by norm_num) _ _
        _ ≤ c * 10 ^ e :=
            mul_le_mul_of_nonneg_right (pow_digitCount_le nonzero) (Decimal.ten_zpow_pos e).le
    exact .inr ⟨rfl, pow_log_le_magnitude digits positive (by omega) power⟩
  next inside =>
  rw [magnitude, lowest_coefficient nonzero]
  set low := max (e + digitCount c - p.digits) p.tiny with low_def
  split
  next exact =>
    -- all digits are kept
    obtain ⟨n, scaled⟩ := exists_scaled c exact
    rw [Int.cast_natCast] at scaled
    refine .inl ⟨c, e, rfl, ?_, coefficient_lt (by omega)⟩
    rw [scaled, mul_div_cancel_right₀ _ (Decimal.ten_zpow_pos low).ne',
      p.rounding.nearest_intCast]
  next long =>
  have above : e < low := by omega
  set k := (low - e).toNat with k_def
  have coefficient : ((p.rounding.drop c k : ℤ) : ℚ) * 10 ^ low =
      p.rounding.nearest ((c : ℚ) * 10 ^ e / 10 ^ low) * 10 ^ low := by
    rw [Rounding.drop_eq, div_lowest c above]
  rw [Int.cast_natCast] at coefficient
  split
  next short => exact .inl ⟨_, low, rfl, coefficient, coefficient_lt (by omega)⟩
  next carried =>
    have ten := p.rounding.drop_eq_tens (c := c) (k := k) digits (by omega) (by omega)
    rw [ten, cast_tens, ← zpow_add₀ (by norm_num)] at coefficient
    rw [← coefficient]
    split
    next large => exact .inr ⟨rfl, zpow_le_zpow_right₀ (by norm_num) (by omega)⟩
    next fits =>
      obtain ⟨n, count⟩ : ∃ n, p.digits = n + 1 := ⟨p.digits - 1, by omega⟩
      have shorter : (tens (n + 1) / 10 : Nat) = tens n := by
        rw [tens_succ]
        omega
      have moved : ((tens n : Nat) : ℚ) * 10 ^ (low + 1) = 10 ^ ((p.digits : ℤ) + low) := by
        rw [cast_tens, ← zpow_add₀ (by norm_num), count]
        congr 1
        push_cast
        ring
      rw [ten, count, shorter, ← count]
      refine .inl ⟨_, _, rfl, moved, ?_⟩
      rw [moved]
      exact zpow_lt_zpow_right₀ (by norm_num) (by omega)

/-- The result of an operation is the rounded exact result, and not too large. -/
theorem finish_rounded (digits : 0 < p.digits) {s : Bool} {c : Nat} {e : ℤ} {r : Decimal}
    (value : (Decimal.signedCoefficient s c : ℚ) * 10 ^ e = q) (done : p.finish s c e = .ok r) :
    r.toRat? = some (p.rounded q) ∧ |p.rounded q| < 10 ^ (maxExponent + 1) := by
  by_cases zero : c = 0
  · rw [zero, Decimal.signedCoefficient_zero, Int.cast_zero, zero_mul] at value
    rw [finish, if_pos zero] at done
    cases done
    rw [← value, rounded_zero, abs_zero]
    exact ⟨by simp [Decimal.toRat?], Decimal.ten_zpow_pos _⟩
  have positive : (0 : ℚ) < c * 10 ^ e :=
    mul_pos (by exact_mod_cast Nat.pos_of_ne_zero zero) (Decimal.ten_zpow_pos e)
  have size : |q| = c * 10 ^ e := by
    rw [← value, Decimal.abs_value]
  rw [← magnitude_abs, size]
  rcases finish_magnitude digits s zero e with ⟨d, f, done', magnitude, bound⟩ | ⟨failed, -⟩
  · obtain rfl := Except.ok.inj (done.symm.trans done')
    refine ⟨?_, magnitude ▸ bound⟩
    rw [Decimal.toRat?, ← value, rounded]
    cases s with
    | false =>
      rw [Decimal.signedCoefficient_false, Decimal.signedCoefficient_false, Int.cast_natCast,
        Int.cast_natCast, if_neg positive.not_gt, ← magnitude]
    | true =>
      rw [Decimal.signedCoefficient_true, Decimal.signedCoefficient_true, Int.cast_neg,
        Int.cast_neg, Int.cast_natCast, Int.cast_natCast, neg_mul, neg_mul,
        if_pos (neg_lt_zero.2 positive), neg_neg, ← magnitude]
  · rw [done] at failed
    cases failed

/-- An operation has a result unless the rounded exact one is too large. -/
theorem exists_finish (digits : 0 < p.digits) {s : Bool} {c : Nat} {e : ℤ}
    (value : (Decimal.signedCoefficient s c : ℚ) * 10 ^ e = q)
    (inside : |p.rounded q| < 10 ^ (maxExponent + 1)) : ∃ r, p.finish s c e = .ok r := by
  by_cases zero : c = 0
  · rw [finish, if_pos zero]
    exact ⟨_, rfl⟩
  rcases finish_magnitude digits s zero e with ⟨d, f, done, -⟩ | ⟨-, large⟩
  · exact ⟨_, done⟩
  · rw [← magnitude_abs, ← value, Decimal.abs_value] at inside
    exact absurd inside large.not_gt

/-! ## Rounding and magnitudes -/

variable {a r : Decimal}

/-- A zero may lose its sign. -/
theorem signedCoefficient_unsigned_zero (s : Bool) (c : Nat) :
    Decimal.signedCoefficient (s && c != 0) c = Decimal.signedCoefficient s c := by
  by_cases zero : c = 0
  · rw [zero, Decimal.signedCoefficient_zero, Decimal.signedCoefficient_zero]
  · rw [bne_iff_ne.2 zero, Bool.and_true]

theorem round_rounded (digits : 0 < p.digits) (value : a.toRat? = some q)
    (done : p.round a = .ok r) :
    r.toRat? = some (p.rounded q) ∧ |p.rounded q| < 10 ^ (maxExponent + 1) := by
  obtain ⟨s, c, e, rfl, eq⟩ := Decimal.exists_of_toRat? value
  exact finish_rounded digits (by rw [signedCoefficient_unsigned_zero, eq]) done

theorem abs_magnitude (digits : 0 < p.digits) (value : a.toRat? = some q)
    (done : p.abs a = .ok r) :
    r.toRat? = some (p.magnitude |q|) ∧ p.magnitude |q| < 10 ^ (maxExponent + 1) := by
  obtain ⟨s, c, e, rfl, eq⟩ := Decimal.exists_of_toRat? value
  have exact : (Decimal.signedCoefficient false c : ℚ) * 10 ^ e = |q| := by
    rw [← eq, Decimal.abs_value]
    simp
  obtain ⟨rValue, bound⟩ := finish_rounded digits exact done
  rw [← magnitude_abs, abs_abs] at bound
  refine ⟨?_, bound⟩
  rw [rValue, rounded, if_neg (abs_nonneg q).not_gt]

theorem exists_round (digits : 0 < p.digits) (value : a.toRat? = some q)
    (inside : |p.rounded q| < 10 ^ (maxExponent + 1)) : ∃ r, p.round a = .ok r := by
  obtain ⟨s, c, e, rfl, eq⟩ := Decimal.exists_of_toRat? value
  exact exists_finish digits (by rw [signedCoefficient_unsigned_zero, eq]) inside

theorem exists_abs (digits : 0 < p.digits) (value : a.toRat? = some q)
    (inside : |p.rounded q| < 10 ^ (maxExponent + 1)) : ∃ r, p.abs a = .ok r := by
  obtain ⟨s, c, e, rfl, eq⟩ := Decimal.exists_of_toRat? value
  refine exists_finish (q := |q|) digits ?_ ?_
  · rw [← eq, Decimal.abs_value]
    simp
  · rwa [← magnitude_abs, abs_abs, magnitude_abs]

/-- A number that is not among the largest does not get too large by rounding. -/
theorem abs_rounded_lt (small : |q| < 10 ^ maxExponent) :
    |p.rounded q| < 10 ^ (maxExponent + 1) := by
  rw [← magnitude_abs]
  by_cases zero : q = 0
  · rw [zero, abs_zero, magnitude_zero]
    exact Decimal.ten_zpow_pos _
  · have leads : Int.log 10 |q| < maxExponent :=
      (Int.lt_zpow_iff_log_lt (by norm_num) (abs_pos.2 zero)).1 (by simpa using small)
    have tiny := p.tiny_add_digits_le
    have grid : p.lowest |q| ≤ maxExponent := by
      unfold lowest
      omega
    have reached := magnitude_le (m := 1) grid (by simpa using small.le)
    rw [Int.cast_one, one_mul] at reached
    exact reached.trans_lt (zpow_lt_zpow_right₀ (by norm_num) (by omega))

/-! ## Rounding twice -/

/-- The least number that is rounded to a power of ten: half a unit of the last place below it. -/
def leastTo (p : Precision) (k : ℤ) : ℚ :=
  (10 ^ p.digits - 1 / 2) * 10 ^ (k - p.digits)

theorem leastTo_eq (p : Precision) (k : ℤ) :
    p.leastTo k = 10 ^ k - 10 ^ (k - p.digits) / 2 := by
  rw [leastTo, sub_mul, ← zpow_natCast, ← zpow_add₀ (by norm_num), add_sub_cancel]
  ring

variable {k : ℤ}

/-- Above the smallest numbers all digits are kept. -/
theorem tiny_le_sub_digits (p : Precision) (above : minExponent < k) :
    p.tiny ≤ k - p.digits := by
  unfold Precision.tiny
  omega

theorem leastTo_lt (p : Precision) (k : ℤ) : p.leastTo k < 10 ^ k := by
  have positive := Decimal.ten_zpow_pos (k - p.digits)
  rw [leastTo_eq]
  linarith

theorem pow_pred_lt_leastTo (digits : 0 < p.digits) : 10 ^ (k - 1) < p.leastTo k := by
  have shorter : (10 : ℚ) ^ (k - p.digits) ≤ 10 ^ (k - 1) :=
    zpow_le_zpow_right₀ (by norm_num) (by omega)
  have positive := Decimal.ten_zpow_pos (k - 1)
  have whole : (10 : ℚ) ^ k = 10 * 10 ^ (k - 1) := by
    rw [← zpow_one_add₀ (by norm_num), add_sub_cancel]
  rw [leastTo_eq, whole]
  linarith

/-- Which numbers are rounded to at least a power of ten. -/
theorem pow_le_magnitude_iff (digits : 0 < p.digits) (above : minExponent < k)
    (positive : 0 < x) : 10 ^ k ≤ p.magnitude x ↔ p.leastTo k ≤ x := by
  have tiny := p.tiny_le_sub_digits above
  rcases le_or_gt (10 ^ k) x with large | below
  · exact iff_of_true (pow_log_le_magnitude digits positive (by omega) large)
      ((p.leastTo_lt k).le.trans large)
  rcases le_or_gt (10 ^ (k - 1)) x with near | small
  · -- the last digit that is kept is a unit of the power of ten with all its digits
    have least : k - 1 ≤ Int.log 10 x :=
      (Int.zpow_le_iff_le_log (by norm_num) positive).1 (by simpa using near)
    have most : Int.log 10 x < k :=
      (Int.lt_zpow_iff_log_lt (by norm_num) positive).1 (by simpa using below)
    have place : p.lowest x = k - p.digits := by
      unfold lowest
      omega
    have unit := Decimal.ten_zpow_pos (k - p.digits)
    have even : Even ((10 : ℤ) ^ p.digits) := (by decide : Even (10 : ℤ)).pow_of_ne_zero digits.ne'
    have power : (10 : ℚ) ^ k = ((10 ^ p.digits : ℤ) : ℚ) * 10 ^ (k - p.digits) := by
      push_cast
      rw [← zpow_natCast, ← zpow_add₀ (by norm_num), add_sub_cancel]
    rw [magnitude, place, power, mul_le_mul_iff_left₀ unit, Int.cast_le,
      p.rounding.le_nearest_iff (.inr even), le_div_iff₀ unit, leastTo]
    push_cast
    rfl
  · have grid : p.lowest x ≤ k - 1 := by
      have most : Int.log 10 x < k - 1 :=
        (Int.lt_zpow_iff_log_lt (by norm_num) positive).1 (by simpa using small)
      unfold lowest
      omega
    have reached := magnitude_le (m := 1) grid (by simpa using small.le)
    rw [Int.cast_one, one_mul] at reached
    exact iff_of_false
      (not_le.2 (reached.trans_lt (zpow_lt_zpow_right₀ (by norm_num) (by omega))))
      (not_le.2 (small.trans (pow_pred_lt_leastTo digits)))

/-- A number that is rounded to at least a power of ten still is after it was rounded to another
precision. -/
theorem pow_le_magnitude_magnitude {p' : Precision} (digits : 0 < p.digits)
    (digits' : 0 < p'.digits) (above : minExponent < k) (nonneg : 0 ≤ x)
    (reaches : 10 ^ k ≤ p.magnitude x) : 10 ^ k ≤ p.magnitude (p'.magnitude x) := by
  have tiny := p'.tiny_le_sub_digits above
  have positive := pos_of_magnitude_pos nonneg ((Decimal.ten_zpow_pos k).trans_le reaches)
  rw [pow_le_magnitude_iff digits above positive] at reaches
  have reaches' : p.leastTo k ≤ p'.magnitude x := by
    rcases le_or_gt p'.digits p.digits with fewer | more
    · have unit : (10 : ℚ) ^ (k - p.digits) ≤ 10 ^ (k - p'.digits) :=
        zpow_le_zpow_right₀ (by norm_num) (by omega)
      have least : p'.leastTo k ≤ x := by
        rw [leastTo_eq] at reaches ⊢
        linarith
      exact (p.leastTo_lt k).le.trans ((pow_le_magnitude_iff digits' above positive).2 least)
    rcases le_or_gt (10 ^ k) x with large | below
    · exact (p.leastTo_lt k).le.trans (pow_log_le_magnitude digits' positive (by omega) large)
    · -- more digits are kept than the least number has
      have most : Int.log 10 x < k :=
        (Int.lt_zpow_iff_log_lt (by norm_num) positive).1 (by simpa using below)
      have grid : p'.lowest x ≤ k - p.digits - 1 := by
        unfold lowest
        omega
      have least : p.leastTo k =
          ((10 ^ (p.digits + 1) - 5 : ℤ) : ℚ) * 10 ^ (k - p.digits - 1) := by
        rw [leastTo, zpow_sub_one₀ (by norm_num)]
        push_cast
        ring
      rw [least] at reaches ⊢
      exact le_magnitude grid reaches
  have positive' : 0 < p'.magnitude x :=
    (Decimal.ten_zpow_pos (k - 1)).trans ((pow_pred_lt_leastTo digits).trans_le reaches')
  exact (pow_le_magnitude_iff digits above positive').2 reaches'

end Precision

end Reckon
