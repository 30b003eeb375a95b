import Reckon.Proofs.Decimal.Numeral
import Reckon.Proofs.Decimal.Rounding
import Reckon.Term.Combine

/-!
# Dividing and multiplying back

A quotient is rounded once, although it is found in integers: one digit more than the precision and
a mark for what is left over stand on the same side of every number halfway between two results as
the quotient does (`div_rounded`). With guard digits the rounded quotient is so close that its
product with the divisor, which is exact, lies within half a unit of the dividend, in whatever
decade the two are, so that rounding the product gives the dividend back.

Results: `div_rounded`, `rounded_eq_of_near`, `Term.rounded_times_divide`.
-/

namespace Reckon

/-! ## Places of digits -/

/-- A number of so many digits is a multiple of the unit of its last place. -/
theorem HasDigits.exists_multiple {digits : Nat} {x : ℚ} (short : HasDigits digits x)
    (positive : 0 < x) {low : ℤ} (le : low ≤ Int.log 10 x + 1 - digits) :
    ∃ m : ℤ, x = m * 10 ^ low := by
  obtain ⟨c, e, rfl, bound⟩ := short
  have most := Precision.log_coefficient_lt bound positive
  exact Precision.exists_scaled c (by omega)

theorem HasDigits.mul {m n : Nat} {x y : ℚ} (first : HasDigits m x) (second : HasDigits n y) :
    HasDigits (m + n) (x * y) := by
  obtain ⟨c, e, rfl, bound⟩ := first
  obtain ⟨d, f, rfl, bound'⟩ := second
  refine ⟨c * d, e + f, ?_, ?_⟩
  · rw [zpow_add₀ (by norm_num)]
    push_cast
    ring
  · rw [abs_mul, pow_add]
    exact mul_lt_mul'' bound bound' (abs_nonneg c) (abs_nonneg d)

/-- The leading digit of a positive number. -/
theorem log_bounds {x : ℚ} (positive : 0 < x) :
    (10 : ℚ) ^ Int.log 10 x ≤ x ∧ x < 10 ^ (Int.log 10 x + 1) :=
  ⟨by simpa using Int.zpow_log_le_self (b := 10) (by norm_num) positive,
    by simpa using Int.lt_zpow_succ_log_self (b := 10) (by norm_num) x⟩

/-- The numbers are the same up to three digits behind the last one. -/
def IsNear (digits : Nat) (x r : ℚ) : Prop :=
  |r - x| ≤ |x| * 10 ^ (-(digits : ℤ) - 3)

theorem isNear_self (digits : Nat) (x : ℚ) : IsNear digits x x := by
  rw [IsNear, sub_self, abs_zero]
  exact mul_nonneg (abs_nonneg x) (Decimal.ten_zpow_pos _).le

section Near

variable {digits : Nat} {x r : ℚ}

/-- A number of so many digits lies on the grid of the last place of a number near to it. -/
theorem log_le_of_near (positive : 0 < x) (positive' : 0 < r) (short : HasDigits digits x)
    (near : IsNear digits x r) : Int.log 10 r ≤ Int.log 10 x := by
  by_contra above
  obtain ⟨-, upper⟩ := log_bounds positive
  obtain ⟨lower, -⟩ := log_bounds positive'
  have unit := Decimal.ten_zpow_pos (Int.log 10 x + 1 - digits)
  obtain ⟨m, multiple⟩ := short.exists_multiple positive le_rfl
  -- there is a unit between the number and the power of ten above it
  have power : (10 : ℚ) ^ (Int.log 10 x + 1) =
      ((10 ^ digits : ℤ) : ℚ) * 10 ^ (Int.log 10 x + 1 - digits) := by
    push_cast
    rw [← zpow_natCast, ← zpow_add₀ (by norm_num), add_sub_cancel]
  have below : m + 1 ≤ 10 ^ digits := by
    rw [power] at upper
    nth_rewrite 1 [multiple] at upper
    have less := (mul_lt_mul_iff_left₀ unit).1 upper
    exact_mod_cast less
  have gap : x + 10 ^ (Int.log 10 x + 1 - digits) ≤ r := by
    have reached : ((m + 1 : ℤ) : ℚ) * 10 ^ (Int.log 10 x + 1 - digits) ≤
        10 ^ (Int.log 10 x + 1) := by
      rw [power]
      exact mul_le_mul_of_nonneg_right (by exact_mod_cast below) unit.le
    calc x + 10 ^ (Int.log 10 x + 1 - digits)
        = ((m + 1 : ℤ) : ℚ) * 10 ^ (Int.log 10 x + 1 - digits) := by
          nth_rewrite 1 [multiple]
          push_cast
          ring
      _ ≤ 10 ^ (Int.log 10 x + 1) := reached
      _ ≤ 10 ^ Int.log 10 r := zpow_le_zpow_right₀ (by norm_num) (by omega)
      _ ≤ r := lower
  have distance : r - x ≤ 10 ^ (Int.log 10 x + 1 - digits) * 10 ^ (-3 : ℤ) :=
    calc r - x ≤ x * 10 ^ (-(digits : ℤ) - 3) := by
          have near := (le_abs_self (r - x)).trans near
          rwa [abs_of_pos positive] at near
      _ ≤ 10 ^ (Int.log 10 x + 1) * 10 ^ (-(digits : ℤ) - 3) :=
          mul_le_mul_of_nonneg_right upper.le (Decimal.ten_zpow_pos _).le
      _ = 10 ^ (Int.log 10 x + 1 - digits) * 10 ^ (-3 : ℤ) := by
          rw [← zpow_add₀ (by norm_num), ← zpow_add₀ (by norm_num)]
          congr 1
          ring
  norm_num at distance
  linarith

/-- On the grid of the last place it is the nearest number. -/
theorem exists_nearest (positive : 0 < x) (positive' : 0 < r) (short : HasDigits digits x)
    (near : IsNear digits x r) : ∃ m : ℤ, x = m * 10 ^ (Int.log 10 r + 1 - digits) ∧
      |r / 10 ^ (Int.log 10 r + 1 - digits) - m| < 1 / 2 := by
  have le : Int.log 10 r + 1 - digits ≤ Int.log 10 x + 1 - digits := by
    have leads := log_le_of_near positive positive' short near
    omega
  obtain ⟨m, multiple⟩ := short.exists_multiple positive le
  have unit := Decimal.ten_zpow_pos (Int.log 10 r + 1 - digits)
  obtain ⟨-, upper⟩ := log_bounds positive'
  rw [IsNear, abs_of_pos positive] at near
  have small : (10 : ℚ) ^ (-(digits : ℤ) - 3) ≤ 10 ^ (-3 : ℤ) :=
    zpow_le_zpow_right₀ (by norm_num) (by omega)
  have double : x ≤ 2 * r := by
    have distance := (neg_abs_le (r - x)).trans' (neg_le_neg near)
    have bound := mul_le_mul_of_nonneg_left small positive.le
    norm_num at bound
    linarith
  refine ⟨m, multiple, ?_⟩
  have offset : r / 10 ^ (Int.log 10 r + 1 - digits) - m =
      (r - x) / 10 ^ (Int.log 10 r + 1 - digits) := by
    rw [multiple, sub_div, mul_div_cancel_right₀ _ unit.ne']
  rw [offset, abs_div, abs_of_pos unit, div_lt_iff₀ unit]
  calc |r - x| ≤ x * 10 ^ (-(digits : ℤ) - 3) := near
    _ ≤ 2 * r * 10 ^ (-(digits : ℤ) - 3) :=
        mul_le_mul_of_nonneg_right double (Decimal.ten_zpow_pos _).le
    _ ≤ 2 * 10 ^ (Int.log 10 r + 1) * 10 ^ (-(digits : ℤ) - 3) := by
        refine mul_le_mul_of_nonneg_right ?_ (Decimal.ten_zpow_pos _).le
        linarith
    _ = 2 * 10 ^ (-3 : ℤ) * 10 ^ (Int.log 10 r + 1 - digits) := by
        rw [mul_assoc, mul_assoc, ← zpow_add₀ (by norm_num), ← zpow_add₀ (by norm_num)]
        congr 2
        ring
    _ < 1 / 2 * 10 ^ (Int.log 10 r + 1 - digits) := by
        refine mul_lt_mul_of_pos_right ?_ unit
        norm_num

end Near

/-! ## Rounding -/

theorem Rounding.nearest_eq {mode : Rounding} (tie : mode = .halfUp) {m : ℤ} {z : ℚ}
    (near : |z - m| < 1 / 2) : mode.nearest z = m := by
  obtain ⟨above, below⟩ := abs_lt.1 near
  refine le_antisymm ?_ ((mode.le_nearest_iff (.inl tie)).2 (by linarith))
  by_contra more
  have reached := (mode.le_nearest_iff (.inl tie)).1 (Int.add_one_le_iff.2 (not_le.1 more))
  push_cast at reached
  linarith

theorem Rounding.abs_nearest_sub_le (mode : Rounding) (z : ℚ) : |(mode.nearest z : ℚ) - z| ≤ 1 := by
  have below := Int.floor_le z
  have above := Int.lt_floor_add_one z
  rw [abs_le]
  unfold nearest
  split
  · push_cast
    constructor <;> linarith
  · constructor <;> linarith

namespace Precision

variable {p : Precision} {x r z z' : ℚ} {low : ℤ}

/-- Above the subnormal numbers all digits are kept. -/
theorem lowest_eq (positive : 0 < x) (normal : 10 ^ minExponent ≤ x) :
    p.lowest x = Int.log 10 x + 1 - p.digits := by
  have leads : minExponent ≤ Int.log 10 x :=
    (Int.zpow_le_iff_le_log (by norm_num) positive).1 (by simpa using normal)
  unfold lowest tiny
  omega

theorem magnitude_eq_of_near (tie : p.rounding = .halfUp) (positive : 0 < x) (positive' : 0 < r)
    (short : HasDigits p.digits x) (near : IsNear p.digits x r) (normal : 10 ^ minExponent ≤ r) :
    p.magnitude r = x := by
  obtain ⟨m, multiple, close⟩ := exists_nearest positive positive' short near
  rw [magnitude, lowest_eq positive' normal, Rounding.nearest_eq tie close, ← multiple]

/-- Halves of units above this place. -/
theorem half_eq {place : ℤ} (above : low < place) (n : ℤ) :
    (n : ℚ) * (10 ^ place / 2) = ((n * 10 ^ (place - low - 1).toNat : ℤ) : ℚ) * (5 * 10 ^ low) := by
  have shifted : ((place - low - 1).toNat : ℤ) = place - low - 1 := Int.toNat_of_nonneg (by omega)
  have scale : (10 : ℚ) ^ place = 10 ^ (place - low - 1) * 10 * 10 ^ low := by
    rw [← zpow_add_one₀ (by norm_num), ← zpow_add₀ (by norm_num)]
    congr 1
    ring
  rw [scale]
  push_cast
  rw [← zpow_natCast, shifted]
  ring

/-- Numbers on the same side of all halves of units are rounded to the same number. -/
theorem magnitude_eq_of_sides (digits : 0 < p.digits)
    (large : 10 ^ (low + p.digits) ≤ z) (large' : 10 ^ (low + p.digits) ≤ z')
    (sides : ∀ n : ℤ, (n : ℚ) * (5 * 10 ^ low) ≤ z ↔ (n : ℚ) * (5 * 10 ^ low) ≤ z')
    (sides' : ∀ n : ℤ, (n : ℚ) * (5 * 10 ^ low) < z ↔ (n : ℚ) * (5 * 10 ^ low) < z') :
    p.magnitude z = p.magnitude z' := by
  have positive := (Decimal.ten_zpow_pos _).trans_le large
  have positive' := (Decimal.ten_zpow_pos _).trans_le large'
  have reach : low + p.digits ≤ Int.log 10 z :=
    (Int.zpow_le_iff_le_log (by norm_num) positive).1 (by simpa using large)
  have reach' : low + p.digits ≤ Int.log 10 z' :=
    (Int.zpow_le_iff_le_log (by norm_num) positive').1 (by simpa using large')
  have power : ∀ {k : ℤ}, low < k → (10 ^ k ≤ z ↔ 10 ^ k ≤ z') := by
    intro k above
    have two := half_eq above 2
    rw [Int.cast_ofNat, mul_div_cancel₀ _ two_ne_zero] at two
    rw [two]
    exact sides _
  have leads : Int.log 10 z = Int.log 10 z' := by
    apply le_antisymm
    · refine (Int.zpow_le_iff_le_log (by norm_num) positive').1 ?_
      rw [Nat.cast_ofNat, ← power (by omega)]
      exact (log_bounds positive).1
    · refine (Int.zpow_le_iff_le_log (by norm_num) positive).1 ?_
      rw [Nat.cast_ofNat, power (by omega)]
      exact (log_bounds positive').1
  have place : p.lowest z = p.lowest z' := by rw [lowest, lowest, leads]
  have above : low < p.lowest z' := by
    unfold lowest
    omega
  have unit := Decimal.ten_zpow_pos (p.lowest z')
  have nearest : p.rounding.nearest (z / 10 ^ p.lowest z') =
      p.rounding.nearest (z' / 10 ^ p.lowest z') := by
    have half : ∀ k : ℤ, ((k : ℚ) - 1 / 2) * 10 ^ p.lowest z' =
        ((2 * k - 1 : ℤ) : ℚ) * (10 ^ p.lowest z' / 2) := fun k => by
      push_cast
      ring
    refine p.rounding.nearest_eq_of_sides (fun k => ?_) fun k => ?_
    · rw [le_div_iff₀ unit, le_div_iff₀ unit, half, half_eq above]
      exact sides _
    · rw [lt_div_iff₀ unit, lt_div_iff₀ unit, half, half_eq above]
      exact sides' _
  rw [magnitude, magnitude, place, nearest]

/-- A rounded number has no more digits than the precision. -/
theorem hasDigits_magnitude (digits : 0 < p.digits) (nonneg : 0 ≤ x) :
    HasDigits p.digits (p.magnitude x) := by
  rcases nonneg.eq_or_lt with rfl | positive
  · rw [magnitude_zero]
    exact (representable_zero _).short
  have unit := Decimal.ten_zpow_pos (p.lowest x)
  have least : 0 ≤ p.rounding.nearest (x / 10 ^ p.lowest x) :=
    p.rounding.le_nearest (by rw [Int.cast_zero]; exact div_nonneg nonneg unit.le)
  have most : p.rounding.nearest (x / 10 ^ p.lowest x) ≤ 10 ^ p.digits := by
    refine p.rounding.nearest_le ((div_le_iff₀ unit).2 ((log_bounds positive).2.le.trans ?_))
    push_cast
    rw [← zpow_natCast, ← zpow_add₀ (by norm_num)]
    refine zpow_le_zpow_right₀ (by norm_num) ?_
    unfold lowest
    omega
  rcases most.lt_or_eq with less | power
  · exact ⟨_, _, rfl, by rwa [abs_of_nonneg least]⟩
  · refine ⟨1, p.digits + p.lowest x, ?_, ?_⟩
    · rw [magnitude, power, zpow_add₀ (by norm_num), zpow_natCast]
      push_cast
      ring
    · rw [abs_one]
      exact one_lt_pow₀ (by norm_num) digits.ne'

theorem hasDigits_rounded (digits : 0 < p.digits) (q : ℚ) : HasDigits p.digits (p.rounded q) := by
  unfold rounded
  split
  next negative => exact (hasDigits_magnitude digits (neg_pos.2 negative).le).neg
  next nonneg => exact hasDigits_magnitude digits (not_lt.1 nonneg)

theorem rounded_neg (p : Precision) (q : ℚ) : p.rounded (-q) = -p.rounded q := by
  rcases lt_trichotomy q 0 with negative | rfl | positive
  · rw [rounded, rounded, if_pos negative, if_neg (neg_pos.2 negative).not_gt, neg_neg]
  · simp
  · rw [rounded, rounded, if_neg positive.not_gt, if_pos (neg_lt_zero.2 positive), neg_neg]

/-- The exact result `q` of an operation stays inside of the exponent range: it does not become too
large, and no digits are lost because it is too small. -/
structure Keeps (p : Precision) (q : ℚ) : Prop where
  below : |p.rounded q| < 10 ^ (maxExponent + 1)
  above : p.rounded q = q ∨ 10 ^ minExponent ≤ |q|

theorem keeps_of_le {k : ℤ} {q : ℚ} (lower : 10 ^ (-k) ≤ |q|) (upper : |q| ≤ 10 ^ k)
    (small : k < maxExponent) : p.Keeps q where
  below := abs_rounded_lt (upper.trans_lt (zpow_lt_zpow_right₀ (by norm_num) small))
  above := .inr ((zpow_le_zpow_right₀ (by norm_num) (by
    have range : minExponent = -maxExponent := by decide
    omega)).trans lower)

/-- Rounding moves a number by a unit of its last digit at most. -/
theorem abs_magnitude_sub_le (positive : 0 < x) (normal : 10 ^ minExponent ≤ x) :
    |p.magnitude x - x| ≤ x * 10 ^ (1 - (p.digits : ℤ)) := by
  have unit := Decimal.ten_zpow_pos (p.lowest x)
  have close := p.rounding.abs_nearest_sub_le (x / 10 ^ p.lowest x)
  have offset : p.magnitude x - x =
      (p.rounding.nearest (x / 10 ^ p.lowest x) - x / 10 ^ p.lowest x) * 10 ^ p.lowest x := by
    rw [sub_mul, div_mul_cancel₀ _ unit.ne', magnitude]
  calc |p.magnitude x - x|
      ≤ 1 * 10 ^ p.lowest x := by
        rw [offset, abs_mul, abs_of_pos unit]
        exact mul_le_mul_of_nonneg_right close unit.le
    _ = 10 ^ Int.log 10 x * 10 ^ (1 - (p.digits : ℤ)) := by
        rw [one_mul, lowest_eq positive normal, ← zpow_add₀ (by norm_num), add_sub_assoc]
    _ ≤ x * 10 ^ (1 - (p.digits : ℤ)) :=
        mul_le_mul_of_nonneg_right (log_bounds positive).1 (Decimal.ten_zpow_pos _).le

theorem abs_rounded_sub_le {q : ℚ} (above : p.rounded q = q ∨ 10 ^ minExponent ≤ |q|) :
    |p.rounded q - q| ≤ |q| * 10 ^ (1 - (p.digits : ℤ)) := by
  rcases above with exact | normal
  · rw [exact, sub_self, abs_zero]
    exact mul_nonneg (abs_nonneg q) (Decimal.ten_zpow_pos _).le
  · have nonzero : 0 < |q| := (Decimal.ten_zpow_pos _).trans_le normal
    have bound := abs_magnitude_sub_le (p := p) nonzero normal
    rcases abs_cases q with ⟨same, nonneg⟩ | ⟨opposite, negative⟩
    · rw [same] at bound ⊢
      rwa [rounded, if_neg nonneg.not_gt]
    · rw [opposite] at bound ⊢
      have turned : -p.magnitude (-q) - q = -(p.magnitude (-q) - -q) := by ring
      rwa [rounded, if_pos negative, turned, abs_neg]

/-- A sign in front of a number that is rounded. -/
theorem rounded_signed (p : Precision) (s : Bool) (nonneg : 0 ≤ x) :
    p.rounded (Decimal.signedCoefficient s 1 * x) =
      Decimal.signedCoefficient s 1 * p.magnitude x := by
  cases s with
  | false => simp [rounded, nonneg.not_gt]
  | true =>
    rcases nonneg.eq_or_lt with rfl | positive
    · simp
    · simp [rounded, positive]

/-! ## Quotients -/

/-- A coefficient with a mark in its last digit, if something is left over. -/
def marked (n m : Nat) : Nat :=
  if n % m = 0 then n / m else if n / m % 5 = 0 then n / m + 1 else n / m

/-- The coefficient is on the same side of every multiple of five as the quotient. -/
theorem le_marked_iff {n m : Nat} (positive : 0 < m) (k : ℤ) :
    ((5 * k : ℤ) : ℚ) ≤ (n : ℚ) / m ↔ 5 * k ≤ marked n m := by
  have whole : ((5 * k : ℤ) : ℚ) ≤ (n : ℚ) / m ↔ 5 * k ≤ (n / m : Nat) := by
    rw [le_div_iff₀ (by exact_mod_cast positive), Int.natCast_div,
      Int.le_ediv_iff_mul_le (by exact_mod_cast positive)]
    exact_mod_cast Iff.rfl
  rw [whole, marked]
  split
  · rfl
  · split <;> omega

/-- No multiple of five is hit by a quotient with something left over. -/
theorem lt_marked_iff {n m : Nat} (positive : 0 < m) (k : ℤ) :
    ((5 * k : ℤ) : ℚ) < (n : ℚ) / m ↔ 5 * k < marked n m := by
  by_cases exact : n % m = 0
  · have whole : (n : ℚ) / m = ((n / m : Nat) : ℤ) := by
      rw [Int.cast_natCast, Nat.cast_div_charZero (Nat.dvd_of_mod_eq_zero exact)]
    rw [whole, marked, if_pos exact, Int.cast_lt]
  · have missed : ((5 * k : ℤ) : ℚ) ≠ (n : ℚ) / m := by
      intro hit
      rw [eq_div_iff (by exact_mod_cast positive.ne')] at hit
      have multiple : (n : ℤ) = 5 * k * m := by exact_mod_cast hit.symm
      have divides : (m : ℤ) ∣ n := ⟨5 * k, by rw [multiple, mul_comm]⟩
      exact exact (Nat.mod_eq_zero_of_dvd (Int.natCast_dvd_natCast.1 divides))
    have missed' : 5 * k ≠ marked n m := by
      rw [marked, if_neg exact]
      split <;> omega
    rw [← missed.le_iff_lt, le_marked_iff positive, missed'.le_iff_lt]

/-- The places by which a dividend is moved so that its quotient has enough digits. -/
def shift (p : Precision) (c d : Nat) : ℤ :=
  digitCount d - digitCount c + p.digits + 1

/-- The coefficient of a quotient, with a mark if something is left over. -/
def quotient (p : Precision) (c d : Nat) : Nat :=
  marked (c * tens (p.shift c d).toNat) (d * tens (-p.shift c d).toNat)

section Finite

variable {c d : Nat} {e f : ℤ}

/-- What is divided in integers is the quotient of the coefficients, moved. -/
theorem cast_div_shift (p : Precision) (c : Nat) (nonzero : d ≠ 0) :
    ((c * tens (p.shift c d).toNat : Nat) : ℚ) / (d * tens (-p.shift c d).toNat : Nat) =
      c / d * 10 ^ p.shift c d := by
  have split : (10 : ℚ) ^ ((p.shift c d).toNat : ℤ) =
      10 ^ p.shift c d * 10 ^ ((-p.shift c d).toNat : ℤ) := by
    rw [← zpow_add₀ (by norm_num)]
    congr 1
    omega
  have divisor : (d : ℚ) ≠ 0 := by exact_mod_cast nonzero
  have unit := (Decimal.ten_zpow_pos ((-p.shift c d).toNat : ℤ)).ne'
  push_cast [cast_tens]
  rw [split]
  field_simp

theorem pow_digits_le_div (p : Precision) (nonzero : c ≠ 0) (nonzero' : d ≠ 0) :
    (10 : ℚ) ^ (p.digits : ℤ) ≤ c / d * 10 ^ p.shift c d := by
  have divisor : (0 : ℚ) < d := by exact_mod_cast Nat.pos_of_ne_zero nonzero'
  rw [div_mul_eq_mul_div, le_div_iff₀ divisor]
  calc (10 : ℚ) ^ (p.digits : ℤ) * d ≤ 10 ^ (p.digits : ℤ) * 10 ^ (digitCount d : ℤ) :=
        mul_le_mul_of_nonneg_left (lt_pow_digitCount d).le (Decimal.ten_zpow_pos _).le
    _ = 10 ^ ((digitCount c : ℤ) - 1) * 10 ^ p.shift c d := by
        rw [← zpow_add₀ (by norm_num), ← zpow_add₀ (by norm_num), shift]
        congr 1
        ring
    _ ≤ c * 10 ^ p.shift c d :=
        mul_le_mul_of_nonneg_right (pow_digitCount_le nonzero) (Decimal.ten_zpow_pos _).le

/-- An exact quotient loses zeros, which does not change its value. -/
theorem divFinite_eq_finish (p : Precision) (s : Bool) (nonzero : c ≠ 0) (d : Nat) :
    ∃ k l, p.divFinite s c e d f = p.finish s k l ∧
      (k : ℚ) * 10 ^ l = p.quotient c d * 10 ^ (e - f - p.shift c d) := by
  unfold divFinite quotient marked shift
  rw [if_neg nonzero]
  dsimp only
  split
  next exact => exact ⟨_, _, rfl, Decimal.stripZeros_value _ _ _⟩
  next => exact ⟨_, _, rfl, rfl⟩

/-- The marked coefficient is rounded as the quotient is. -/
theorem magnitude_quotient (digits : 0 < p.digits) (nonzero : c ≠ 0) (nonzero' : d ≠ 0) :
    p.magnitude (p.quotient c d * 10 ^ (e - f - p.shift c d)) =
      p.magnitude (c * 10 ^ e / (d * 10 ^ f)) := by
  have value : (c : ℚ) * 10 ^ e / (d * 10 ^ f) =
      c / d * 10 ^ p.shift c d * 10 ^ (e - f - p.shift c d) := by
    rw [mul_assoc, ← zpow_add₀ (by norm_num), add_sub_cancel, zpow_sub₀ (by norm_num)]
    field_simp
  have divisor : 0 < d * tens (-p.shift c d).toNat :=
    Nat.mul_pos (Nat.pos_of_ne_zero nonzero') (tens_pos _)
  have same : ∀ k : ℤ, ((5 * k : ℤ) : ℚ) ≤ c / d * 10 ^ p.shift c d ↔
      5 * k ≤ (p.quotient c d : ℤ) := fun k => by
    rw [← cast_div_shift p c nonzero', quotient]
    exact le_marked_iff divisor k
  have same' : ∀ k : ℤ, ((5 * k : ℤ) : ℚ) < c / d * 10 ^ p.shift c d ↔
      5 * k < (p.quotient c d : ℤ) := fun k => by
    rw [← cast_div_shift p c nonzero', quotient]
    exact lt_marked_iff divisor k
  have large := p.pow_digits_le_div nonzero nonzero'
  have large' : (10 : ℚ) ^ (p.digits : ℤ) ≤ p.quotient c d := by
    obtain ⟨k, more⟩ := Nat.exists_eq_add_of_le' digits
    have power : (10 : ℚ) ^ (p.digits : ℤ) = ((5 * (2 * 10 ^ k) : ℤ) : ℚ) := by
      rw [zpow_natCast, more, pow_succ]
      push_cast
      ring
    rw [power] at large ⊢
    exact_mod_cast (same _).1 large
  have unit := Decimal.ten_zpow_pos (e - f - p.shift c d)
  rw [value]
  have scaled : ∀ {w : ℚ}, 10 ^ (p.digits : ℤ) ≤ w →
      10 ^ (e - f - p.shift c d + p.digits) ≤ w * 10 ^ (e - f - p.shift c d) := fun le => by
    rw [add_comm, zpow_add₀ (by norm_num)]
    exact mul_le_mul_of_nonneg_right le unit.le
  have five : ∀ n : ℤ, (n : ℚ) * (5 * 10 ^ (e - f - p.shift c d)) =
      ((5 * n : ℤ) : ℚ) * 10 ^ (e - f - p.shift c d) := fun n => by
    push_cast
    ring
  refine magnitude_eq_of_sides digits (scaled large') (scaled large) (fun n => ?_) fun n => ?_
  · rw [five, mul_le_mul_iff_left₀ unit, mul_le_mul_iff_left₀ unit, same]
    exact_mod_cast Iff.rfl
  · rw [five, mul_lt_mul_iff_left₀ unit, mul_lt_mul_iff_left₀ unit, same']
    exact_mod_cast Iff.rfl

end Finite

/-- A result in the exponent range is the rounded number. -/
theorem finish_value (digits : 0 < p.digits) {s : Bool} {c : Nat} {e : ℤ}
    (value : (Decimal.signedCoefficient s c : ℚ) * 10 ^ e = x)
    (inside : |p.rounded x| < 10 ^ (maxExponent + 1)) :
    ∃ r, p.finish s c e = .ok r ∧ r.toRat? = some (p.rounded x) := by
  obtain ⟨r, done⟩ := exists_finish digits value inside
  exact ⟨r, done, (finish_rounded digits value done).1⟩

/-- A product is the rounded product of the values. -/
theorem mul_value {a b : Decimal} {y : ℚ} (digits : 0 < p.digits) (left : a.toRat? = some x)
    (right : b.toRat? = some y) (inside : |p.rounded (x * y)| < 10 ^ (maxExponent + 1)) :
    ∃ r, p.mul a b = .ok r ∧ r.toRat? = some (p.rounded (x * y)) := by
  have computed := propagated_eq_none left right
  obtain ⟨s, c, e, rfl, rfl⟩ := Decimal.exists_of_toRat? left
  obtain ⟨t, d, f, rfl, rfl⟩ := Decimal.exists_of_toRat? right
  rw [mul, computed]
  refine finish_value digits ?_ inside
  rw [zpow_add₀ (by norm_num)]
  cases s <;> cases t <;> simp <;> ring

/-- A quotient is the rounded quotient of the values. -/
theorem div_rounded {a b : Decimal} {y : ℚ} (digits : 0 < p.digits) (left : a.toRat? = some x)
    (right : b.toRat? = some y) (nonzero : y ≠ 0)
    (inside : |p.rounded (x / y)| < 10 ^ (maxExponent + 1)) :
    ∃ r, p.div a b = .ok r ∧ r.toRat? = some (p.rounded (x / y)) := by
  have computed := propagated_eq_none left right
  obtain ⟨s, c, e, rfl, rfl⟩ := Decimal.exists_of_toRat? left
  obtain ⟨t, d, f, rfl, rfl⟩ := Decimal.exists_of_toRat? right
  have divisor : d ≠ 0 := by
    rintro rfl
    exact nonzero (by simp)
  rw [div, computed]
  change ∃ r, (if d = 0 then _ else p.divFinite (s != t) c e d f) = .ok r ∧ _
  rw [if_neg divisor]
  have signs : (Decimal.signedCoefficient s c : ℚ) * 10 ^ e /
      (Decimal.signedCoefficient t d * 10 ^ f) =
        Decimal.signedCoefficient (s != t) 1 * (c * 10 ^ e / (d * 10 ^ f)) := by
    cases s <;> cases t <;> simp [neg_div, div_neg]
  rw [signs] at inside ⊢
  by_cases zero : c = 0
  · rw [divFinite, if_pos zero]
    exact finish_value digits (by simp [zero]) inside
  · obtain ⟨k, l, found, value⟩ := divFinite_eq_finish p (s != t) zero d
    have coefficient : (Decimal.signedCoefficient (s != t) k : ℚ) * 10 ^ l =
        Decimal.signedCoefficient (s != t) 1 *
          (p.quotient c d * 10 ^ (e - f - p.shift c d)) := by
      rw [← value]
      cases s <;> cases t <;> simp
    have same : p.rounded (Decimal.signedCoefficient (s != t) k * 10 ^ l) =
        p.rounded (Decimal.signedCoefficient (s != t) 1 * (c * 10 ^ e / (d * 10 ^ f))) := by
      have nonneg : ∀ (n : Nat) (g : ℤ), 0 ≤ (n : ℚ) * 10 ^ g := fun n g =>
        mul_nonneg n.cast_nonneg (Decimal.ten_zpow_pos g).le
      rw [coefficient, rounded_signed p _ (nonneg _ _),
        rounded_signed p _ (div_nonneg (nonneg c e) (nonneg d f)),
        magnitude_quotient digits zero divisor]
    rw [found, ← same]
    exact finish_value digits rfl (by rwa [same])

/-! ## Dividing and multiplying back -/

/-- A number near to one that has no more digits than the precision is rounded to it. -/
theorem rounded_eq_of_pos (tie : p.rounding = .halfUp) (digits : 0 < p.digits) (positive : 0 < x)
    (short : HasDigits p.digits x) (near : IsNear p.digits x r)
    (above : p.rounded r = r ∨ 10 ^ minExponent ≤ |r|) : p.rounded r = x := by
  have positive' : 0 < r := by
    have small : (10 : ℚ) ^ (-(p.digits : ℤ) - 3) ≤ 10 ^ (-3 : ℤ) :=
      zpow_le_zpow_right₀ (by norm_num) (by omega)
    have distance := (neg_abs_le (r - x)).trans' (neg_le_neg near)
    have bound := mul_le_mul_of_nonneg_left small positive.le
    rw [abs_of_pos positive] at distance
    norm_num at bound
    linarith
  rcases above with exact | normal
  · -- both have so few digits that there is no number in between
    obtain ⟨m, multiple, close⟩ := exists_nearest positive positive' short near
    have short' := hasDigits_rounded digits r
    rw [exact] at short' ⊢
    obtain ⟨n, multiple'⟩ := short'.exists_multiple positive' le_rfl
    have unit := (Decimal.ten_zpow_pos (Int.log 10 r + 1 - p.digits)).ne'
    have same : n = m := by
      nth_rewrite 1 [multiple'] at close
      rw [mul_div_cancel_right₀ _ unit] at close
      have less : |n - m| < 1 := by
        have bound : |(n : ℚ) - m| < 1 := close.trans (by norm_num)
        exact_mod_cast bound
      have zero := Int.abs_lt_one_iff.1 less
      omega
    rw [multiple, ← same]
    exact multiple'
  · rw [rounded, if_neg positive'.not_gt]
    rw [abs_of_pos positive'] at normal
    exact magnitude_eq_of_near tie positive positive' short near normal

theorem rounded_eq_of_near (tie : p.rounding = .halfUp) (digits : 0 < p.digits)
    (short : HasDigits p.digits x) (near : IsNear p.digits x r)
    (above : p.rounded r = r ∨ 10 ^ minExponent ≤ |r|) : p.rounded r = x := by
  rcases lt_trichotomy x 0 with negative | rfl | positive
  · have near' : IsNear p.digits (-x) (-r) := by
      rw [IsNear, abs_neg, neg_sub_neg, abs_sub_comm]
      exact near
    have above' : p.rounded (-r) = -r ∨ 10 ^ minExponent ≤ |-r| := by
      rwa [rounded_neg, neg_inj, abs_neg]
    have turned := rounded_eq_of_pos tie digits (neg_pos.2 negative) short.neg near' above'
    rwa [rounded_neg, neg_inj] at turned
  · rw [IsNear, abs_zero, zero_mul, sub_zero] at near
    rw [abs_nonpos_iff.1 near, rounded_zero]
  · exact rounded_eq_of_pos tie digits positive short near above

end Precision

namespace Term

variable {precision n : Nat} {a b : Decimal} {x y : ℚ}

/-- The guard digits of the quotient make its product with the divisor near to the dividend. -/
theorem isNear_product (nonzero : y ≠ 0) (quotient : (quotientPrecision precision).Keeps (x / y)) :
    IsNear precision x ((quotientPrecision precision).rounded (x / y) * y) := by
  have bound := Precision.abs_rounded_sub_le quotient.above
  have offset : (quotientPrecision precision).rounded (x / y) * y - x =
      ((quotientPrecision precision).rounded (x / y) - x / y) * y := by
    rw [sub_mul, div_mul_cancel₀ _ nonzero]
  have guard : (10 : ℚ) ^ (1 - ((quotientPrecision precision).digits : ℤ)) ≤
      10 ^ (-(precision : ℤ) - 3) := by
    refine zpow_le_zpow_right₀ (by norm_num) ?_
    simp only [quotientPrecision, Precision.halfUp, guardDigits]
    omega
  calc |(quotientPrecision precision).rounded (x / y) * y - x|
      = |(quotientPrecision precision).rounded (x / y) - x / y| * |y| := by rw [offset, abs_mul]
    _ ≤ |x / y| * 10 ^ (1 - ((quotientPrecision precision).digits : ℤ)) * |y| :=
        mul_le_mul_of_nonneg_right bound (abs_nonneg y)
    _ = |x| * 10 ^ (1 - ((quotientPrecision precision).digits : ℤ)) := by
        rw [mul_right_comm, ← abs_mul, div_mul_cancel₀ _ nonzero]
    _ ≤ |x| * 10 ^ (-(precision : ℤ) - 3) := mul_le_mul_of_nonneg_left guard (abs_nonneg x)

/-- Dividing and multiplying back gives a number of the precision again, if the product has room for
all digits and nothing leaves the exponent range. -/
theorem rounded_times_divide (digits : 1 ≤ precision) (left : a.toRat? = some x)
    (right : b.toRat? = some y) (nonzero : y ≠ 0) (short : HasDigits precision x)
    (short' : HasDigits n y) (room : precision + guardDigits + n ≤ Decimal.exactDigits)
    (quotient : (quotientPrecision precision).Keeps (x / y))
    (product : exactPrecision.Keeps ((quotientPrecision precision).rounded (x / y) * y))
    (result : (Precision.halfUp precision).Keeps
      ((quotientPrecision precision).rounded (x / y) * y)) :
    ∃ q r c, operation .divide (some precision) (.numeric a) (.numeric b) = .ok (.numeric q) ∧
      operation .times (some precision) (.numeric q) (.numeric b) = .ok (.numeric r) ∧
      (numeric r).rounded precision = .ok (.numeric c) ∧ c.toRat? = some x := by
  obtain ⟨k, rfl⟩ := Nat.exists_eq_add_of_le' digits
  have positive : 0 < (quotientPrecision (k + 1)).digits := by
    simp only [quotientPrecision, Precision.halfUp]
    omega
  obtain ⟨q, divided, qValue⟩ :=
    Precision.div_rounded positive left right nonzero quotient.below
  have fits : HasDigits exactPrecision.digits
      ((quotientPrecision (k + 1)).rounded (x / y) * y) :=
    ((Precision.hasDigits_rounded positive (x / y)).mul short').mono room
  have exact : exactPrecision.rounded ((quotientPrecision (k + 1)).rounded (x / y) * y) =
      (quotientPrecision (k + 1)).rounded (x / y) * y :=
    Precision.rounded_eq_of_near rfl (by decide) fits (isNear_self _ _) product.above
  obtain ⟨r, multiplied, rValue⟩ := Precision.mul_value (by decide) qValue right product.below
  rw [exact] at rValue
  obtain ⟨c, back⟩ := Precision.exists_round (Nat.succ_pos k) rValue result.below
  obtain ⟨cValue, -⟩ := Precision.round_rounded (Nat.succ_pos k) rValue back
  have restored : (Precision.halfUp (k + 1)).rounded
      ((quotientPrecision (k + 1)).rounded (x / y) * y) = x :=
    Precision.rounded_eq_of_near rfl (Nat.succ_pos k) short (isNear_product nonzero quotient)
      result.above
  rw [restored] at cValue
  have visible : b.isZero = false := by
    rw [Bool.eq_false_iff, Ne, Decimal.isZero_iff right]
    exact nonzero
  have first : Arithmetic.apply .divide (k + 1) a b = .ok q := by
    rw [Arithmetic.apply, visible, if_neg Bool.false_ne_true, divided]
    rfl
  have second : Arithmetic.apply .times (k + 1) q b = .ok r := by
    rw [Arithmetic.apply, multiplied]
    rfl
  refine ⟨q, r, c, ?_, ?_, ?_, cValue⟩
  · change (numeric <$> Arithmetic.apply .divide (k + 1) a b) = _
    rw [first]
    rfl
  · change (numeric <$> Arithmetic.apply .times (k + 1) q b) = _
    rw [second]
    rfl
  · rw [rounded, roundDigits, if_neg (Nat.succ_ne_zero k), back]
    rfl

/-- Two thirds times three is two, although the quotient is rounded up. -/
theorem rounded_times_divide_thirds : ∃ q r c,
    operation .divide (some 3) (.numeric 2) (.numeric 3) = .ok (.numeric q) ∧
    operation .times (some 3) (.numeric q) (.numeric 3) = .ok (.numeric r) ∧
    (numeric r).rounded 3 = .ok (.numeric c) ∧ c.toRat? = some ((2 : Nat) : ℚ) := by
  have two : (2 : Decimal).toRat? = some ((2 : Nat) : ℚ) := Decimal.toRat?_ofNat 2
  have three : (3 : Decimal).toRat? = some ((3 : Nat) : ℚ) := Decimal.toRat?_ofNat 3
  have moderate : ∀ {p : Precision} {q : ℚ}, 1 / 10 ≤ |q| → |q| ≤ 10 → p.Keeps q :=
    fun lower upper => Precision.keeps_of_le (k := 1) (by norm_num; linarith) (by simpa) (by decide)
  have quotient : (quotientPrecision 3).Keeps (((2 : Nat) : ℚ) / (3 : Nat)) :=
    moderate (by norm_num) (by norm_num)
  have value : (quotientPrecision 3).rounded (((2 : Nat) : ℚ) / (3 : Nat)) =
      66666667 * 10 ^ (-8 : ℤ) := by
    obtain ⟨q, divided, qValue⟩ :=
      Precision.div_rounded (by decide) two three (by norm_num) quotient.below
    have found : (quotientPrecision 3).div 2 3 = .ok (.finite false 66666667 (-8)) := by
      decide +kernel
    rw [found] at divided
    cases divided
    exact (Option.some.inj qValue).symm
  have product : ∀ p : Precision, p.Keeps ((quotientPrecision 3).rounded
      (((2 : Nat) : ℚ) / (3 : Nat)) * (3 : Nat)) := by
    intro p
    rw [value]
    exact moderate (by norm_num) (by norm_num)
  have short : HasDigits 1 ((3 : Nat) : ℚ) := ⟨3, 0, by norm_num, by norm_num⟩
  exact rounded_times_divide (by decide) two three (by norm_num)
    ⟨2, 0, by norm_num, by norm_num⟩ short (by decide) quotient (product _) (product _)

end Term

end Reckon
