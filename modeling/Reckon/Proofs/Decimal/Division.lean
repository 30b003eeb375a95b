import Reckon.Proofs.Decimal.Held

/-!
# Division toward zero

An integer quotient and a remainder are found from the two coefficients over the lower one of the
exponents. They are determined by the values alone: the remainder is smaller than the divisor and
has the sign of the dividend. The remainder can be written whenever dividend and divisor can, and
the division is refused exactly if the quotient has more digits than the precision.

Results: `TruncatedDivision.unique`, `TruncatedDivision.writes`, `divMod_eq`, `quot_rem_cases`.
-/

namespace Reckon

/-! ## Quotient and remainder of rationals -/

/-- The integer `k` is the quotient of `x` and `y` toward zero, and `z` the remainder. -/
structure TruncatedDivision (x y : ℚ) (k : ℤ) (z : ℚ) : Prop where
  sum : x = y * k + z
  less : |z| < |y|
  sign : z = 0 ∨ SignType.sign z = SignType.sign x

namespace TruncatedDivision

variable {x y z z' : ℚ} {k k' : ℤ}

/-- Dividend, divisor and remainder may be integers. -/
theorem sum_int {i j m : ℤ} (division : TruncatedDivision (i : ℚ) (j : ℚ) k (m : ℚ)) :
    i = m + j * k := by
  have sum := division.sum
  rw [add_comm]
  exact_mod_cast sum

/-- A multiple of the divisor that is smaller than the divisor is zero. -/
theorem eq_zero_of_abs_mul_lt (less : |y * k| < |y|) : k = 0 := by
  have positive : 0 < |y| := (abs_nonneg _).trans_lt less
  rw [abs_mul, mul_lt_iff_lt_one_right positive] at less
  exact Int.abs_lt_one_iff.1 (by exact_mod_cast less)

/-- The distance of numbers with the same sign is that of their magnitudes. -/
theorem abs_sub_eq (signed : z = 0 ∨ SignType.sign z = SignType.sign x) :
    |x - z| = |(|x| - |z|)| := by
  rcases signed with rfl | signed
  · simp
  rcases lt_trichotomy z 0 with negative | rfl | positive
  · rw [sign_neg negative, eq_comm, sign_eq_neg_one_iff] at signed
    rw [abs_of_neg negative, abs_of_neg signed, neg_sub_neg, abs_sub_comm]
  · simp
  · rw [sign_pos positive, eq_comm, sign_eq_one_iff] at signed
    rw [abs_of_pos positive, abs_of_pos signed]

theorem unique (first : TruncatedDivision x y k z) (second : TruncatedDivision x y k' z') :
    k = k' ∧ z = z' := by
  have less := first.less
  have less' := second.less
  have close : |z' - z| < |y| := by
    rcases first.sign with rfl | sign
    · rwa [sub_zero]
    rcases second.sign with rfl | sign'
    · rwa [zero_sub, abs_neg]
    · rw [abs_sub_eq (.inr (sign.trans sign'.symm)), abs_lt]
      constructor <;> linarith [abs_nonneg z, abs_nonneg z']
  have apart : z' - z = y * (k - k' : ℤ) := by
    have same := first.sum.symm.trans second.sum
    push_cast
    linarith
  rw [apart] at close
  have zero := eq_zero_of_abs_mul_lt close
  rw [zero, Int.cast_zero, mul_zero] at apart
  exact ⟨by omega, by linarith⟩

variable (division : TruncatedDivision x y k z)
include division

theorem abs_product_eq : |y * k| = |(|x| - |z|)| := by
  rw [← abs_sub_eq division.sign, division.sum, add_sub_cancel_right]

/-- The remainder is no larger than the dividend. -/
theorem abs_remainder_le : |z| ≤ |x| := by
  by_contra larger
  have less := division.less
  have zero : k = 0 := by
    apply eq_zero_of_abs_mul_lt (y := y)
    rw [division.abs_product_eq, abs_lt]
    constructor <;> linarith [abs_nonneg x, abs_nonneg z]
  have sum := division.sum
  rw [zero, Int.cast_zero, mul_zero, zero_add] at sum
  exact larger (by rw [sum])

/-- Product and remainder add up in magnitude. -/
theorem abs_product_add : |y| * |(k : ℚ)| + |z| = |x| := by
  have product := division.abs_product_eq
  rw [abs_of_nonneg (sub_nonneg.2 division.abs_remainder_le), abs_mul] at product
  rw [product, sub_add_cancel]

/-- A dividend that is not smaller than the divisor has room for divisor and remainder. -/
theorem abs_add_le (large : |y| ≤ |x|) : |y| + |z| ≤ |x| := by
  have sum := division.abs_product_add
  have less := division.less
  have nonzero : k ≠ 0 := by
    rintro rfl
    rw [Int.cast_zero, abs_zero, mul_zero, zero_add] at sum
    exact absurd large (sum ▸ less).not_ge
  have one : (1 : ℚ) ≤ |(k : ℚ)| := by exact_mod_cast Int.one_le_abs nonzero
  have := le_mul_of_one_le_right (abs_nonneg y) one
  linarith

/-- The quotient by a divisor that is at least one is no larger than the dividend. -/
theorem abs_quotient_le (large : 1 ≤ |y|) : |(k : ℚ)| ≤ |x| := by
  have sum := division.abs_product_add
  have := le_mul_of_one_le_left (abs_nonneg (k : ℚ)) large
  linarith [abs_nonneg z]

/-- The remainder has no digits below the lower one of the last places of dividend and divisor, so a
precision that writes these two writes the remainder. -/
theorem writes {p : Precision} (written : p.Writes x) (written' : p.Writes y) : p.Writes z := by
  have least := division.abs_remainder_le
  have less := division.less
  have remainder : z = x - y * k := eq_sub_of_add_eq' division.sum.symm
  obtain ⟨c, g, rfl, short, above⟩ := written
  obtain ⟨d, h, rfl, short', above'⟩ := written'
  rcases le_total g h with lower | lower
  · obtain ⟨n, scaled⟩ := Precision.exists_scaled d lower
    have written : z = ((c - n * k : ℤ) : ℚ) * 10 ^ g := by
      rw [remainder, scaled]
      push_cast
      ring
    refine ⟨_, g, written, lt_of_le_of_lt ?_ short, above⟩
    rw [written, abs_mul, abs_mul, mul_le_mul_iff_left₀ (abs_pos.2 (Decimal.ten_zpow_pos g).ne')]
      at least
    exact_mod_cast least
  · obtain ⟨n, scaled⟩ := Precision.exists_scaled c lower
    have written : z = ((n - d * k : ℤ) : ℚ) * 10 ^ h := by
      rw [remainder, scaled]
      push_cast
      ring
    refine ⟨_, h, written, lt_trans ?_ short', above'⟩
    rw [written, abs_mul, abs_mul, mul_lt_mul_iff_left₀ (abs_pos.2 (Decimal.ten_zpow_pos h).ne')]
      at less
    exact_mod_cast less

end TruncatedDivision

/-! ## Quotient and remainder of coefficients -/

theorem tens_add (a b : Nat) : tens (a + b) = tens a * tens b :=
  pow_add 10 a b

theorem tens_le_tens {a b : Nat} (le : a ≤ b) : tens a ≤ tens b :=
  Nat.pow_le_pow_right (by decide) le

theorem lt_tens_digitCount (c : Nat) : c < tens (digitCount c) := by
  rw [digitCount_eq]
  exact lt_tens_countDigits c

theorem tens_digitCount_le {c : Nat} (nonzero : c ≠ 0) : tens (digitCount c - 1) ≤ c := by
  rw [digitCount_eq]
  exact tens_countDigits_le (Nat.pos_of_ne_zero nonzero)

theorem digitCount_pos (c : Nat) : 0 < digitCount c := by
  rw [digitCount_eq]
  exact countDigits_pos c

namespace Precision

variable {p : Precision} {s t : Bool} {c d : Nat} {e f : ℤ}

/-- A coefficient over a lower exponent has as many zeros more. -/
theorem leveled_lt (c k : Nat) : c * tens k < tens (digitCount c + k) := by
  rw [tens_add]
  exact Nat.mul_lt_mul_of_pos_right (lt_tens_digitCount c) (tens_pos k)

theorem tens_le_leveled (nonzero : c ≠ 0) (k : Nat) :
    tens (digitCount c - 1 + k) ≤ c * tens k := by
  rw [tens_add]
  exact Nat.mul_le_mul_right _ (tens_digitCount_le nonzero)

/-- The distance of the leading digits only saves the division where its outcome is clear. -/
theorem divMod_eq (p : Precision) (s : Bool) (c : Nat) (e : ℤ) (t : Bool) (f : ℤ)
    (nonzero : d ≠ 0) :
    p.divMod s c e t d f =
      if tens p.digits ≤ c * tens (e - min e f).toNat / (d * tens (f - min e f).toNat) then
        .error .divisionImpossible
      else
        .ok (.finite (s != t) (c * tens (e - min e f).toNat / (d * tens (f - min e f).toNat)) 0,
          .finite s (c * tens (e - min e f).toNat % (d * tens (f - min e f).toNat))
            (min e f)) := by
  have short := leveled_lt c (e - min e f).toNat
  have long' := tens_le_leveled nonzero (f - min e f).toNat
  have short' := leveled_lt d (f - min e f).toNat
  have count := digitCount_pos d
  have positive : 0 < d * tens (f - min e f).toNat :=
    Nat.mul_pos (Nat.pos_of_ne_zero nonzero) (tens_pos _)
  unfold divMod
  dsimp only
  split
  next zero =>
    rw [zero, Nat.zero_mul, Nat.zero_div, Nat.zero_mod, if_neg (tens_pos _).not_ge]
  next some =>
  split
  next small =>
    have less : c * tens (e - min e f).toNat < d * tens (f - min e f).toNat :=
      short.trans_le ((tens_le_tens (by omega)).trans long')
    rw [Nat.div_eq_of_lt less, Nat.mod_eq_of_lt less, if_neg (tens_pos _).not_ge]
  next =>
  split
  next large =>
    have long := tens_le_leveled some (e - min e f).toNat
    have more : tens p.digits * (d * tens (f - min e f).toNat) ≤ c * tens (e - min e f).toNat :=
      calc tens p.digits * (d * tens (f - min e f).toNat)
          ≤ tens p.digits * tens (digitCount d + (f - min e f).toNat) :=
            Nat.mul_le_mul_left _ short'.le
        _ = tens (p.digits + (digitCount d + (f - min e f).toNat)) := (tens_add _ _).symm
        _ ≤ tens (digitCount c - 1 + (e - min e f).toNat) := tens_le_tens (by omega)
        _ ≤ c * tens (e - min e f).toNat := long
    rw [if_pos ((Nat.le_div_iff_mul_le positive).2 more)]
  next => rfl

/-! ## Quotient and remainder of decimals -/

theorem sign_signedCoefficient (s : Bool) {n : Nat} (nonzero : n ≠ 0) (g : ℤ) :
    SignType.sign ((Decimal.signedCoefficient s n : ℚ) * 10 ^ g) = if s then -1 else 1 := by
  have positive : (0 : ℚ) < n * 10 ^ g :=
    mul_pos (by exact_mod_cast Nat.pos_of_ne_zero nonzero) (Decimal.ten_zpow_pos g)
  cases s with
  | false => simpa using sign_pos positive
  | true => simpa using sign_neg (neg_lt_zero.2 positive)

/-- The division of coefficients with the same exponent is one of the numbers. -/
theorem truncated_of_coefficients (s t : Bool) (n : Nat) {m : Nat} (nonzero : m ≠ 0) (g : ℤ) :
    TruncatedDivision (Decimal.signedCoefficient s n * 10 ^ g)
      (Decimal.signedCoefficient t m * 10 ^ g) (Decimal.signedCoefficient (s != t) (n / m))
      (Decimal.signedCoefficient s (n % m) * 10 ^ g) where
  sum := by
    have whole : (n : ℚ) = m * (n / m : Nat) + (n % m : Nat) := by
      exact_mod_cast (Nat.div_add_mod n m).symm
    cases s <;> cases t <;>
      simp only [Decimal.signedCoefficient_false, Decimal.signedCoefficient_true, bne_self_eq_false,
        Bool.bne_true, Bool.bne_false, Bool.not_false, Int.cast_neg, Int.cast_natCast] <;>
      rw [whole] <;> ring
  less := by
    have unit := Decimal.ten_zpow_pos g
    rw [abs_mul, abs_mul, Decimal.abs_signedCoefficient, Decimal.abs_signedCoefficient,
      mul_lt_mul_iff_left₀ (abs_pos.2 unit.ne')]
    exact_mod_cast Nat.mod_lt n (Nat.pos_of_ne_zero nonzero)
  sign := by
    by_cases exact : n % m = 0
    · left
      rw [exact, Decimal.signedCoefficient_zero, Int.cast_zero, zero_mul]
    · right
      have some : n ≠ 0 := by
        rintro rfl
        exact exact (Nat.zero_mod m)
      rw [sign_signedCoefficient s exact, sign_signedCoefficient s some]

variable {a b : Decimal} {x y : ℚ}

/-- The value of a coefficient over a lower exponent. -/
theorem leveled_value (s : Bool) (c : Nat) {g : ℤ} (lower : g ≤ e) :
    (Decimal.signedCoefficient s (c * tens (e - g).toNat) : ℚ) * 10 ^ g =
      Decimal.signedCoefficient s c * 10 ^ e := by
  have aligned := Decimal.aligned_mul_zpow s c lower
  by_cases zero : c = 0
  · simp [zero]
  · rwa [Decimal.aligned, beq_false_of_ne zero, if_neg Bool.false_ne_true] at aligned

/-- The integer quotient and the remainder come from one division. -/
theorem quot_rem_of_ok {s' : Bool} {q : Decimal} {r : Nat} {low : ℤ} (nonzero : d ≠ 0)
    (divided : p.divMod s c e t d f = .ok (q, .finite s' r low)) :
    p.quot (.finite s c e) (.finite t d f) = .ok q ∧
      p.rem (.finite s c e) (.finite t d f) = p.finish s' r low := by
  constructor
  · change (if d = 0 then _ else Prod.fst <$> p.divMod s c e t d f) = _
    rw [if_neg nonzero, divided]
    rfl
  · change (if d = 0 then _ else p.divMod s c e t d f >>= fun _ => _) = _
    rw [if_neg nonzero, divided]
    rfl

theorem quot_rem_of_error {signal : Signal} (nonzero : d ≠ 0)
    (refused : p.divMod s c e t d f = .error signal) :
    p.quot (.finite s c e) (.finite t d f) = .error signal ∧
      p.rem (.finite s c e) (.finite t d f) = .error signal := by
  constructor
  · change (if d = 0 then _ else Prod.fst <$> p.divMod s c e t d f) = _
    rw [if_neg nonzero, refused]
    rfl
  · change (if d = 0 then _ else p.divMod s c e t d f >>= fun _ => _) = _
    rw [if_neg nonzero, refused]
    rfl

/-- The integer quotient and the remainder of two numbers are exact, unless the quotient has more
digits than the precision. -/
theorem quot_rem_cases (digits : 0 < p.digits) (left : a.toRat? = some x)
    (right : b.toRat? = some y) (nonzero : y ≠ 0) (written : p.Writes x) (written' : p.Writes y) :
    ∃ (k : ℤ) (z : ℚ), TruncatedDivision x y k z ∧
      ((|k| < 10 ^ p.digits ∧ (∃ q, p.quot a b = .ok q ∧ q.toRat? = some (k : ℚ)) ∧
          Gives (p.rem a b) z) ∨
        (10 ^ p.digits ≤ |k| ∧ p.quot a b = .error .divisionImpossible ∧
          p.rem a b = .error .divisionImpossible)) := by
  obtain ⟨s, c, e, rfl, rfl⟩ := Decimal.exists_of_toRat? left
  obtain ⟨t, d, f, rfl, rfl⟩ := Decimal.exists_of_toRat? right
  have divisor : d ≠ 0 := by
    rintro rfl
    exact nonzero (by simp)
  have divided := divMod_eq p s c e t f divisor
  set n := c * tens (e - min e f).toNat with n_def
  set m := d * tens (f - min e f).toNat with m_def
  have positive : m ≠ 0 := Nat.mul_ne_zero divisor (tens_pos _).ne'
  have division := truncated_of_coefficients s t n positive (min e f)
  rw [n_def, leveled_value s c (min_le_left e f), ← n_def, m_def,
    leveled_value t d (min_le_right e f), ← m_def] at division
  have size : |Decimal.signedCoefficient (s != t) (n / m)| = (n / m : Nat) := by
    cases s != t <;> simp [-Int.natCast_ediv]
  have bound : ((tens p.digits : Nat) : ℤ) = 10 ^ p.digits := by
    rw [tens_eq_pow]
    push_cast
    rfl
  refine ⟨_, _, division, ?_⟩
  rw [size, ← bound]
  by_cases large : tens p.digits ≤ n / m
  · rw [if_pos large] at divided
    exact .inr ⟨by exact_mod_cast large, quot_rem_of_error divisor divided⟩
  · rw [if_neg large] at divided
    obtain ⟨quot, rem⟩ := quot_rem_of_ok divisor divided
    refine .inl ⟨by exact_mod_cast not_le.1 large, ⟨_, quot, by simp [Decimal.toRat?]⟩, ?_⟩
    rw [rem]
    exact finish_gives digits rfl (division.writes written written')

end Precision

end Reckon
