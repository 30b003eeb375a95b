import Reckon.Decimal.Power
import Reckon.Proofs.Decimal.Rounding

/-!
# Exact decimal arithmetic

Every operation rounds its exact result once. A number that needs no more digits than the
precision has and lies in the exponent range is not changed by that (`rounded_eq_self`), so sums,
products, changed signs and powers of decimals are those of their values.

Results: `finish_exact`, from which `add_exact`, `sub_exact`, `mul_exact`, `neg_exact`,
`abs_exact`, `round_exact` and `powNat_exact`.
-/

namespace Reckon

namespace Precision

/-- Bringing an exact number into a precision that has room for it changes nothing. -/
theorem finish_exact {p : Precision} {s : Bool} {c : Nat} {e : ℤ} {q : ℚ}
    (value : (Decimal.signedCoefficient s c : ℚ) * 10 ^ e = q)
    (fits : Representable p.digits q) :
    ∃ r, p.finish s c e = .ok r ∧ r.toRat? = some q := by
  by_cases zero : c = 0
  · rw [zero] at value
    refine ⟨_, by rw [finish, if_pos zero], ?_⟩
    rw [Decimal.toRat?, ← value]
    simp
  have nonzero : q ≠ 0 := by
    rw [← abs_pos, ← value, Decimal.abs_value]
    exact mul_pos (by exact_mod_cast Nat.pos_of_ne_zero zero) (Decimal.ten_zpow_pos e)
  have digits := fits.short.pos nonzero
  have same := rounded_eq_self fits
  obtain ⟨r, done⟩ := exists_finish digits value
    (same.symm ▸ (fits.inRange.resolve_left nonzero).2)
  exact ⟨r, done, (finish_rounded digits value done).1.trans (congrArg some same)⟩

/-! ## Operations -/

variable {p : Precision} {a b : Decimal} {x y : ℚ}

theorem round_exact (value : a.toRat? = some x) (fits : Representable p.digits x) :
    ∃ r, p.round a = .ok r ∧ r.toRat? = some x := by
  obtain ⟨s, c, e, rfl, eq⟩ := Decimal.exists_of_toRat? value
  refine finish_exact ?_ fits
  rw [← eq]
  by_cases zero : c = 0
  · cases s <;> simp [zero]
  · have nonzero : (c != 0) = true := by simpa using zero
    rw [nonzero, Bool.and_true]

/-- Finite operands are computed with, not handed on. -/
theorem propagated_eq_none (left : a.toRat? = some x) (right : b.toRat? = some y) :
    propagated a b = none := by
  simp [propagated, Decimal.isSignaling_of_toRat? left, Decimal.isSignaling_of_toRat? right,
    Decimal.isNaN_of_toRat? left, Decimal.isNaN_of_toRat? right]

theorem addNumbers_exact (left : a.toRat? = some x) (right : b.toRat? = some y)
    (fits : Representable p.digits (x + y)) :
    ∃ r, p.addNumbers a b = .ok r ∧ r.toRat? = some (x + y) := by
  obtain ⟨s, c, e, rfl, rfl⟩ := Decimal.exists_of_toRat? left
  obtain ⟨t, d, f, rfl, rfl⟩ := Decimal.exists_of_toRat? right
  refine finish_exact ?_ fits
  rw [← Decimal.aligned_mul_zpow s c (min_le_left e f),
    ← Decimal.aligned_mul_zpow t d (min_le_right e f), ← add_mul]
  congr 1
  set sum := Decimal.aligned s c e (min e f) + Decimal.aligned t d f (min e f) with sum_def
  have signed : Decimal.signedCoefficient (if sum = 0 then s && t else decide (sum < 0))
      sum.natAbs = sum := by
    by_cases zero : sum = 0
    · simp [zero]
    · rw [if_neg zero, Decimal.signedCoefficient_natAbs]
  rw [signed, sum_def]
  push_cast
  rfl

theorem add_exact (left : a.toRat? = some x) (right : b.toRat? = some y)
    (fits : Representable p.digits (x + y)) :
    ∃ r, p.add a b = .ok r ∧ r.toRat? = some (x + y) := by
  rw [add, propagated_eq_none left right]
  exact addNumbers_exact left right fits

theorem sub_exact (left : a.toRat? = some x) (right : b.toRat? = some y)
    (fits : Representable p.digits (x - y)) :
    ∃ r, p.sub a b = .ok r ∧ r.toRat? = some (x - y) := by
  rw [sub_eq_add_neg] at fits ⊢
  rw [sub, propagated_eq_none left right]
  exact addNumbers_exact left (Decimal.toRat?_flip right) fits

theorem mul_exact (left : a.toRat? = some x) (right : b.toRat? = some y)
    (fits : Representable p.digits (x * y)) :
    ∃ r, p.mul a b = .ok r ∧ r.toRat? = some (x * y) := by
  have computed := propagated_eq_none left right
  obtain ⟨s, c, e, rfl, rfl⟩ := Decimal.exists_of_toRat? left
  obtain ⟨t, d, f, rfl, rfl⟩ := Decimal.exists_of_toRat? right
  rw [mul, computed]
  refine finish_exact ?_ fits
  rw [zpow_add₀ (by norm_num)]
  cases s <;> cases t <;> simp <;> ring

theorem neg_exact (value : a.toRat? = some x) (fits : Representable p.digits x) :
    ∃ r, p.neg a = .ok r ∧ r.toRat? = some (-x) := by
  have flipped := Decimal.toRat?_flip value
  obtain ⟨s, c, e, rfl, -⟩ := Decimal.exists_of_toRat? value
  exact round_exact flipped fits.neg

theorem abs_exact (value : a.toRat? = some x) (fits : Representable p.digits x) :
    ∃ r, p.abs a = .ok r ∧ r.toRat? = some |x| := by
  obtain ⟨s, c, e, rfl, eq⟩ := Decimal.exists_of_toRat? value
  refine finish_exact ?_ fits.abs
  rw [← eq, Decimal.abs_value]
  simp

end Precision

/-! ## Powers

A power of a number has no fewer significant digits than the lower powers of it, so a power that
fits into the precision is found without rounding on the way. -/

/-- Every number has a coefficient that does not end in a zero. -/
theorem exists_coefficient {n : ℤ} (nonzero : n ≠ 0) (e : ℤ) :
    ∃ c f : ℤ, (n : ℚ) * 10 ^ e = c * 10 ^ f ∧ ¬ (10 : ℤ) ∣ c := by
  induction h : n.natAbs using Nat.strongRecOn generalizing n e with
  | ind size ih =>
    by_cases divides : (10 : ℤ) ∣ n
    · obtain ⟨m, rfl⟩ := divides
      have some_left : m ≠ 0 := by
        rintro rfl
        exact nonzero (mul_zero _)
      obtain ⟨c, f, value, last⟩ := ih m.natAbs (by omega) some_left (e + 1) rfl
      refine ⟨c, f, ?_, last⟩
      rw [← value, zpow_add₀ (by norm_num)]
      push_cast
      ring
    · exact ⟨n, e, rfl, divides⟩

/-- A coefficient that does not end in a zero is the smallest one. -/
theorem abs_le_of_not_dvd {c d e f : ℤ} (last : ¬ (10 : ℤ) ∣ c)
    (same : (c : ℚ) * 10 ^ e = d * 10 ^ f) : |c| ≤ |d| := by
  rcases le_or_gt f e with below | above
  · have shifted : ((e - f).toNat : ℤ) = e - f := Int.toNat_of_nonneg (by omega)
    have scale : (10 : ℚ) ^ e = 10 ^ (e - f) * 10 ^ f := by
      rw [← zpow_add₀ (by norm_num)]
      congr 1
      omega
    rw [scale, ← mul_assoc] at same
    have cancelled := mul_right_cancel₀ (Decimal.ten_zpow_pos f).ne' same
    rw [← shifted, ← cast_tens] at cancelled
    have equal : d = c * (tens (e - f).toNat : ℤ) := by exact_mod_cast cancelled.symm
    rw [equal, abs_mul, Nat.abs_cast]
    exact le_mul_of_one_le_right (abs_nonneg c) (by exact_mod_cast tens_pos _)
  · exfalso
    have shifted : ((f - e - 1).toNat : ℤ) = f - e - 1 := Int.toNat_of_nonneg (by omega)
    have scale : (10 : ℚ) ^ f = 10 ^ (f - e - 1) * 10 * 10 ^ e := by
      rw [← zpow_add_one₀ (by norm_num), ← zpow_add₀ (by norm_num)]
      congr 1
      omega
    rw [scale, ← mul_assoc] at same
    have cancelled := mul_right_cancel₀ (Decimal.ten_zpow_pos e).ne' same
    rw [← shifted, ← cast_tens] at cancelled
    have equal : c = d * ((tens (f - e - 1).toNat : ℤ) * 10) := by exact_mod_cast cancelled
    exact last ⟨d * tens (f - e - 1).toNat, by rw [equal]; ring⟩

theorem not_ten_dvd_pow {c : ℤ} (last : ¬ (10 : ℤ) ∣ c) (n : Nat) : ¬ (10 : ℤ) ∣ c ^ n := by
  intro divides
  have two : Prime (2 : ℤ) := Int.prime_two
  have five : Prime (5 : ℤ) := by norm_num
  have even : (2 : ℤ) ∣ c := two.dvd_of_dvd_pow (dvd_trans (by norm_num) divides)
  have quintuple : (5 : ℤ) ∣ c := five.dvd_of_dvd_pow (dvd_trans (by norm_num) divides)
  exact last (by omega)

theorem HasDigits.pow_le {digits m n : Nat} {q : ℚ} (short : HasDigits digits q)
    (power : HasDigits digits (q ^ n)) (positive : 0 < m) (lower : m ≤ n) :
    HasDigits digits (q ^ m) := by
  obtain ⟨d, g, rfl, -⟩ := short
  by_cases zero : d = 0
  · exact ⟨0, 0, by simp [zero, positive.ne'], by simp⟩
  obtain ⟨c, e, value, last⟩ := exists_coefficient zero g
  have expand : ∀ k : Nat, ((d : ℚ) * 10 ^ g) ^ k = ((c ^ k : ℤ) : ℚ) * 10 ^ (e * k) := by
    intro k
    rw [value, mul_pow, Int.cast_pow, zpow_mul, zpow_natCast]
  obtain ⟨w, f, whole, bound⟩ := power
  rw [expand n] at whole
  have least := abs_le_of_not_dvd (not_ten_dvd_pow last n) whole
  refine ⟨c ^ m, e * m, expand m, lt_of_le_of_lt ?_ (lt_of_le_of_lt least bound)⟩
  rw [abs_pow, abs_pow]
  have one : 1 ≤ |c| := Int.one_le_abs (by rintro rfl; exact last (dvd_zero _))
  exact pow_le_pow_right₀ one lower

theorem InRange.pow_le {m n : Nat} {q : ℚ} (inside : InRange q) (power : InRange (q ^ n))
    (positive : 0 < m) (lower : m ≤ n) : InRange (q ^ m) := by
  by_cases zero : q = 0
  · exact Or.inl (by simp [zero, positive.ne'])
  obtain ⟨above, below⟩ := inside.resolve_left zero
  obtain ⟨above', below'⟩ := power.resolve_left (pow_ne_zero n zero)
  right
  rw [abs_pow] at above' below' ⊢
  rcases le_or_gt |q| 1 with small | large
  · exact ⟨above'.trans (pow_le_pow_of_le_one (abs_nonneg q) small lower),
      (pow_le_of_le_one (abs_nonneg q) small positive.ne').trans_lt below⟩
  · exact ⟨above.trans (le_self_pow₀ large.le positive.ne'),
      (pow_le_pow_right₀ large.le lower).trans_lt below'⟩

theorem Representable.pow_le {digits m n : Nat} {q : ℚ} (exact : Representable digits q)
    (power : Representable digits (q ^ n)) (positive : 0 < m) (lower : m ≤ n) :
    Representable digits (q ^ m) :=
  ⟨exact.short.pow_le power.short positive lower,
    exact.inRange.pow_le power.inRange positive lower⟩

namespace Precision

/-- Squaring and multiplying rounds nothing if the power fits. -/
theorem powerBySquaring_exact {p : Precision} {a : Decimal} {q : ℚ} {n : Nat}
    (value : a.toRat? = some q) (positive : 0 < n) (base : Representable p.digits q)
    (fits : Representable p.digits (q ^ n)) :
    ∃ r, p.powerBySquaring a n = .ok r ∧ r.toRat? = some (q ^ n) := by
  induction n using Nat.strongRecOn with
  | ind n ih =>
    rw [powerBySquaring]
    by_cases one : n ≤ 1
    · have last : n = 1 := by omega
      exact ⟨a, by rw [if_pos one], by rw [last, pow_one, value]⟩
    rw [if_neg one]
    obtain ⟨root, found, rootValue⟩ := ih (n / 2) (by omega) (by omega)
      (base.pow_le fits (by omega) (by omega))
    have half : Representable p.digits (q ^ (n / 2) * q ^ (n / 2)) := by
      rw [← pow_add]
      exact base.pow_le fits (by omega) (by omega)
    obtain ⟨square, squared, squareValue⟩ := mul_exact rootValue rootValue half
    rw [← pow_add] at squareValue
    by_cases odd : n % 2 = 1
    · have whole : q ^ (n / 2 + n / 2) * q = q ^ n := by
        rw [← pow_succ]
        congr 1
        omega
      obtain ⟨r, product, rValue⟩ := mul_exact squareValue value (by rwa [whole])
      refine ⟨r, ?_, by rw [rValue, whole]⟩
      rw [found]
      change (do let square ← p.mul root root; if n % 2 = 1 then p.mul square a else .ok square) = _
      rw [squared]
      change (if n % 2 = 1 then p.mul square a else .ok square) = _
      rw [if_pos odd, product]
    · refine ⟨square, ?_, by rw [squareValue]; congr 2; omega⟩
      rw [found]
      change (do let square ← p.mul root root; if n % 2 = 1 then p.mul square a else .ok square) = _
      rw [squared]
      change (if n % 2 = 1 then p.mul square a else .ok square) = _
      rw [if_neg odd]

theorem paddedOne_value (p : Precision) (negative : Bool) (shift : Nat) :
    (p.paddedOne negative shift).toRat? = some (Decimal.signedCoefficient negative 1 : ℚ) := by
  simp only [paddedOne, Decimal.toRat?, Option.some.injEq]
  have cancel : (10 : ℚ) ^ ((min shift (p.digits - 1) : Nat) : ℤ) *
      10 ^ (-((min shift (p.digits - 1) : Nat) : ℤ)) = 1 := by
    rw [← zpow_add₀ (by norm_num)]
    simp
  cases negative
  · rw [Decimal.signedCoefficient_false, Int.cast_natCast, cast_tens, cancel]
    simp
  · rw [Decimal.signedCoefficient_true, Int.cast_neg, Int.cast_natCast, cast_tens, neg_mul, cancel]
    simp

/-- The sign of a power is that of the base for odd exponents. -/
theorem pow_signed (s : Bool) (c : Nat) (e : ℤ) (n : Nat) :
    ((Decimal.signedCoefficient s c : ℚ) * 10 ^ e) ^ n =
      Decimal.signedCoefficient (s && n % 2 == 1) 1 * ((c : ℚ) * 10 ^ e) ^ n := by
  cases s
  · simp
  · rw [Decimal.signedCoefficient_true, Int.cast_neg, Int.cast_natCast, neg_mul, Bool.true_and]
    rcases Nat.even_or_odd n with even | odd
    · rw [even.neg_pow, Nat.even_iff.1 even]
      simp
    · rw [odd.neg_pow, Nat.odd_iff.1 odd]
      simp

/-- Equal magnitudes with equal signs: the coefficient of a power under the sign it must have. -/
theorem signedCoefficient_of_sign {s t : Bool} {m : Nat} {k : ℤ} {w : ℚ} (positive : 0 < w)
    (value : (Decimal.signedCoefficient s m : ℚ) * 10 ^ k = Decimal.signedCoefficient t 1 * w) :
    s = t := by
  have power := Decimal.ten_zpow_pos k
  have nonneg : (0 : ℚ) ≤ m := Nat.cast_nonneg m
  cases s <;> cases t
  · rfl
  · simp only [Decimal.signedCoefficient_false, Decimal.signedCoefficient_true] at value
    push_cast at value
    nlinarith [mul_nonneg nonneg power.le]
  · simp only [Decimal.signedCoefficient_false, Decimal.signedCoefficient_true] at value
    push_cast at value
    nlinarith [mul_nonneg nonneg power.le]
  · rfl

/-- A power with a positive whole exponent that fits into the precision is exact. -/
theorem powNat_exact {p : Precision} {a : Decimal} {q : ℚ} {n : Nat}
    (value : a.toRat? = some q) (positive : 0 < n) (base : Representable p.digits q)
    (fits : Representable p.digits (q ^ n)) :
    ∃ r, p.powNat a n = .ok r ∧ r.toRat? = some (q ^ n) := by
  obtain ⟨s, c, e, rfl, eq⟩ := Decimal.exists_of_toRat? value
  rw [powNat]
  by_cases zero : c = 0
  · rw [if_pos zero]
    refine ⟨_, rfl, ?_⟩
    rw [← eq, zero, Decimal.toRat?]
    simp [positive.ne']
  rw [if_neg zero]
  have magnitude : (Decimal.finite false c e).toRat? = some ((c : ℚ) * 10 ^ e) := by
    simp [Decimal.toRat?]
  have signedPower := pow_signed s c e n
  rw [eq] at signedPower
  by_cases unit : (Decimal.finite false c e).same 1 = true
  · rw [if_pos unit]
    refine ⟨_, rfl, ?_⟩
    have one := (Decimal.same_iff magnitude Decimal.toRat?_one).1 unit
    rw [paddedOne_value, signedPower, one, one_pow, mul_one]
    rfl
  rw [if_neg unit]
  have more : p.digits ≤ (halfEven (p.digits + powerGuard n)).digits := Nat.le_add_right _ _
  obtain ⟨r, found, rValue⟩ :=
    powerBySquaring_exact value positive (base.mono more) (fits.mono more)
  obtain ⟨t, m, k, rfl, whole⟩ := Decimal.exists_of_toRat? rValue
  rw [found]
  change ∃ r, p.finish ((Decimal.finite s c e).signed && n % 2 == 1) m k = .ok r ∧ _
  refine finish_exact ?_ fits
  rw [← whole]
  have nonzero : (0 : ℚ) < ((c : ℚ) * 10 ^ e) ^ n :=
    pow_pos (mul_pos (by exact_mod_cast Nat.pos_of_ne_zero zero) (Decimal.ten_zpow_pos e)) n
  rw [signedCoefficient_of_sign nonzero (whole.trans signedPower)]
  rfl

end Precision

end Reckon
