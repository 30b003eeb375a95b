import Mathlib.Data.Nat.Fib.Basic
import Reckon.Proofs.Decimal.Division
import Reckon.Proofs.Native

/-!
# Greatest common factors

`gcf` is Euclid's algorithm with remainders toward zero, which may be negative. A step keeps the
greatest common divisor, and no quotient is too long, because it is no larger than the dividend. The
numbers fall as the Fibonacci numbers do, so that the fuel, which is counted from the digits between
the first and the last place of the two numbers, is enough.

Results: `runs_of_lt_fib`, `gcf_eq_gcd`.
-/

namespace Reckon

/-- Six numbers further on, a Fibonacci number has a digit more. -/
theorem pow_le_fib (d : Nat) : 10 ^ d ≤ Nat.fib (6 * d + 1) := by
  induction d with
  | zero => simp
  | succ d ih =>
    have grows : Nat.fib (6 * d + 1) ≤ Nat.fib (6 * d + 2) := Nat.fib_le_fib_succ
    have further : Nat.fib (6 * (d + 1) + 1) =
        8 * Nat.fib (6 * d + 2) + 5 * Nat.fib (6 * d + 1) := by
      have sum := Nat.fib_add (6 * d + 1) 5
      rw [show 6 * (d + 1) + 1 = 6 * d + 1 + 5 + 1 by ring, sum]
      simp only [show Nat.fib 5 = 5 from rfl, show Nat.fib (5 + 1) = 8 from rfl]
      ring
    rw [pow_succ, further]
    omega

namespace Rule

/-- Euclid's algorithm comes to its end with this result after so many remainders. -/
inductive Ends (p : Precision) : Nat → Decimal → Decimal → Except Signal Decimal → Prop
  | zero {a b : Decimal} (zero : b.isZero = true) : Ends p 0 a b (p.abs a)
  | failed {a b : Decimal} {s : Signal} (nonzero : b.isZero = false)
      (failed : p.rem a b = .error s) : Ends p 1 a b (.error s)
  | step {n : Nat} {a b r : Decimal} {result : Except Signal Decimal} (nonzero : b.isZero = false)
      (remainder : p.rem a b = .ok r) (rest : Ends p n b r result) : Ends p (n + 1) a b result

variable {p : Precision} {n : Nat} {a b : Decimal} {result : Except Signal Decimal} {i j : ℤ}

/-- Where the algorithm comes to its end, enough fuel is as good as any. -/
theorem Ends.euclid_eq (ends : Ends p n a b result) {fuel : Nat} (enough : n ≤ fuel) :
    euclid p fuel a b = result := by
  induction ends generalizing fuel with
  | zero zero =>
    cases fuel with
    | zero => rfl
    | succ fuel => rw [euclid, if_pos zero]
  | failed nonzero failed =>
    obtain ⟨fuel, rfl⟩ := Nat.exists_eq_add_of_le' enough
    rw [euclid, nonzero, if_neg Bool.false_ne_true, failed]
    rfl
  | step nonzero remainder rest ih =>
    obtain ⟨fuel, rfl⟩ := Nat.exists_eq_add_of_le' enough
    rw [← Nat.add_assoc, euclid, nonzero, if_neg Bool.false_ne_true, remainder]
    exact ih (by omega)

/-! ## One step -/

/-- Two decimals stand for integers with no more digits than the precision. -/
structure Operands (p : Precision) (a b : Decimal) (i j : ℤ) : Prop where
  left : a.toRat? = some (i : ℚ)
  right : b.toRat? = some (j : ℚ)
  short : |i| < 10 ^ p.digits
  short' : |j| < 10 ^ p.digits

theorem Operands.isZero_eq (operands : Operands p a b i j) (nonzero : j ≠ 0) :
    b.isZero = false :=
  Decimal.isZero_eq_false operands.right (Int.cast_ne_zero.2 nonzero)

/-- Divisor and remainder are the operands of the next step. -/
theorem Operands.next {r : Decimal} {k m : ℤ} (operands : Operands p a b i j)
    (division : TruncatedDivision (i : ℚ) (j : ℚ) k (m : ℚ)) (value : r.toRat? = some (m : ℚ)) :
    Operands p b r j m where
  left := operands.right
  right := value
  short := operands.short'
  short' := lt_trans (by exact_mod_cast division.less) operands.short'

/-- The quotient of integers never has more digits than the precision. -/
theorem Operands.rem_gives (digits : 0 < p.digits) (operands : Operands p a b i j)
    (nonzero : j ≠ 0) : ∃ k m : ℤ, TruncatedDivision (i : ℚ) (j : ℚ) k (m : ℚ) ∧
      Precision.Gives (p.rem a b) m := by
  obtain ⟨k, z, division, found⟩ := Precision.quot_rem_cases digits operands.left operands.right
    (Int.cast_ne_zero.2 nonzero) (Precision.writes_int operands.short)
    (Precision.writes_int operands.short')
  have whole : z = ((i - j * k : ℤ) : ℚ) := by
    push_cast
    exact eq_sub_of_add_eq' division.sum.symm
  have le : |(k : ℚ)| ≤ |(i : ℚ)| :=
    division.abs_quotient_le (by exact_mod_cast Int.one_le_abs nonzero)
  have few : |k| < 10 ^ p.digits := lt_of_le_of_lt (by exact_mod_cast le) operands.short
  rw [whole] at division found
  rcases found with ⟨-, -, given⟩ | ⟨long, -⟩
  · exact ⟨k, _, division, given⟩
  · exact absurd few long.not_gt

/-- The result is the greatest common divisor, unless a number on the way is too large: then the
second operand is, or the first one if it is the last that is not zero. -/
def Finds (result : Except Signal Decimal) (i j : ℤ) : Prop :=
  (∃ g, result = .ok g ∧ g.toRat? = some (Int.gcd i j : ℚ) ∧
      (Int.gcd i j : ℚ) < 10 ^ (maxExponent + 1)) ∨
    result = .error .overflow ∧
      (10 ^ (maxExponent + 1) ≤ |(i : ℚ)| ∧ j = 0 ∨ 10 ^ (maxExponent + 1) ≤ |(j : ℚ)|)

/-- A step of the algorithm keeps the greatest common divisor. -/
theorem Finds.of_step {k m : ℤ} (division : TruncatedDivision (i : ℚ) (j : ℚ) k (m : ℚ))
    (found : Finds result j m) : Finds result i j := by
  have same : Int.gcd i j = Int.gcd j m := by
    rw [division.sum_int, Int.gcd_add_mul_left_left, Int.gcd_comm]
  rw [Finds, same]
  refine found.imp_right (And.imp_right fun large => .inr ?_)
  rcases large with ⟨large, -⟩ | large
  · exact large
  · exact large.trans division.less.le

/-! ## All steps -/

/-- In so many steps the algorithm comes to its end. -/
def Runs (p : Precision) (n : Nat) (a b : Decimal) (i j : ℤ) : Prop :=
  ∃ steps ≤ n, ∃ result, Ends p steps a b result ∧ Finds result i j

theorem runs_zero (digits : 0 < p.digits) (operands : Operands p a b i 0) : Runs p n a b i 0 := by
  have zero : b.isZero = true := (Decimal.isZero_iff operands.right).2 Int.cast_zero
  refine ⟨0, n.zero_le, _, .zero zero, ?_⟩
  have size : |(i : ℚ)| = (Int.gcd i 0 : ℚ) := by
    rw [Int.gcd_zero_right, Nat.cast_natAbs, Int.cast_abs]
  rcases Precision.abs_gives digits operands.left (Precision.writes_int operands.short) with
    ⟨g, done, value, below⟩ | ⟨failed, large⟩
  · rw [size] at value
    rw [abs_abs, size] at below
    exact .inl ⟨g, done, value, below⟩
  · rw [abs_abs] at large
    exact .inr ⟨failed, .inl ⟨large, rfl⟩⟩

/-- One remainder brings the algorithm one step on. -/
theorem runs_succ (digits : 0 < p.digits) (operands : Operands p a b i j)
    (rest : ∀ {r : Decimal} {k m : ℤ}, TruncatedDivision (i : ℚ) (j : ℚ) k (m : ℚ) →
      Operands p b r j m → Runs p n b r j m) : Runs p (n + 1) a b i j := by
  by_cases zero : j = 0
  · subst zero
    exact runs_zero digits operands
  have visible := operands.isZero_eq zero
  obtain ⟨k, m, division, ⟨r, done, value, -⟩ | ⟨failed, large⟩⟩ :=
    operands.rem_gives digits zero
  · obtain ⟨steps, few, result, ends, found⟩ := rest division (operands.next division value)
    exact ⟨steps + 1, by omega, result, .step visible done ends, found.of_step division⟩
  · exact ⟨1, by omega, _, .failed visible failed,
      .inr ⟨rfl, .inr (large.trans division.less.le)⟩⟩

/-- If the second operand is less than a Fibonacci number times a common divisor, the algorithm
takes fewer steps than the index of that number: a remainder and the next one together are no
larger than the number before them. -/
theorem runs_of_lt_fib (digits : 0 < p.digits) {w : ℤ} (n : Nat) :
    ∀ {a b : Decimal} {i j : ℤ}, Operands p a b i j → w ∣ i → w ∣ j →
      |j| < Nat.fib (n + 1) * w → Runs p n a b i j := by
  have none : ∀ {n a b i j}, Operands p a b i j → w ∣ j → |j| < w → Runs p n a b i j := by
    intro n a b i j operands divides less
    obtain rfl := Int.eq_zero_of_abs_lt_dvd divides less
    exact runs_zero digits operands
  induction n using Nat.twoStepInduction with
  | zero => exact fun operands _ divides less => none operands divides (by simpa using less)
  | one => exact fun operands _ divides less => none operands divides (by simpa using less)
  | more n ih ih' =>
    intro a b i j operands divides divides' less
    refine runs_succ digits operands fun {r k m} division operands' => ?_
    have last : w ∣ m := (Int.dvd_add_left (divides'.mul_right k)).1 (division.sum_int ▸ divides)
    by_cases small : |m| < Nat.fib (n + 2) * w
    · exact ih' operands' divides' last small
    refine runs_succ digits operands' fun {r' k' m'} division' operands'' => ?_
    have last' : w ∣ m' := (Int.dvd_add_left (last.mul_right k')).1 (division'.sum_int ▸ divides')
    have room : |m| + |m'| ≤ |j| := by exact_mod_cast division'.abs_add_le division.less.le
    have fib : (Nat.fib (n + 3) : ℤ) = Nat.fib (n + 1) + Nat.fib (n + 2) := by
      exact_mod_cast Nat.fib_add_two
    refine ih operands'' last last' ?_
    rw [fib, add_mul] at less
    omega

/-! ## Fuel -/

/-- An integer has the factors of ten that its exponent tells. -/
theorem pow_dvd_of_value {s : Bool} {c : Nat} {e : ℤ} {k : Nat} (le : k = 0 ∨ (k : ℤ) ≤ e)
    (value : (Decimal.signedCoefficient s c : ℚ) * 10 ^ e = i) : (10 : ℤ) ^ k ∣ i := by
  rcases le with rfl | le
  · simp
  obtain ⟨n, scaled⟩ := Precision.exists_scaled (Decimal.signedCoefficient s c) le
  rw [value, zpow_natCast] at scaled
  exact ⟨n, by rw [mul_comm]; exact_mod_cast scaled⟩

/-- The digits of two integers over the lower one of their exponents are those that are counted. -/
theorem exists_divisor (left : a.toRat? = some (i : ℚ)) (right : b.toRat? = some (j : ℚ)) :
    ∃ w : ℤ, w ∣ i ∧ w ∣ j ∧ |j| < 10 ^ span a b * w := by
  obtain ⟨s, c, e, rfl, value⟩ := Decimal.exists_of_toRat? left
  obtain ⟨t, d, f, rfl, value'⟩ := Decimal.exists_of_toRat? right
  refine ⟨10 ^ (min e f).toNat, pow_dvd_of_value (by omega) value,
    pow_dvd_of_value (by omega) value', ?_⟩
  have counted : span (.finite s c e) (.finite t d f) =
      digitCount c + digitCount d + (e - f).natAbs := rfl
  rw [counted, ← pow_add]
  have upper : |(j : ℚ)| <
      10 ^ ((digitCount c + digitCount d + (e - f).natAbs + (min e f).toNat : Nat) : ℤ) := by
    rw [← value', Decimal.abs_value]
    exact Precision.coefficient_lt (by omega)
  rw [zpow_natCast] at upper
  exact_mod_cast upper

theorem Operands.runs (digits : 0 < p.digits) (operands : Operands p a b i j) :
    Runs p (6 * span a b) a b i j := by
  obtain ⟨w, divides, divides', less⟩ := exists_divisor operands.left operands.right
  have positive : 0 < w := by
    refine pos_of_mul_pos_right ((abs_nonneg j).trans_lt less) ?_
    positivity
  have fib : (10 : ℤ) ^ span a b ≤ Nat.fib (6 * span a b + 1) := by
    exact_mod_cast pow_le_fib (span a b)
  exact runs_of_lt_fib digits _ operands divides divides'
    (less.trans_le (mul_le_mul_of_nonneg_right fib positive.le))

theorem eval_commonFactor (operands : Operands p a b i j) (nonzero : j ≠ 0)
    (ends : Ends p n a b result) (few : n ≤ 6 * span a b) :
    commonFactor.eval p [a, b] = Value.decimal <$> liftSignal result := by
  rw [eval, commonFactorOf, operands.isZero_eq nonzero, if_neg Bool.false_ne_true,
    ends.euclid_eq (by omega)]

end Rule

namespace Native

variable (precision : Nat) (unit : AngleUnit) {gcf : Native} {a b : Decimal} {i j : ℤ}

/-- What the algorithm finds is the result. -/
theorem commonFactor_apply (isGcf : gcf.IsPair .commonFactor)
    (operands : Rule.Operands (nativePrecision precision) a b i j) (nonzero : j ≠ 0) :
    ∃ steps result, Rule.Ends (nativePrecision precision) steps a b result ∧
      ((∃ r, gcf.apply precision unit [.numeric a, .numeric b] = .ok (.numeric r) ∧
          r.toRat? = some (Int.gcd i j : ℚ) ∧ (Int.gcd i j : ℚ) < 10 ^ (maxExponent + 1)) ∨
        gcf.apply precision unit [.numeric a, .numeric b] = .error (.signal .overflow) ∧
          10 ^ (maxExponent + 1) ≤ |(j : ℚ)|) := by
  obtain ⟨steps, few, result, ends, found⟩ :=
    operands.runs (nativePrecision_digits_pos precision)
  have evaluated := Rule.eval_commonFactor operands nonzero ends few
  refine ⟨steps, result, ends, ?_⟩
  rcases found with ⟨g, rfl, value, below⟩ | ⟨rfl, large⟩
  · left
    have least : (Int.gcd i j : ℤ) ≤ |j| := by
      rw [Int.abs_eq_natAbs]
      exact_mod_cast Nat.gcd_le_right i.natAbs (Int.natAbs_pos.2 nonzero)
    have written : (nativePrecision precision).Writes ((Int.gcd i j : ℤ) : ℚ) :=
      Precision.writes_int (by rw [Nat.abs_cast]; exact least.trans_lt operands.short')
    obtain ⟨r, done, rValue⟩ := isGcf.apply_held evaluated value ⟨written, by simpa using below⟩
    exact ⟨r, done, rValue, below⟩
  · exact .inr ⟨isGcf.apply_error evaluated, large.resolve_left fun h => nonzero h.2⟩

/-- `gcf` is the greatest common divisor of all integers with no more digits than the precision of
the rules has: it always ends, it refuses zero as the second number only, and no quotient on the way
is too long. It is an overflow only if the second number is beyond the exponent range. -/
theorem gcf_eq_gcd (member : gcf ∈ all) (name : gcf.name = "gcf") (left : a.toRat? = some (i : ℚ))
    (right : b.toRat? = some (j : ℚ)) (short : |i| < 10 ^ (precision + guardDigits))
    (short' : |j| < 10 ^ (precision + guardDigits)) :
    (j = 0 → gcf.apply precision unit [.numeric a, .numeric b] =
      .error (.division (.gcfByZero a.scientific))) ∧
    (j ≠ 0 → (∃ steps result, Rule.Ends (nativePrecision precision) steps a b result) ∧
      ((∃ r, gcf.apply precision unit [.numeric a, .numeric b] = .ok (.numeric r) ∧
          r.toRat? = some (Int.gcd i j : ℚ)) ∨
        gcf.apply precision unit [.numeric a, .numeric b] = .error (.signal .overflow) ∧
          10 ^ (maxExponent + 1) ≤ |(j : ℚ)|)) := by
  have isGcf : gcf.IsPair .commonFactor := isPair_of_name member (by rw [name]; rfl)
  constructor
  · rintro rfl
    have zero : b.isZero = true := (Decimal.isZero_iff right).2 Int.cast_zero
    refine isGcf.apply_error ?_
    rw [Rule.eval, Rule.commonFactorOf, if_pos zero]
    rfl
  · intro nonzero
    obtain ⟨steps, result, ends, outcome⟩ :=
      commonFactor_apply precision unit isGcf ⟨left, right, short, short'⟩ nonzero
    exact ⟨⟨steps, result, ends⟩, outcome.imp_left fun ⟨r, done, value, _⟩ => ⟨r, done, value⟩⟩

/-- Minus twelve and thirty have the factor six in common. -/
theorem gcf_eq_gcd_thirty : ∃ gcf ∈ all, gcf.name = "gcf" ∧ ∃ r,
    gcf.apply 10 .radians [.numeric (.finite true 12 0), .numeric (.finite false 3 1)] =
      .ok (.numeric r) ∧ r.toRat? = some 6 := by
  obtain ⟨gcf, member, name⟩ : ∃ n ∈ all, n.name = "gcf" := by decide +kernel
  have left : (Decimal.finite true 12 0).toRat? = some ((-12 : ℤ) : ℚ) := by
    norm_num [Decimal.toRat?]
  have right : (Decimal.finite false 3 1).toRat? = some ((30 : ℤ) : ℚ) := by
    norm_num [Decimal.toRat?]
  obtain ⟨-, outcome⟩ := gcf_eq_gcd 10 .radians member name left right (by decide) (by decide)
  obtain ⟨-, ⟨r, done, value⟩ | ⟨-, large⟩⟩ := outcome (by decide)
  · exact ⟨gcf, member, name, r, done, value⟩
  · have small : |((30 : ℤ) : ℚ)| ≤ 10 ^ (2 : ℤ) := by norm_num
    exact absurd large (small.trans_lt (zpow_lt_zpow_right₀ (by norm_num) (by decide))).not_ge

/-- With a precision beyond the exponent range an integer can be short enough and too large. -/
theorem gcf_overflow : ∃ gcf ∈ all, gcf.name = "gcf" ∧
    (Decimal.finite false 1 1000000).toRat? = some ((10 ^ 1000000 : ℤ) : ℚ) ∧
    |(10 : ℤ) ^ 1000000| < 10 ^ (999996 + guardDigits) ∧
    gcf.apply 999996 .radians
      [.numeric (.finite false 1 1000000), .numeric (.finite false 1 1000000)] =
        .error (.signal .overflow) := by
  obtain ⟨gcf, member, name⟩ : ∃ n ∈ all, n.name = "gcf" := by decide +kernel
  have value : (Decimal.finite false 1 1000000).toRat? = some ((10 ^ 1000000 : ℤ) : ℚ) := by
    rw [Decimal.toRat?_tens, Int.cast_pow, Int.cast_ofNat, ← zpow_natCast]
    rfl
  have short : |(10 : ℤ) ^ 1000000| < 10 ^ (999996 + guardDigits) := by
    rw [abs_of_pos (pow_pos (by norm_num) _)]
    exact pow_lt_pow_right₀ (by norm_num) (by decide)
  obtain ⟨-, -, -, ⟨-, -, -, below⟩ | ⟨overflow, -⟩⟩ :=
    commonFactor_apply 999996 .radians (isPair_of_name member (by rw [name]; rfl))
      ⟨value, value, short, short⟩ (pow_ne_zero _ (by norm_num))
  · rw [Int.gcd_self, Nat.cast_natAbs, abs_of_pos (pow_pos (by norm_num) _), Int.cast_pow,
      Int.cast_ofNat, ← zpow_natCast] at below
    exact absurd below (zpow_le_zpow_right₀ (by norm_num) (by decide)).not_gt
  · exact ⟨gcf, member, name, value, short, overflow⟩

end Native

end Reckon
