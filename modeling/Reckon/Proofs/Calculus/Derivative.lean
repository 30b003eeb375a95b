import Mathlib
import Reckon.Calculus.Derivative
import Reckon.Proofs.Calc
import Reckon.Proofs.Decimal.Exact
import Reckon.Proofs.Expr.Meaning

/-!
# The derivative of a rational function

The derivative of a tree of sums, products, quotients and whole powers is checked against dual
numbers: the coefficient of `ε` in the value of the tree where the variable is moved by `ε`.

1. `Expr.DenotesAt`: a tree has a value at a point, no denominator and no base of a negative power
   being zero there. The builders keep it (`DenotesAt.buildSum` and so on).
2. `Interpretation.dual`: arithmetic on dual numbers, with the power rule `snd_dual_power`.
3. `derivative_denotes_dual`: the derivative exists and denotes the coefficient of `ε`.
-/

namespace Reckon

open TrivSqZeroExt
open scoped DualNumber

/-! ## Trees with a value at a point -/

namespace Expr

/-- A literal under signs that stands for a whole number. -/
inductive IsInteger : Expr → ℤ → Prop
  | literal {a : Decimal} {written : Bool} {n : ℤ} (value : a.toRat? = some (n : ℚ)) :
      IsInteger (.literal a written) n
  | unary {sign : Sign} {e : Expr} {n : ℤ} (operand : IsInteger e n) :
      IsInteger (.unary sign e) (signed sign n)

/-- The tree of a rational function: literals, variables, signs, the four operations and powers
whose exponent is a whole number of at most twenty-eight digits. -/
inductive IsRational : Expr → Prop
  | literal {a : Decimal} {written : Bool} {q : ℚ} (value : a.toRat? = some q) :
      IsRational (.literal a written)
  | var {name : String} : IsRational (.var name)
  | unary {sign : Sign} {e : Expr} (operand : IsRational e) : IsRational (.unary sign e)
  | sum {attached : Bool} {l r : Expr} (left : IsRational l) (right : IsRational r) :
      IsRational (.binary .plus attached l r)
  | difference {attached : Bool} {l r : Expr} (left : IsRational l) (right : IsRational r) :
      IsRational (.binary .minus attached l r)
  | product {attached : Bool} {l r : Expr} (left : IsRational l) (right : IsRational r) :
      IsRational (.binary .times attached l r)
  | quotient {attached : Bool} {l r : Expr} (left : IsRational l) (right : IsRational r) :
      IsRational (.binary .divide attached l r)
  | power {attached : Bool} {base exponent : Expr} {n : ℤ} (left : IsRational base)
      (whole : IsInteger exponent n) (short : |n| < 10 ^ ambientDigits) :
      IsRational (.binary .power attached base exponent)

/-- No denominator and no base of a negative power is zero at the point. -/
def DefinedAt (ρ : String → ℚ) : Expr → Prop
  | .literal a _ => a.toRat?.isSome
  | .var _ => True
  | .unary _ e => e.DefinedAt ρ
  | .binary .plus _ l r | .binary .minus _ l r | .binary .times _ l r =>
    l.DefinedAt ρ ∧ r.DefinedAt ρ
  | .binary .divide _ l r => l.DefinedAt ρ ∧ r.DefinedAt ρ ∧ r.value .rational ρ ≠ 0
  | .binary .power _ l r =>
    l.DefinedAt ρ ∧ r.DefinedAt ρ ∧
      ∃ n : ℤ, r.value .rational ρ = n ∧ (n < 0 → l.value .rational ρ ≠ 0)
  | _ => False

/-- The tree is defined at the point and has this value there. -/
structure DenotesAt (ρ : String → ℚ) (e : Expr) (q : ℚ) : Prop where
  defined : e.DefinedAt ρ
  value : e.value .rational ρ = q

variable {ρ : String → ℚ} {a b : Expr} {x y : ℚ}

theorem value_literal_rational {n : Decimal} {written : Bool} {q : ℚ} (value : n.toRat? = some q) :
    (Expr.literal n written).value .rational ρ = q := by
  simp [Expr.value, Decimal.toRat_of_toRat? value]

theorem denotesAt_number {n : Decimal} {q : ℚ} (value : n.toRat? = some q) :
    DenotesAt ρ (.number n) q :=
  ⟨by simp [number, DefinedAt, value], value_literal_rational value⟩

theorem denotesAt_self (defined : a.DefinedAt ρ) : DenotesAt ρ a (a.value .rational ρ) :=
  ⟨defined, rfl⟩

/-- A tree that is a literal of a value denotes that value. -/
theorem DenotesAt.eq_of_isLiteral {n : Decimal} {q : ℚ} (denotes : DenotesAt ρ a x)
    (value : n.toRat? = some q) (same : a.isLiteral n = true) : x = q := by
  cases a with
  | literal m written =>
    obtain ⟨r, mValue⟩ := Option.isSome_iff_exists.1 denotes.defined
    rw [← denotes.value, value_literal_rational mValue]
    exact (Decimal.same_iff mValue value).1 same
  | _ => simp [isLiteral] at same

theorem DenotesAt.eq_zero (denotes : DenotesAt ρ a x) (zero : a.isLiteral 0 = true) : x = 0 :=
  denotes.eq_of_isLiteral Decimal.toRat?_zero zero

theorem DenotesAt.eq_one (denotes : DenotesAt ρ a x) (one : a.isLiteral 1 = true) : x = 1 :=
  denotes.eq_of_isLiteral Decimal.toRat?_one one

theorem DenotesAt.buildSum (left : DenotesAt ρ a x) (right : DenotesAt ρ b y) :
    DenotesAt ρ (buildSum a b) (x + y) := by
  unfold Expr.buildSum
  split
  next zero =>
    rw [left.eq_zero zero, zero_add]
    exact right
  split
  next zero =>
    rw [right.eq_zero zero, add_zero]
    exact left
  exact ⟨⟨left.defined, right.defined⟩,
    by simp [Expr.value, Interpretation.apply, left.value, right.value]⟩

theorem DenotesAt.buildNegation (operand : DenotesAt ρ a x) :
    DenotesAt ρ (buildNegation a) (-x) := by
  unfold Expr.buildNegation
  split
  next zero =>
    rw [operand.eq_zero zero, neg_zero, ← operand.eq_zero zero]
    exact operand
  split
  next e _ =>
    exact ⟨operand.defined, by rw [← operand.value]; simp [Expr.value, signed]⟩
  next =>
    exact ⟨operand.defined, by simp [Expr.value, signed, operand.value]⟩

theorem DenotesAt.buildDifference (left : DenotesAt ρ a x) (right : DenotesAt ρ b y) :
    DenotesAt ρ (buildDifference a b) (x - y) := by
  unfold Expr.buildDifference
  split
  next zero =>
    rw [right.eq_zero zero, sub_zero]
    exact left
  split
  next zero =>
    rw [left.eq_zero zero, zero_sub]
    exact right.buildNegation
  exact ⟨⟨left.defined, right.defined⟩,
    by simp [Expr.value, Interpretation.apply, left.value, right.value]⟩

/-- A product with a zero is zero even where the other factor has no value. -/
theorem DenotesAt.buildProduct (left : DenotesAt ρ a x) (right : DenotesAt ρ b y) :
    DenotesAt ρ (buildProduct a b) (x * y) := by
  unfold Expr.buildProduct
  split
  next zero =>
    have product : x * y = 0 := by
      rcases Bool.or_eq_true_iff.1 zero with first | second
      · rw [left.eq_zero first, zero_mul]
      · rw [right.eq_zero second, mul_zero]
    rw [product]
    exact denotesAt_number Decimal.toRat?_zero
  split
  next one =>
    rw [left.eq_one one, one_mul]
    exact right
  split
  next one =>
    rw [right.eq_one one, mul_one]
    exact left
  exact ⟨⟨left.defined, right.defined⟩,
    by simp [Expr.value, Interpretation.apply, left.value, right.value]⟩

theorem DenotesAt.buildQuotient (left : DenotesAt ρ a x) (right : DenotesAt ρ b y)
    (nonzero : y ≠ 0) : DenotesAt ρ (buildQuotient a b) (x / y) := by
  unfold Expr.buildQuotient
  split
  next zero =>
    rw [left.eq_zero zero, zero_div, ← left.eq_zero zero]
    exact left
  split
  next one =>
    rw [right.eq_one one, div_one]
    exact left
  exact ⟨⟨left.defined, right.defined, by rwa [right.value]⟩,
    by simp [Expr.value, Interpretation.apply, Interpretation.rational_divide, left.value,
      right.value]⟩

theorem DenotesAt.buildPower {n : ℤ} (left : DenotesAt ρ a x) (right : DenotesAt ρ b n)
    (nonzero : n < 0 → x ≠ 0) : DenotesAt ρ (buildPower a b) (x ^ n) := by
  unfold Expr.buildPower
  split
  next one =>
    have exponent : n = 1 := by exact_mod_cast right.eq_one one
    rw [exponent, zpow_one]
    exact left
  refine ⟨⟨left.defined, right.defined, n, right.value, by rwa [left.value]⟩, ?_⟩
  simp only [Expr.value, Interpretation.apply, left.value, right.value]
  exact Interpretation.rational_power_int x n

end Expr

/-! ## Dual numbers -/

namespace Interpretation

/-- Arithmetic on dual numbers: quotients, and powers with a whole exponent. -/
def dual : Interpretation ℚ[ε] where
  divide x y := x * y⁻¹
  power x y :=
    match y.fst.num with
    | .ofNat n => x ^ n
    | .negSucc n => x⁻¹ ^ (n + 1)
  compare _ _ _ := 0
  call _ _ := 0

theorem fst_dual_divide (x y : ℚ[ε]) : (dual.divide x y).fst = x.fst / y.fst := by
  simp [dual, div_eq_mul_inv]

theorem snd_dual_divide (x y : ℚ[ε]) :
    (dual.divide x y).snd = x.snd / y.fst - x.fst * y.snd / y.fst ^ 2 := by
  simp only [dual, DualNumber.snd_mul, snd_inv, fst_inv]
  simp only [op_smul_eq_smul, smul_eq_mul]
  field_simp
  ring

theorem fst_dual_power {x y : ℚ[ε]} {n : ℤ} (whole : y.fst = n) :
    (dual.power x y).fst = x.fst ^ n := by
  simp only [dual, whole, Rat.num_intCast]
  cases n with
  | ofNat n => simp
  | negSucc n => simp [zpow_negSucc]

/-- The power rule. -/
theorem snd_dual_power {x y : ℚ[ε]} {n : ℤ} (whole : y.fst = n) (nonzero : n < 0 → x.fst ≠ 0) :
    (dual.power x y).snd = n * x.fst ^ (n - 1) * x.snd := by
  simp only [dual, whole, Rat.num_intCast]
  cases n with
  | ofNat n =>
    cases n with
    | zero => simp
    | succ n => simp [snd_pow, mul_assoc]
  | negSucc n =>
    have base := nonzero (Int.negSucc_lt_zero n)
    simp only [snd_pow, fst_inv, snd_inv, op_smul_eq_smul, smul_eq_mul, nsmul_eq_mul,
      Nat.pred_succ]
    have exponent : (Int.negSucc n : ℤ) - 1 = -((n + 2 : Nat) : ℤ) := by
      rw [Int.negSucc_eq]
      push_cast
      ring
    rw [exponent, zpow_neg, zpow_natCast, Int.negSucc_eq, inv_pow]
    push_cast
    field_simp
    ring

end Interpretation

namespace Expr

/-- The point where the variable `wrt` is moved by `ε`. -/
def moved (ρ : String → ℚ) (wrt : String) : String → ℚ[ε] := fun name =>
  if name = wrt then inl (ρ name) + ε else inl (ρ name)

theorem IsInteger.value {e : Expr} {n : ℤ} (whole : IsInteger e n) (ρ : String → ℚ) :
    e.value .rational ρ = n := by
  induction whole with
  | literal value => exact value_literal_rational value
  | @unary sign e n _ ih =>
    rw [Expr.value, ih]
    cases sign <;> simp [signed]

theorem IsInteger.fst_value {e : Expr} {n : ℤ} (whole : IsInteger e n) (point : String → ℚ[ε]) :
    (e.value .dual point).fst = n := by
  induction whole with
  | literal value => simp [Expr.value, Decimal.toRat_of_toRat? value]
  | @unary sign e n _ ih =>
    rw [Expr.value]
    cases sign <;> simp [signed, ih]

/-- Without `ε` the value at the moved point is that at the point. -/
theorem IsRational.fst_value {e : Expr} (rational : IsRational e) (ρ : String → ℚ)
    (wrt : String) : (e.value .dual (moved ρ wrt)).fst = e.value .rational ρ := by
  induction rational with
  | literal value => simp [Expr.value, algebraMap_eq_inl]
  | @var name =>
    simp only [Expr.value, moved]
    split <;> simp
  | @unary sign e _ ih => cases sign <;> simp [Expr.value, signed, ih]
  | sum _ _ left right => simp [Expr.value, Interpretation.apply, left, right]
  | difference _ _ left right => simp [Expr.value, Interpretation.apply, left, right]
  | product _ _ left right => simp [Expr.value, Interpretation.apply, left, right]
  | quotient _ _ left right =>
    simp [Expr.value, Interpretation.apply, Interpretation.fst_dual_divide,
      Interpretation.rational_divide, left, right]
  | power _ whole _ left =>
    simp only [Expr.value, Interpretation.apply]
    rw [Interpretation.fst_dual_power (whole.fst_value _), left, whole.value,
      Interpretation.rational_power_int]

/-- A tree without the variable does not move. -/
theorem IsRational.snd_value_eq_zero {e : Expr} (rational : IsRational e) {ρ : String → ℚ}
    {wrt : String} (defined : e.DefinedAt ρ) (fixed : ¬ e.Occurs wrt) :
    (e.value .dual (moved ρ wrt)).snd = 0 := by
  induction rational with
  | literal value => simp [Expr.value, algebraMap_eq_inl]
  | @var name =>
    simp only [Occurs] at fixed
    simp [Expr.value, moved, fixed]
  | @unary sign e _ ih => cases sign <;> simp [Expr.value, signed, ih defined fixed]
  | sum _ _ left right =>
    rw [Occurs, not_or] at fixed
    simp [Expr.value, Interpretation.apply, left defined.1 fixed.1, right defined.2 fixed.2]
  | difference _ _ left right =>
    rw [Occurs, not_or] at fixed
    simp [Expr.value, Interpretation.apply, left defined.1 fixed.1, right defined.2 fixed.2]
  | product _ _ left right =>
    rw [Occurs, not_or] at fixed
    simp [Expr.value, Interpretation.apply, left defined.1 fixed.1, right defined.2 fixed.2]
  | quotient _ _ left right =>
    rw [Occurs, not_or] at fixed
    simp [Expr.value, Interpretation.apply, Interpretation.snd_dual_divide,
      left defined.1 fixed.1, right defined.2.1 fixed.2]
  | @power _ base exponent n rational whole _ left =>
    rw [Occurs, not_or] at fixed
    obtain ⟨inner, -, m, exponentValue, nonzero⟩ := defined
    have same : m = n := by exact_mod_cast exponentValue.symm.trans (whole.value ρ)
    simp only [Expr.value, Interpretation.apply]
    rw [Interpretation.snd_dual_power (whole.fst_value _), left inner fixed.1, mul_zero]
    rw [rational.fst_value, ← same]
    exact nonzero

/-! ## Exponents -/

theorem abs_signed (sign : Sign) (n : ℤ) : |signed sign n| = |n| := by
  cases sign <;> simp [signed]

theorem representable_ambient {n : ℤ} (short : |n| < 10 ^ ambientDigits) :
    Representable ambientDigits (n : ℚ) :=
  representable_int short (by decide)

theorem IsInteger.evalWith {e : Expr} {n : ℤ} (whole : IsInteger e n)
    (short : |n| < 10 ^ ambientDigits) (call : Caller) (ctx : Context) :
    ∃ d ctx', e.evalWith call ambientDigits ctx = (.ok (.numeric d), ctx') ∧
      d.toRat? = some (n : ℚ) := by
  induction whole generalizing ctx with
  | @literal a written n value =>
    cases written
    · exact ⟨a, ctx, rfl, value⟩
    · exact ⟨a, _, rfl, value⟩
  | @unary sign e n _ ih =>
    rw [abs_signed] at short
    obtain ⟨d, ctx', evaluated, value⟩ := ih short ctx
    cases sign with
    | positive => exact ⟨d, ctx', by rw [Expr.evalWith, Calc.bind_ok evaluated]; rfl, value⟩
    | negative =>
      obtain ⟨r, negated, rValue⟩ := Precision.neg_exact (p := .halfEven ambientDigits) value
        (representable_ambient short)
      refine ⟨r, ctx', ?_, by simpa [signed] using rValue⟩
      rw [Expr.evalWith, Calc.bind_ok evaluated]
      apply Calc.lift_ok
      rw [Term.negate, negated]
      rfl

theorem IsInteger.isArithmetic {e : Expr} {n : ℤ} (whole : IsInteger e n) :
    e.isArithmetic = true := by
  induction whole with
  | literal _ => rfl
  | unary _ ih => exact ih

theorem IsInteger.not_occurs {e : Expr} {n : ℤ} (whole : IsInteger e n) (name : String) :
    ¬ e.Occurs name := by
  induction whole with
  | literal _ => simp [Occurs]
  | unary _ ih => exact ih

/-- The exponent of a power is found as a number in every context. -/
theorem IsInteger.value? {e : Expr} {n : ℤ} (whole : IsInteger e n)
    (short : |n| < 10 ^ ambientDigits) (ctx : Context) :
    ∃ d ctx', e.value? ctx = (.ok (some d), ctx') ∧ d.toRat? = some (n : ℚ) := by
  obtain ⟨d, ctx', evaluated, value⟩ := whole.evalWith short (callFunction depthLimit) ctx
  have bound : (e.names.all ctx.isBound) = true := by
    rw [List.all_eq_true]
    intro name member
    exact absurd (mem_names.1 member) (whole.not_occurs name)
  refine ⟨d, ctx', ?_, value⟩
  rw [Expr.value?, whole.isArithmetic]
  simp only [Bool.not_true, Bool.false_eq_true, if_false]
  rw [Calc.bind_ok (Calc.look_apply _ ctx), bound]
  simp only [Bool.not_true, Bool.false_eq_true, if_false]
  exact Calc.bind_ok evaluated

/-! ## The derivative -/

theorem IsInteger.denotesAt {e : Expr} {n : ℤ} (whole : e.IsInteger n) (ρ : String → ℚ) :
    DenotesAt ρ e n := by
  refine ⟨?_, whole.value ρ⟩
  induction whole with
  | literal value => simp [DefinedAt, value]
  | unary _ ih => exact ih

/-- The literal of a whole number. -/
theorem isInteger_literal {n : Decimal} {m : ℤ} (value : n.toRat? = some (m : ℚ))
    (fits : Representable ambientDigits (m : ℚ)) :
    ∃ e, Monomial.literal n = .ok e ∧ e.IsInteger m := by
  have compared := Decimal.less_eq value Decimal.toRat?_zero
  by_cases negative : (m : ℚ) < 0
  · obtain ⟨r, negated, rValue⟩ := Precision.neg_exact (p := Monomial.ambient) value fits
    have opposite : (Expr.unary .negative (.number r)).IsInteger (-(-m)) :=
      .unary (.literal (by rw [rValue, Int.cast_neg]))
    refine ⟨.unary .negative (.number r), ?_, by rwa [neg_neg] at opposite⟩
    rw [Monomial.literal, compared, decide_eq_true negative, negated]
    rfl
  · refine ⟨.number n, ?_, .literal value⟩
    rw [Monomial.literal, compared, decide_eq_false negative]
    rfl

/-- The literal of a number denotes it. -/
theorem denotesAt_literal {n : Decimal} {m : ℤ} {ρ : String → ℚ} (value : n.toRat? = some (m : ℚ))
    (fits : Representable ambientDigits (m : ℚ)) :
    ∃ e, Monomial.literal n = .ok e ∧ DenotesAt ρ e m := by
  obtain ⟨e, done, whole⟩ := isInteger_literal value fits
  exact ⟨e, done, whole.denotesAt ρ⟩

/-- The successor in magnitude of a number of twenty-eight digits is representable too. -/
theorem representable_pred {n : ℤ} (short : |n| < 10 ^ ambientDigits) :
    Representable ambientDigits ((n : ℚ) - 1) := by
  by_cases edge : n = -(10 ^ ambientDigits - 1)
  · have value : (n : ℚ) - 1 = ((-1 : ℤ) : ℚ) * 10 ^ (ambientDigits : ℤ) := by
      rw [edge, zpow_natCast]
      push_cast
      ring
    refine ⟨⟨-1, ambientDigits, value, by decide⟩, ?_⟩
    have magnitude : |(n : ℚ) - 1| = 10 ^ (ambientDigits : ℤ) := by
      rw [value, abs_mul, abs_of_pos (Decimal.ten_zpow_pos _)]
      simp
    refine inRange_of_le ?_ magnitude.le (by decide)
    rw [magnitude]
    exact one_le_zpow₀ (by norm_num) (by decide)
  · have whole : (n : ℚ) - 1 = ((n - 1 : ℤ) : ℚ) := by push_cast; rfl
    rw [whole]
    apply representable_ambient
    rw [abs_lt] at short ⊢
    constructor <;> omega

/-- The steps of the power rule for a base that varies. -/
theorem derivePower_apply {base exponent d power factor : Expr} {k reduced : Decimal}
    {dBase dExponent : Calc Expr} {ctx ctx' ctx'' : Context} (done : dBase ctx = (.ok d, ctx'))
    (found : exponent.value? ctx' = (.ok (some k), ctx''))
    (subtracted : Monomial.ambient.sub k 1 = .ok reduced)
    (powerDone : (if reduced.isZero then pure (.number 1)
      else buildPower base <$> Calc.decimal (Monomial.literal reduced) : Calc Expr) ctx'' =
        (.ok power, ctx''))
    (factorDone : Monomial.literal k = .ok factor) :
    derivePower base exponent dBase dExponent true false ctx =
      (.ok (buildProduct (buildProduct factor power) d), ctx'') := by
  rw [derivePower]
  simp only [if_true, Bool.not_false]
  rw [Calc.bind_ok done, Calc.bind_ok found]
  simp only
  rw [Calc.bind_ok (Calc.decimal_ok subtracted ctx'')]
  split at powerDone
  next zero =>
    rw [if_pos zero, Calc.bind_ok powerDone, Calc.bind_ok (Calc.decimal_ok factorDone ctx''),
      Calc.pure_apply]
  next apart =>
    rw [if_neg apart, Calc.bind_ok powerDone, Calc.bind_ok (Calc.decimal_ok factorDone ctx''),
      Calc.pure_apply]

/-- The derivative of a power with a whole exponent: `n · b ^ (n - 1) · b'`. -/
theorem derivePower_denotes {base exponent : Expr} {n : ℤ} {ρ : String → ℚ} {d : Expr} {x : ℚ}
    {dBase dExponent : Calc Expr} {ctx ctx' : Context} (whole : IsInteger exponent n)
    (short : |n| < 10 ^ ambientDigits) (defined : base.DefinedAt ρ)
    (nonzero : n < 0 → base.value .rational ρ ≠ 0) (done : dBase ctx = (.ok d, ctx'))
    (denotes : DenotesAt ρ d x) :
    ∃ e ctx'', derivePower base exponent dBase dExponent true false ctx = (.ok e, ctx'') ∧
      DenotesAt ρ e (n * base.value .rational ρ ^ (n - 1) * x) := by
  obtain ⟨k, ctx'', found, kValue⟩ := whole.value? short ctx'
  have pred := representable_pred short
  obtain ⟨reduced, subtracted, reducedValue⟩ :=
    Precision.sub_exact (p := Monomial.ambient) kValue Decimal.toRat?_one pred
  have integer : (n : ℚ) - 1 = ((n - 1 : ℤ) : ℚ) := by push_cast; rfl
  rw [integer] at reducedValue pred
  obtain ⟨factor, factorDone, factorDenotes⟩ :=
    denotesAt_literal (ρ := ρ) kValue (representable_ambient short)
  by_cases one : n = 1
  · -- `b ^ 0` is not written.
    have zero : reduced.isZero = true := (Decimal.isZero_iff reducedValue).2 (by simp [one])
    have powerDone : (if reduced.isZero then pure (.number 1)
        else buildPower base <$> Calc.decimal (Monomial.literal reduced) : Calc Expr) ctx'' =
          (.ok (.number 1), ctx'') := by
      rw [zero]
      rfl
    refine ⟨_, ctx'', derivePower_apply done found subtracted powerDone factorDone, ?_⟩
    have power : DenotesAt ρ (.number 1) (base.value .rational ρ ^ (n - 1)) := by
      rw [one, sub_self, zpow_zero]
      exact denotesAt_number Decimal.toRat?_one
    exact (factorDenotes.buildProduct power).buildProduct denotes
  have apart : reduced.isZero = false := by
    rw [Bool.eq_false_iff, Ne, Decimal.isZero_iff reducedValue]
    intro zero
    exact one (by linarith [(by exact_mod_cast zero : n - 1 = 0)])
  obtain ⟨exponent', literalDone, exponentDenotes⟩ := denotesAt_literal (ρ := ρ) reducedValue pred
  have powerDone : (if reduced.isZero then pure (.number 1)
      else buildPower base <$> Calc.decimal (Monomial.literal reduced) : Calc Expr) ctx'' =
        (.ok (buildPower base exponent'), ctx'') := by
    rw [apart]
    exact Calc.map_ok (Calc.decimal_ok literalDone ctx'')
  refine ⟨_, ctx'', derivePower_apply done found subtracted powerDone factorDone, ?_⟩
  by_cases none : n = 0
  · -- The base may be zero here, where `b ^ (-1)` has no value; the factor `0` removes it.
    have zero : DenotesAt ρ (buildProduct factor (buildPower base exponent')) 0 := by
      have literal : factor = .number k := by
        rw [Monomial.literal, Decimal.less_eq kValue Decimal.toRat?_zero] at factorDone
        simp only [none, Int.cast_zero, lt_irrefl, decide_false] at factorDone
        exact (Except.ok.inj factorDone).symm
      have isZero : factor.isLiteral 0 = true := by
        rw [literal]
        exact (Decimal.same_iff kValue Decimal.toRat?_zero).2 (by simp [none])
      rw [buildProduct, isZero, Bool.true_or, if_pos rfl]
      exact denotesAt_number Decimal.toRat?_zero
    have product := zero.buildProduct denotes
    rwa [none, Int.cast_zero, zero_mul]
  · have power := (denotesAt_self defined).buildPower exponentDenotes
      (fun negative => nonzero (by omega))
    exact (factorDenotes.buildProduct power).buildProduct denotes

section Rules

variable {l r : Expr} {ρ : String → ℚ} {wrt : String} {dLeft dRight : Calc Expr}

/-- The computation finds the derivative of the tree at the point, in any context. -/
def Derives (ρ : String → ℚ) (wrt : String) (e : Expr) (act : Calc Expr) : Prop :=
  ∀ ctx, ∃ d ctx', act ctx = (.ok d, ctx') ∧
    DenotesAt ρ d (e.value .dual (moved ρ wrt)).snd

theorem derives_sum {attached : Bool} (left : Derives ρ wrt l dLeft)
    (right : Derives ρ wrt r dRight) :
    Derives ρ wrt (.binary .plus attached l r) (deriveBinary wrt .plus l r dLeft dRight) := by
  intro ctx
  obtain ⟨d, ctx', leftDone, leftDenotes⟩ := left ctx
  obtain ⟨d', ctx'', rightDone, rightDenotes⟩ := right ctx'
  refine ⟨buildSum d d', ctx'', ?_, ?_⟩
  · change (dLeft >>= fun d => dRight >>= fun d' => pure (buildSum d d')) ctx = _
    rw [Calc.bind_ok leftDone, Calc.bind_ok rightDone, Calc.pure_apply]
  · simpa [Expr.value, Interpretation.apply] using leftDenotes.buildSum rightDenotes

theorem derives_difference {attached : Bool} (left : Derives ρ wrt l dLeft)
    (right : Derives ρ wrt r dRight) :
    Derives ρ wrt (.binary .minus attached l r) (deriveBinary wrt .minus l r dLeft dRight) := by
  intro ctx
  obtain ⟨d, ctx', leftDone, leftDenotes⟩ := left ctx
  obtain ⟨d', ctx'', rightDone, rightDenotes⟩ := right ctx'
  refine ⟨buildDifference d d', ctx'', ?_, ?_⟩
  · change (dLeft >>= fun d => dRight >>= fun d' => pure (buildDifference d d')) ctx = _
    rw [Calc.bind_ok leftDone, Calc.bind_ok rightDone, Calc.pure_apply]
  · simpa [Expr.value, Interpretation.apply] using leftDenotes.buildDifference rightDenotes

/-- The variable does not occur exactly where it is not listed. -/
theorem mentions_eq_false {e : Expr} {name : String} (fixed : ¬ e.Occurs name) :
    e.mentions name = false := by
  rwa [Bool.eq_false_iff, Ne, mentions_iff]

theorem derives_product {attached : Bool} (leftRational : IsRational l)
    (rightRational : IsRational r) (leftDefined : l.DefinedAt ρ) (rightDefined : r.DefinedAt ρ)
    (left : Derives ρ wrt l dLeft) (right : Derives ρ wrt r dRight) :
    Derives ρ wrt (.binary .times attached l r) (deriveBinary wrt .times l r dLeft dRight) := by
  intro ctx
  have value : ((Expr.binary .times attached l r).value .dual (moved ρ wrt)).snd =
      l.value .rational ρ * (r.value .dual (moved ρ wrt)).snd +
        (l.value .dual (moved ρ wrt)).snd * r.value .rational ρ := by
    simp only [Expr.value, Interpretation.apply]
    rw [DualNumber.snd_mul, leftRational.fst_value, rightRational.fst_value]
  rw [value]
  change ∃ d ctx', (if !l.mentions wrt && !r.mentions wrt then pure (.number 0)
    else if !l.mentions wrt then dRight >>= fun d => pure (buildProduct l d)
    else if !r.mentions wrt then dLeft >>= fun d => pure (buildProduct d r)
    else dLeft >>= fun d => dRight >>= fun d' =>
      pure (buildSum (buildProduct d r) (buildProduct l d')) : Calc Expr) ctx = _ ∧ _
  by_cases leftVaries : l.Occurs wrt
  · obtain ⟨d, ctx', leftDone, leftDenotes⟩ := left ctx
    rw [mentions_iff.2 leftVaries]
    by_cases rightVaries : r.Occurs wrt
    · obtain ⟨d', ctx'', rightDone, rightDenotes⟩ := right ctx'
      rw [mentions_iff.2 rightVaries]
      refine ⟨_, ctx'', (Calc.bind_ok leftDone).trans (Calc.bind_ok rightDone), ?_⟩
      rw [add_comm]
      exact (leftDenotes.buildProduct (denotesAt_self rightDefined)).buildSum
        ((denotesAt_self leftDefined).buildProduct rightDenotes)
    · rw [mentions_eq_false rightVaries]
      refine ⟨_, ctx', Calc.bind_ok leftDone, ?_⟩
      rw [rightRational.snd_value_eq_zero rightDefined rightVaries, mul_zero, zero_add]
      exact leftDenotes.buildProduct (denotesAt_self rightDefined)
  · rw [mentions_eq_false leftVaries, leftRational.snd_value_eq_zero leftDefined leftVaries,
      zero_mul, add_zero]
    by_cases rightVaries : r.Occurs wrt
    · obtain ⟨d', ctx', rightDone, rightDenotes⟩ := right ctx
      rw [mentions_iff.2 rightVaries]
      exact ⟨_, ctx', Calc.bind_ok rightDone,
        (denotesAt_self leftDefined).buildProduct rightDenotes⟩
    · rw [mentions_eq_false rightVaries, rightRational.snd_value_eq_zero rightDefined rightVaries,
        mul_zero]
      exact ⟨_, ctx, rfl, denotesAt_number Decimal.toRat?_zero⟩

theorem derives_quotient {attached : Bool} (leftRational : IsRational l)
    (rightRational : IsRational r) (leftDefined : l.DefinedAt ρ) (rightDefined : r.DefinedAt ρ)
    (nonzero : r.value .rational ρ ≠ 0)
    (left : Derives ρ wrt l dLeft) (right : Derives ρ wrt r dRight) :
    Derives ρ wrt (.binary .divide attached l r) (deriveBinary wrt .divide l r dLeft dRight) := by
  intro ctx
  have value : ((Expr.binary .divide attached l r).value .dual (moved ρ wrt)).snd =
      (l.value .dual (moved ρ wrt)).snd / r.value .rational ρ -
        l.value .rational ρ * (r.value .dual (moved ρ wrt)).snd / r.value .rational ρ ^ 2 := by
    simp only [Expr.value, Interpretation.apply]
    rw [Interpretation.snd_dual_divide, leftRational.fst_value, rightRational.fst_value]
  rw [value]
  change ∃ d ctx', (if !l.mentions wrt && !r.mentions wrt then pure (.number 0)
    else if !r.mentions wrt then dLeft >>= fun d => pure (buildQuotient d r)
    else dLeft >>= fun d => dRight >>= fun d' =>
      pure (buildQuotient (buildDifference (buildProduct d r) (buildProduct l d'))
        (buildPower r (.number 2))) : Calc Expr) ctx = _ ∧ _
  by_cases rightVaries : r.Occurs wrt
  · obtain ⟨d, ctx', leftDone, leftDenotes⟩ := left ctx
    obtain ⟨d', ctx'', rightDone, rightDenotes⟩ := right ctx'
    rw [mentions_iff.2 rightVaries, Bool.not_true, Bool.and_false]
    refine ⟨_, ctx'', (Calc.bind_ok leftDone).trans (Calc.bind_ok rightDone), ?_⟩
    have numerator := (leftDenotes.buildProduct (denotesAt_self rightDefined)).buildDifference
      ((denotesAt_self leftDefined).buildProduct rightDenotes)
    have two : DenotesAt ρ (.number 2) ((2 : ℤ) : ℚ) :=
      denotesAt_number (by simpa using Decimal.toRat?_ofNat 2)
    have square := (denotesAt_self rightDefined).buildPower two (by simp)
    have quotient := numerator.buildQuotient square (zpow_ne_zero 2 nonzero)
    convert quotient using 1
    rw [zpow_ofNat]
    field_simp
  · rw [mentions_eq_false rightVaries, rightRational.snd_value_eq_zero rightDefined rightVaries,
      mul_zero, zero_div, sub_zero]
    by_cases leftVaries : l.Occurs wrt
    · obtain ⟨d, ctx', leftDone, leftDenotes⟩ := left ctx
      rw [mentions_iff.2 leftVaries]
      exact ⟨_, ctx', Calc.bind_ok leftDone,
        leftDenotes.buildQuotient (denotesAt_self rightDefined) nonzero⟩
    · rw [mentions_eq_false leftVaries, leftRational.snd_value_eq_zero leftDefined leftVaries,
        zero_div]
      exact ⟨_, ctx, rfl, denotesAt_number Decimal.toRat?_zero⟩

theorem derives_power {attached : Bool} {n : ℤ} (leftRational : IsRational l)
    (whole : IsInteger r n) (short : |n| < 10 ^ ambientDigits) (leftDefined : l.DefinedAt ρ)
    (nonzero : n < 0 → l.value .rational ρ ≠ 0) (left : Derives ρ wrt l dLeft) :
    Derives ρ wrt (.binary .power attached l r) (deriveBinary wrt .power l r dLeft dRight) := by
  intro ctx
  have value : ((Expr.binary .power attached l r).value .dual (moved ρ wrt)).snd =
      n * l.value .rational ρ ^ (n - 1) * (l.value .dual (moved ρ wrt)).snd := by
    simp only [Expr.value, Interpretation.apply]
    rw [Interpretation.snd_dual_power (whole.fst_value _), leftRational.fst_value]
    rwa [leftRational.fst_value]
  rw [value]
  change ∃ d ctx', (if !l.mentions wrt && !r.mentions wrt then pure (.number 0)
    else derivePower l r dLeft dRight (l.mentions wrt) (r.mentions wrt) : Calc Expr) ctx = _ ∧ _
  rw [mentions_eq_false (whole.not_occurs wrt)]
  by_cases leftVaries : l.Occurs wrt
  · obtain ⟨d, ctx', leftDone, leftDenotes⟩ := left ctx
    rw [mentions_iff.2 leftVaries]
    exact derivePower_denotes whole short leftDefined nonzero leftDone leftDenotes
  · rw [mentions_eq_false leftVaries, leftRational.snd_value_eq_zero leftDefined leftVaries,
      mul_zero]
    exact ⟨_, ctx, rfl, denotesAt_number Decimal.toRat?_zero⟩

end Rules

/-- The rules together, by induction over the tree. -/
theorem derives_deriveWith {e : Expr} (rational : IsRational e) {ρ : String → ℚ} {wrt : String}
    (onCall : Expr → Calc Expr) (defined : e.DefinedAt ρ) :
    Derives ρ wrt e (e.deriveWith onCall wrt) := by
  induction rational with
  | literal value =>
    intro ctx
    refine ⟨_, ctx, rfl, ?_⟩
    simp only [Expr.value, algebraMap_eq_inl, snd_inl]
    exact denotesAt_number Decimal.toRat?_zero
  | @var name =>
    intro ctx
    refine ⟨_, ctx, rfl, ?_⟩
    simp only [Expr.value, moved, beq_iff_eq]
    split
    next => simpa using denotesAt_number Decimal.toRat?_one
    next => simpa using denotesAt_number Decimal.toRat?_zero
  | @unary sign e _ ih =>
    intro ctx
    obtain ⟨d, ctx', done, denotes⟩ := ih defined ctx
    cases sign with
    | positive => exact ⟨d, ctx', Calc.bind_ok done, denotes⟩
    | negative =>
      refine ⟨_, ctx', Calc.bind_ok done, ?_⟩
      simpa [Expr.value, signed] using denotes.buildNegation
  | sum _ _ left right => exact derives_sum (left defined.1) (right defined.2)
  | difference _ _ left right => exact derives_difference (left defined.1) (right defined.2)
  | product leftRational rightRational left right =>
    exact derives_product leftRational rightRational defined.1 defined.2 (left defined.1)
      (right defined.2)
  | quotient leftRational rightRational left right =>
    exact derives_quotient leftRational rightRational defined.1 defined.2.1 defined.2.2
      (left defined.1) (right defined.2.1)
  | @power attached base exponent n leftRational whole short left =>
    obtain ⟨leftDefined, -, m, exponentValue, nonzero⟩ := defined
    have same : m = n := by exact_mod_cast exponentValue.symm.trans (whole.value ρ)
    rw [same] at nonzero
    exact derives_power leftRational whole short leftDefined nonzero (left leftDefined)

/-- The derivative of a rational function exists in every context and, at every point where no
denominator and no base of a negative power is zero, has the coefficient of `ε` as its value. -/
theorem derivative_denotes_dual {e : Expr} (rational : IsRational e) (wrt : String)
    {ρ : String → ℚ} (defined : e.DefinedAt ρ) (ctx : Context) :
    ∃ d ctx', e.derivative wrt ctx = (.ok d, ctx') ∧
      d.DefinedAt ρ ∧ d.value .rational ρ = (e.value .dual (moved ρ wrt)).snd := by
  obtain ⟨d, ctx', done, denotes⟩ := derives_deriveWith rational _ defined ctx
  exact ⟨d, ctx', done, denotes.defined, denotes.value⟩

/-- `x^-2/(x+1)`. -/
def inverseSquareQuotient : Expr :=
  .binary .divide false
    (.binary .power false (.var "x") (.unary .negative (.literal 2 true)))
    (.binary .plus false (.var "x") (.literal 1 true))

/-- The derivative of `x^-2/(x+1)` at `2` is `-1/9`. -/
theorem derivative_inverseSquareQuotient_at_two :
    inverseSquareQuotient.IsRational ∧ inverseSquareQuotient.DefinedAt (fun _ => 2) ∧
    ∃ d ctx', inverseSquareQuotient.derivative "x" .initial = (.ok d, ctx') ∧
      d.DefinedAt (fun _ => 2) ∧ d.value .rational (fun _ => 2) = -1 / 9 := by
  have one : (1 : Decimal).toRat? = some 1 := Decimal.toRat?_one
  have two : (2 : Decimal).toRat? = some ((2 : ℤ) : ℚ) := by simpa using Decimal.toRat?_ofNat 2
  have whole : IsInteger (.unary .negative (.literal 2 true)) (-2) := .unary (.literal two)
  have rational : inverseSquareQuotient.IsRational :=
    .quotient (.power .var whole (by decide)) (.sum .var (.literal one))
  have denominator : (Expr.binary .plus false (.var "x") (.literal 1 true)).value .rational
      (fun _ => (2 : ℚ)) = 3 := by
    norm_num [Expr.value, Interpretation.apply, Decimal.toRat_of_toRat? one]
  have defined : inverseSquareQuotient.DefinedAt (fun _ => 2) := by
    refine ⟨⟨trivial, by simp [DefinedAt, two], -2, whole.value _, ?_⟩,
      ⟨trivial, by simp [DefinedAt, one]⟩, ?_⟩
    · intro _
      norm_num [Expr.value]
    · rw [denominator]
      norm_num
  obtain ⟨d, ctx', done, definedAt, value⟩ := derivative_denotes_dual rational "x" defined .initial
  refine ⟨rational, defined, d, ctx', done, definedAt, value.trans ?_⟩
  have exponent := whole.fst_value (moved (fun _ => 2) "x")
  change (Interpretation.dual.divide (Interpretation.dual.power _ _) _).snd = _
  rw [Interpretation.snd_dual_divide, Interpretation.fst_dual_power exponent,
    Interpretation.snd_dual_power exponent (by simp [Expr.value, moved])]
  norm_num [Expr.value, Interpretation.apply, moved, Decimal.toRat_of_toRat? one]

end Expr

end Reckon
