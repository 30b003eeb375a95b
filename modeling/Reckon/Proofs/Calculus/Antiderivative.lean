import Reckon.Calculus.Antiderivative
import Reckon.Proofs.Calculus.Derivative

/-!
# The derivative of an antiderivative

An antiderivative of a rational function that has no logarithm in it is a rational function again.
It is checked against dual numbers like the derivative: the coefficient of `ε` in its value is the
value of the integrand. The derivative of the antiderivative, which has this coefficient as its
value, therefore gives the integrand back.

1. `value_buildSum` and so on: the builders keep values, also those in dual numbers.
2. `integrates_factor` and so on: one rule for each way to build an antiderivative.
3. `integratesSoundly_of_isRational`, by induction over the tree, and `derivative_antiderivative`.
-/

namespace Reckon

open TrivSqZeroExt
open scoped DualNumber

theorem Calc.eq_of_pure {α : Type} {x y : α} {ctx ctx' : Context}
    (done : (pure x : Calc α) ctx = (.ok y, ctx')) : x = y :=
  Except.ok.inj (Prod.mk.inj done).1

namespace Expr

variable {a b : Expr}

/-! ## Builders -/

theorem isArithmetic_of_isLiteral {n : Decimal} (literal : a.isLiteral n = true) :
    a.isArithmetic = true := by
  cases a with
  | literal m written => rfl
  | _ => cases literal

theorem isRational_number {n : Decimal} {q : ℚ} (value : n.toRat? = some q) :
    (Expr.number n).IsRational :=
  .literal value

theorem IsRational.buildSum (left : a.IsRational) (right : b.IsRational) :
    (buildSum a b).IsRational := by
  unfold Expr.buildSum
  split
  next => exact right
  split
  next => exact left
  exact .sum left right

theorem IsRational.buildNegation (operand : a.IsRational) : (buildNegation a).IsRational := by
  unfold Expr.buildNegation
  split
  next => exact operand
  split
  next e _ =>
    cases operand with
    | unary inner => exact inner
  next => exact .unary operand

theorem IsRational.buildDifference (left : a.IsRational) (right : b.IsRational) :
    (buildDifference a b).IsRational := by
  unfold Expr.buildDifference
  split
  next => exact left
  split
  next => exact right.buildNegation
  exact .difference left right

theorem IsRational.buildProduct (left : a.IsRational) (right : b.IsRational) :
    (buildProduct a b).IsRational := by
  unfold Expr.buildProduct
  split
  next => exact isRational_number Decimal.toRat?_zero
  split
  next => exact right
  split
  next => exact left
  exact .product left right

theorem IsRational.buildQuotient (left : a.IsRational) (right : b.IsRational) :
    (buildQuotient a b).IsRational := by
  unfold Expr.buildQuotient
  split
  next => exact left
  split
  next => exact left
  exact .quotient left right

theorem IsRational.buildPower {n : ℤ} (base : a.IsRational) (whole : b.IsInteger n)
    (short : |n| < 10 ^ ambientDigits) : (buildPower a b).IsRational := by
  unfold Expr.buildPower
  split
  next => exact base
  exact .power base whole short

theorem isArithmetic_of_buildSum (arithmetic : (buildSum a b).isArithmetic = true) :
    a.isArithmetic = true ∧ b.isArithmetic = true := by
  unfold buildSum at arithmetic
  split at arithmetic
  next zero => exact ⟨isArithmetic_of_isLiteral zero, arithmetic⟩
  split at arithmetic
  next zero => exact ⟨arithmetic, isArithmetic_of_isLiteral zero⟩
  exact Bool.and_eq_true_iff.1 arithmetic

theorem isArithmetic_of_buildNegation (arithmetic : (buildNegation a).isArithmetic = true) :
    a.isArithmetic = true := by
  unfold buildNegation at arithmetic
  split at arithmetic
  next => exact arithmetic
  split at arithmetic <;> exact arithmetic

theorem isArithmetic_of_buildDifference (arithmetic : (buildDifference a b).isArithmetic = true) :
    a.isArithmetic = true ∧ b.isArithmetic = true := by
  unfold buildDifference at arithmetic
  split at arithmetic
  next zero => exact ⟨arithmetic, isArithmetic_of_isLiteral zero⟩
  split at arithmetic
  next zero => exact ⟨isArithmetic_of_isLiteral zero, isArithmetic_of_buildNegation arithmetic⟩
  exact Bool.and_eq_true_iff.1 arithmetic

/-- Anything can be a factor of zero. -/
theorem isArithmetic_of_buildProduct (arithmetic : (buildProduct a b).isArithmetic = true) :
    (a.isArithmetic = true ∨ b.isLiteral 0 = true) ∧
      (b.isArithmetic = true ∨ a.isLiteral 0 = true) := by
  unfold buildProduct at arithmetic
  split at arithmetic
  next zero =>
    rcases Bool.or_eq_true_iff.1 zero with first | second
    · exact ⟨.inl (isArithmetic_of_isLiteral first), .inr first⟩
    · exact ⟨.inr second, .inl (isArithmetic_of_isLiteral second)⟩
  split at arithmetic
  next one => exact ⟨.inl (isArithmetic_of_isLiteral one), .inl arithmetic⟩
  split at arithmetic
  next one => exact ⟨.inl arithmetic, .inl (isArithmetic_of_isLiteral one)⟩
  obtain ⟨left, right⟩ := Bool.and_eq_true_iff.1 arithmetic
  exact ⟨.inl left, .inl right⟩

theorem isArithmetic_of_buildQuotient (arithmetic : (buildQuotient a b).isArithmetic = true) :
    a.isArithmetic = true := by
  unfold buildQuotient at arithmetic
  split at arithmetic
  next => exact arithmetic
  split at arithmetic
  next => exact arithmetic
  exact (Bool.and_eq_true_iff.1 arithmetic).1

section Value

variable {K : Type} [Ring K] [Algebra ℚ K] {I : Interpretation K} {point : String → K}

theorem IsRational.value_of_isLiteral (rational : a.IsRational) {n : Decimal} {q : ℚ}
    (value : n.toRat? = some q) (same : a.isLiteral n = true) :
    a.value I point = algebraMap ℚ K q := by
  cases rational with
  | literal literal =>
    rw [Expr.value, Decimal.toRat_of_toRat? literal, (Decimal.same_iff literal value).1 same]
  | _ => cases same

theorem IsRational.value_zero (rational : a.IsRational) (zero : a.isLiteral 0 = true) :
    a.value I point = 0 := by
  rw [rational.value_of_isLiteral Decimal.toRat?_zero zero, map_zero]

theorem IsRational.value_one (rational : a.IsRational) (one : a.isLiteral 1 = true) :
    a.value I point = 1 := by
  rw [rational.value_of_isLiteral Decimal.toRat?_one one, map_one]

theorem value_buildSum (left : a.IsRational) (right : b.IsRational) :
    (buildSum a b).value I point = a.value I point + b.value I point := by
  unfold buildSum
  split
  next zero => rw [left.value_zero zero, zero_add]
  split
  next zero => rw [right.value_zero zero, add_zero]
  rfl

theorem value_buildNegation (operand : a.IsRational) :
    (buildNegation a).value I point = -a.value I point := by
  unfold buildNegation
  split
  next zero => rw [operand.value_zero zero, neg_zero]
  split
  next e _ => rw [Expr.value, signed, neg_neg]
  next => rfl

theorem value_buildDifference (left : a.IsRational) (right : b.IsRational) :
    (buildDifference a b).value I point = a.value I point - b.value I point := by
  unfold buildDifference
  split
  next zero => rw [right.value_zero zero, sub_zero]
  split
  next zero => rw [value_buildNegation right, left.value_zero zero, zero_sub]
  rfl

theorem value_buildProduct (left : a.IsRational) (right : b.IsRational) :
    (buildProduct a b).value I point = a.value I point * b.value I point := by
  unfold buildProduct
  split
  next zero =>
    have none : (Expr.number 0).value I point = 0 :=
      (isRational_number Decimal.toRat?_zero).value_zero rfl
    rcases Bool.or_eq_true_iff.1 zero with first | second
    · rw [none, left.value_zero first, zero_mul]
    · rw [none, right.value_zero second, mul_zero]
  split
  next one => rw [left.value_one one, one_mul]
  split
  next one => rw [right.value_one one, mul_one]
  rfl

end Value

theorem value_buildQuotient {point : String → ℚ[ε]} (left : a.IsRational) (right : b.IsRational) :
    (buildQuotient a b).value .dual point =
      Interpretation.dual.divide (a.value .dual point) (b.value .dual point) := by
  unfold buildQuotient
  split
  next zero =>
    rw [left.value_zero zero]
    exact (zero_mul _).symm
  split
  next one =>
    rw [right.value_one one]
    change _ = a.value .dual point * 1⁻¹
    rw [TrivSqZeroExt.inv_one, mul_one]
  rfl

theorem value_buildPower {point : String → ℚ[ε]} {n : ℤ} (whole : b.IsInteger n) :
    (buildPower a b).value .dual point =
      Interpretation.dual.power (a.value .dual point) (b.value .dual point) := by
  unfold buildPower
  split
  next one =>
    cases whole with
    | literal value =>
      have exponent : (Expr.literal _ _).value Interpretation.dual point = 1 :=
        (IsRational.literal value).value_one one
      rw [exponent]
      simp [Interpretation.dual]
    | unary _ => cases one
  rfl

/-! ## Antiderivatives -/

/-- The exponents of powers have at most twenty-seven digits. -/
def ShortExponents : Expr → Prop
  | .unary _ e => e.ShortExponents
  | .binary .power _ l r => l.ShortExponents ∧ ∀ n, r.IsInteger n → |n| < 10 ^ 27
  | .binary _ _ l r => l.ShortExponents ∧ r.ShortExponents
  | _ => True

/-- The first tree is a rational function that changes with the variable as fast as the second one
says, wherever that has a value. -/
structure Integrates (wrt : String) (integral e : Expr) : Prop where
  rational : integral.IsRational
  defined : ∀ ρ, e.DefinedAt ρ → integral.DefinedAt ρ
  slope : ∀ ρ, e.DefinedAt ρ →
    (integral.value .dual (moved ρ wrt)).snd = e.value .rational ρ

variable {wrt : String} {l r integral integral' : Expr}

theorem moved_self (ρ : String → ℚ) (wrt : String) : moved ρ wrt wrt = inl (ρ wrt) + ε := by
  rw [moved, if_pos rfl]

/-- What does not vary is multiplied by the variable. -/
theorem integrates_fixed {e : Expr} (rational : e.IsRational) (fixed : ¬ e.Occurs wrt) :
    Integrates wrt (buildProduct e (.var wrt)) e where
  rational := rational.buildProduct .var
  defined ρ defined :=
    ((denotesAt_self defined).buildProduct (denotesAt_self (a := .var wrt) trivial)).defined
  slope ρ defined := by
    rw [value_buildProduct rational .var, DualNumber.snd_mul, rational.fst_value,
      rational.snd_value_eq_zero defined fixed, zero_mul, add_zero]
    change e.value .rational ρ * (moved ρ wrt wrt).snd = _
    rw [moved_self, snd_add, snd_inl, DualNumber.snd_eps, zero_add, mul_one]

theorem integrates_sum {attached : Bool} (left : Integrates wrt integral l)
    (right : Integrates wrt integral' r) :
    Integrates wrt (buildSum integral integral') (.binary .plus attached l r) where
  rational := left.rational.buildSum right.rational
  defined ρ defined := ((denotesAt_self (left.defined ρ defined.1)).buildSum
    (denotesAt_self (right.defined ρ defined.2))).defined
  slope ρ defined := by
    rw [value_buildSum left.rational right.rational, snd_add, left.slope ρ defined.1,
      right.slope ρ defined.2]
    rfl

theorem integrates_difference {attached : Bool} (left : Integrates wrt integral l)
    (right : Integrates wrt integral' r) :
    Integrates wrt (buildDifference integral integral') (.binary .minus attached l r) where
  rational := left.rational.buildDifference right.rational
  defined ρ defined := ((denotesAt_self (left.defined ρ defined.1)).buildDifference
    (denotesAt_self (right.defined ρ defined.2))).defined
  slope ρ defined := by
    rw [value_buildDifference left.rational right.rational, snd_sub, left.slope ρ defined.1,
      right.slope ρ defined.2]
    rfl

theorem integrates_negation {e : Expr} (operand : Integrates wrt integral e) :
    Integrates wrt (buildNegation integral) (.unary .negative e) where
  rational := operand.rational.buildNegation
  defined ρ defined := (denotesAt_self (operand.defined ρ defined)).buildNegation.defined
  slope ρ defined := by
    rw [value_buildNegation operand.rational, snd_neg, operand.slope ρ defined]
    rfl

/-- A factor that does not vary is pulled out. -/
theorem integrates_factor {attached : Bool} (factor : l.IsRational) (fixed : ¬ l.Occurs wrt)
    (right : Integrates wrt integral r) :
    Integrates wrt (buildProduct l integral) (.binary .times attached l r) where
  rational := factor.buildProduct right.rational
  defined ρ defined := ((denotesAt_self defined.1).buildProduct
    (denotesAt_self (right.defined ρ defined.2))).defined
  slope ρ defined := by
    rw [value_buildProduct factor right.rational, DualNumber.snd_mul, factor.fst_value,
      factor.snd_value_eq_zero defined.1 fixed, right.slope ρ defined.2, zero_mul, add_zero]
    rfl

theorem integrates_factor_right {attached : Bool} (left : Integrates wrt integral l)
    (factor : r.IsRational) (fixed : ¬ r.Occurs wrt) :
    Integrates wrt (buildProduct integral r) (.binary .times attached l r) where
  rational := left.rational.buildProduct factor
  defined ρ defined := ((denotesAt_self (left.defined ρ defined.1)).buildProduct
    (denotesAt_self defined.2)).defined
  slope ρ defined := by
    rw [value_buildProduct left.rational factor, DualNumber.snd_mul, factor.fst_value,
      factor.snd_value_eq_zero defined.2 fixed, left.slope ρ defined.1, mul_zero, zero_add]
    rfl

/-- Zero is its own antiderivative. -/
theorem integrates_zero {e : Expr} (zero : ∀ ρ, e.DefinedAt ρ → e.value .rational ρ = 0) :
    Integrates wrt (.number 0) e where
  rational := isRational_number Decimal.toRat?_zero
  defined ρ _ := (denotesAt_number (ρ := ρ) Decimal.toRat?_zero).defined
  slope ρ defined := by
    rw [zero ρ defined, (isRational_number Decimal.toRat?_zero).value_zero rfl, snd_zero]

/-- A divisor that does not vary is pulled out. -/
theorem integrates_divisor {attached : Bool} (left : Integrates wrt integral l)
    (divisor : r.IsRational) (fixed : ¬ r.Occurs wrt) :
    Integrates wrt (buildQuotient integral r) (.binary .divide attached l r) where
  rational := left.rational.buildQuotient divisor
  defined ρ defined := ((denotesAt_self (left.defined ρ defined.1)).buildQuotient
    (denotesAt_self defined.2.1) defined.2.2).defined
  slope ρ defined := by
    rw [value_buildQuotient left.rational divisor, Interpretation.snd_dual_divide,
      divisor.fst_value, divisor.snd_value_eq_zero defined.2.1 fixed, left.slope ρ defined.1,
      mul_zero, zero_div, sub_zero]
    rfl

theorem IsInteger.isRational {e : Expr} {n : ℤ} (whole : e.IsInteger n) : e.IsRational := by
  induction whole with
  | literal value => exact .literal value
  | unary _ ih => exact .unary ih

/-- The power rule, where `literal` is one more than the exponent. -/
theorem integrates_power {attached : Bool} {exponent literal : Expr} {n : ℤ}
    (whole : exponent.IsInteger n) (raised : literal.IsInteger (n + 1)) (other : n ≠ -1)
    (short : |n + 1| < 10 ^ ambientDigits) :
    Integrates wrt (buildQuotient (buildPower (.var wrt) literal) literal)
      (.binary .power attached (.var wrt) exponent) := by
  have nonzero : ((n + 1 : ℤ) : ℚ) ≠ 0 := by
    rw [Int.cast_ne_zero]
    omega
  have power : (buildPower (.var wrt) literal).IsRational := IsRational.var.buildPower raised short
  have base : ∀ {ρ : String → ℚ}, (Expr.binary .power attached (.var wrt) exponent).DefinedAt ρ →
      n < 0 → ρ wrt ≠ 0 := by
    rintro ρ ⟨-, -, m, exponentValue, nonzero⟩
    have same : m = n := by exact_mod_cast exponentValue.symm.trans (whole.value ρ)
    rwa [same] at nonzero
  refine ⟨power.buildQuotient raised.isRational, fun ρ defined => ?_, fun ρ defined => ?_⟩
  · have raisedPower := (denotesAt_self (ρ := ρ) (a := .var wrt) trivial).buildPower
      (raised.denotesAt ρ) fun negative => base defined (by omega)
    exact (raisedPower.buildQuotient (raised.denotesAt ρ) nonzero).defined
  · have start : ((Expr.var wrt).value .dual (moved ρ wrt)).fst = ρ wrt :=
      IsRational.var.fst_value ρ wrt
    have step : ((Expr.var wrt).value .dual (moved ρ wrt)).snd = 1 := by
      change (moved ρ wrt wrt).snd = 1
      rw [moved_self, snd_add, snd_inl, DualNumber.snd_eps, zero_add]
    have fixed := raised.isRational.snd_value_eq_zero (raised.denotesAt ρ).defined
      (raised.not_occurs wrt)
    rw [value_buildQuotient power raised.isRational, Interpretation.snd_dual_divide,
      raised.fst_value, fixed, value_buildPower raised,
      Interpretation.snd_dual_power (raised.fst_value _) fun negative => by
        rw [start]
        exact base defined (by omega),
      start, step, mul_one, mul_zero, zero_div, sub_zero, mul_div_cancel_left₀ _ nonzero,
      add_sub_cancel_right]
    change _ = Interpretation.rational.power (ρ wrt) (exponent.value .rational ρ)
    rw [whole.value, Interpretation.rational_power_int]

/-- One more than an exponent is computed and written without a loss. -/
theorem exists_raised {n : ℤ} {d : Decimal} (value : d.toRat? = some (n : ℚ))
    (short : |n| < 10 ^ 27) : |n + 1| < 10 ^ ambientDigits ∧
      ∃ raised literal, Monomial.ambient.add d 1 = .ok raised ∧
        Monomial.literal raised = .ok literal ∧ literal.IsInteger (n + 1) := by
  have raisedShort : |n + 1| < 10 ^ ambientDigits := by
    have bound : (10 : ℤ) ^ 27 + 1 ≤ 10 ^ ambientDigits := by decide
    have step := abs_add_le n 1
    rw [abs_one] at step
    omega
  have raisedFits := representable_ambient raisedShort
  rw [Int.cast_add, Int.cast_one] at raisedFits
  obtain ⟨raised, added, raisedValue⟩ :=
    Precision.add_exact (p := Monomial.ambient) value Decimal.toRat?_one raisedFits
  rw [← Int.cast_one, ← Int.cast_add] at raisedValue
  obtain ⟨literal, written, raisedWhole⟩ :=
    isInteger_literal raisedValue (representable_ambient raisedShort)
  exact ⟨raisedShort, raised, literal, added, written, raisedWhole⟩

/-- The antiderivative of a power of the variable. -/
theorem integratePower_integrates {attached : Bool} {base exponent : Expr} {text : String} {n : ℤ}
    {ctx ctx' : Context} (whole : exponent.IsInteger n) (short : |n| < 10 ^ 27)
    (varies : base.Occurs wrt)
    (done : integratePower wrt base exponent text ctx = (.ok integral, ctx'))
    (arithmetic : integral.isArithmetic = true) :
    Integrates wrt integral (.binary .power attached base exponent) := by
  have fits : |n| < 10 ^ ambientDigits := short.trans (by decide)
  obtain ⟨d, middle, found, value⟩ := whole.value? fits ctx
  rw [integratePower, mentions_eq_false (whole.not_occurs wrt), mentions_iff.2 varies] at done
  cases isBase : base.isVar wrt with
  | false =>
    rw [isBase] at done
    cases done
  | true =>
    obtain rfl : base = .var wrt := by
      cases base with
      | var name => rw [eq_of_beq isBase]
      | _ => cases isBase
    rw [isBase] at done
    simp only [Bool.not_false, Bool.and_self, if_true] at done
    rw [Calc.bind_ok found] at done
    have opposite : (Decimal.ofInt (-1)).toRat? = some ((-1 : ℤ) : ℚ) := Decimal.toRat?_ofInt (-1)
    cases logarithm : d.same (.ofInt (-1)) with
    | true =>
      simp only [logarithm, if_true] at done
      obtain rfl := Calc.eq_of_pure done
      cases arithmetic
    | false =>
      have other : n ≠ -1 := by
        rintro rfl
        rw [(Decimal.same_iff value opposite).2 rfl] at logarithm
        cases logarithm
      obtain ⟨raisedShort, raised, literal, added, written, raisedWhole⟩ :=
        exists_raised value short
      simp only [logarithm, Bool.false_eq_true, if_false] at done
      rw [Calc.bind_ok (Calc.decimal_ok added middle),
        Calc.bind_ok (Calc.decimal_ok written middle)] at done
      obtain rfl := Calc.eq_of_pure done
      exact integrates_power whole raisedWhole other raisedShort

/-- The variable itself is the first power. -/
theorem integrates_var :
    Integrates wrt (buildQuotient (buildPower (.var wrt) (.number 2)) (.number 2)) (.var wrt) := by
  have one : (Expr.number 1).IsInteger 1 :=
    .literal (by rw [Int.cast_one]; exact Decimal.toRat?_one)
  have two : (Expr.number 2).IsInteger (1 + 1) :=
    .literal (by exact_mod_cast Decimal.toRat?_ofNat 2)
  have power : Integrates wrt _ (.binary .power false (.var wrt) (.number 1)) :=
    integrates_power one two (by decide) (by decide)
  have defined : ∀ ρ : String → ℚ,
      (Expr.binary .power false (.var wrt) (.number 1)).DefinedAt ρ := fun ρ =>
    ⟨trivial, (one.denotesAt ρ).defined, 1, one.value ρ,
      fun negative => absurd negative (by decide)⟩
  refine ⟨power.rational, fun ρ _ => power.defined ρ (defined ρ), fun ρ _ => ?_⟩
  rw [power.slope ρ (defined ρ)]
  change Interpretation.rational.power (ρ wrt) ((Expr.number 1).value .rational ρ) = ρ wrt
  rw [one.value, Interpretation.rational_power_int, zpow_one]

/-- What does not vary is multiplied by the variable at once. -/
theorem integrates_of_fixed {e : Expr} (rational : e.IsRational) (fixed : ¬ e.Occurs wrt)
    {ctx ctx' : Context} (done : e.antiderivative wrt ctx = (.ok integral, ctx')) :
    Integrates wrt integral e := by
  have built : e.antiderivative wrt ctx = (.ok (buildProduct e (.var wrt)), ctx) := by
    have missing := mentions_eq_false fixed
    rw [antiderivative.eq_def]
    cases rational with
    | @var name =>
      have other : (name == wrt) = false := by simpa [Occurs] using fixed
      simp only [other]
      rfl
    | _ =>
      simp only [missing]
      rfl
  obtain ⟨same, -⟩ := Prod.mk.inj (built.symm.trans done)
  obtain rfl := Except.ok.inj same
  exact integrates_fixed rational fixed

theorem antiderivative_binary {op : Operator} {attached : Bool}
    (varies : l.Occurs wrt ∨ r.Occurs wrt) :
    (Expr.binary op attached l r).antiderivative wrt = (match op with
      | .plus => return buildSum (← l.antiderivative wrt) (← r.antiderivative wrt)
      | .minus => return buildDifference (← l.antiderivative wrt) (← r.antiderivative wrt)
      | .times =>
        if !l.mentions wrt then return buildProduct l (← r.antiderivative wrt)
        else if !r.mentions wrt then return buildProduct (← l.antiderivative wrt) r
        else Calc.fail (.calculus (.integrateProduct (Expr.binary op attached l r).text))
      | .divide =>
        if !r.mentions wrt then return buildQuotient (← l.antiderivative wrt) r
        else if r.isAnyVar && !l.mentions wrt then
          return buildProduct l (buildLogMagnitude (.var wrt))
        else Calc.fail (.calculus (.integrateQuotient (Expr.binary op attached l r).text))
      | .power => integratePower wrt l r (Expr.binary op attached l r).text
      | _ => Calc.fail (.calculus (.integrate (Expr.binary op attached l r).text))) := by
  have varying : ¬ (!(Expr.binary op attached l r).mentions wrt) = true := by
    rw [mentions_iff.2 (show (Expr.binary op attached l r).Occurs wrt from varies)]
    decide
  rw [antiderivative.eq_def]
  cases op <;> exact if_neg varying

/-- An antiderivative of the tree is one as far as values go, unless there is a logarithm in it. -/
def IntegratesSoundly (wrt : String) (e : Expr) : Prop :=
  ∀ ⦃ctx ctx' : Context⦄ ⦃integral : Expr⦄, e.antiderivative wrt ctx = (.ok integral, ctx') →
    integral.isArithmetic = true → Integrates wrt integral e

theorem integratesSoundly_of_varying {e : Expr} (rational : e.IsRational)
    (varying : e.Occurs wrt → e.IntegratesSoundly wrt) : e.IntegratesSoundly wrt := by
  by_cases varies : e.Occurs wrt
  · exact varying varies
  · exact fun _ _ _ done _ => integrates_of_fixed rational varies done

theorem integratesSoundly_var {name : String} : (Expr.var name).IntegratesSoundly wrt := by
  refine integratesSoundly_of_varying .var fun varies ctx ctx' integral done _ => ?_
  obtain rfl : name = wrt := varies
  rw [antiderivative, beq_self_eq_true, if_pos rfl] at done
  obtain rfl := Calc.eq_of_pure done
  exact integrates_var

theorem integratesSoundly_unary {sign : Sign} {e : Expr} (operand : e.IsRational)
    (ih : e.IntegratesSoundly wrt) : (Expr.unary sign e).IntegratesSoundly wrt := by
  refine integratesSoundly_of_varying operand.unary fun varies ctx ctx' integral done
    arithmetic => ?_
  have mentioned : (Expr.unary sign e).mentions wrt = true := mentions_iff.2 varies
  simp only [antiderivative, mentioned, Bool.not_true, Bool.false_eq_true, if_false] at done
  obtain ⟨inner, middle, innerDone, rest⟩ := Calc.exists_of_bind done
  cases sign with
  | positive =>
    obtain rfl := Calc.eq_of_pure rest
    obtain ⟨rational, defined, slope⟩ := ih innerDone arithmetic
    exact ⟨rational, defined, slope⟩
  | negative =>
    obtain rfl := Calc.eq_of_pure rest
    exact integrates_negation (ih innerDone (isArithmetic_of_buildNegation arithmetic))

theorem integratesSoundly_sum {attached : Bool} (left : l.IsRational) (right : r.IsRational)
    (leftIh : l.IntegratesSoundly wrt) (rightIh : r.IntegratesSoundly wrt) :
    (Expr.binary .plus attached l r).IntegratesSoundly wrt := by
  refine integratesSoundly_of_varying (left.sum right) fun varies ctx ctx' integral done
    arithmetic => ?_
  rw [antiderivative_binary varies] at done
  obtain ⟨first, middle, leftDone, rest⟩ := Calc.exists_of_bind done
  obtain ⟨second, last, rightDone, rest⟩ := Calc.exists_of_bind rest
  obtain rfl := Calc.eq_of_pure rest
  obtain ⟨leftArithmetic, rightArithmetic⟩ := isArithmetic_of_buildSum arithmetic
  exact integrates_sum (leftIh leftDone leftArithmetic) (rightIh rightDone rightArithmetic)

theorem integratesSoundly_difference {attached : Bool} (left : l.IsRational)
    (right : r.IsRational) (leftIh : l.IntegratesSoundly wrt)
    (rightIh : r.IntegratesSoundly wrt) :
    (Expr.binary .minus attached l r).IntegratesSoundly wrt := by
  refine integratesSoundly_of_varying (left.difference right) fun varies ctx ctx' integral done
    arithmetic => ?_
  rw [antiderivative_binary varies] at done
  obtain ⟨first, middle, leftDone, rest⟩ := Calc.exists_of_bind done
  obtain ⟨second, last, rightDone, rest⟩ := Calc.exists_of_bind rest
  obtain rfl := Calc.eq_of_pure rest
  obtain ⟨leftArithmetic, rightArithmetic⟩ := isArithmetic_of_buildDifference arithmetic
  exact integrates_difference (leftIh leftDone leftArithmetic) (rightIh rightDone rightArithmetic)

/-- A factor that is zero takes a logarithm in the other one away. -/
theorem integratesSoundly_product {attached : Bool} (left : l.IsRational) (right : r.IsRational)
    (leftIh : l.IntegratesSoundly wrt) (rightIh : r.IntegratesSoundly wrt) :
    (Expr.binary .times attached l r).IntegratesSoundly wrt := by
  refine integratesSoundly_of_varying (left.product right) fun varies ctx ctx' integral done
    arithmetic => ?_
  rw [antiderivative_binary varies] at done
  by_cases leftVaries : l.Occurs wrt
  · by_cases rightVaries : r.Occurs wrt
    · simp only [mentions_iff.2 leftVaries, mentions_iff.2 rightVaries] at done
      cases done
    · simp only [mentions_iff.2 leftVaries, mentions_eq_false rightVaries] at done
      obtain ⟨first, middle, leftDone, rest⟩ := Calc.exists_of_bind done
      obtain rfl := Calc.eq_of_pure rest
      rcases (isArithmetic_of_buildProduct arithmetic).1 with leftArithmetic | zero
      · exact integrates_factor_right (leftIh leftDone leftArithmetic) right rightVaries
      · rw [buildProduct, zero, Bool.or_true, if_pos rfl]
        refine integrates_zero fun ρ _ => ?_
        change l.value .rational ρ * r.value .rational ρ = 0
        rw [right.value_zero zero, mul_zero]
  · simp only [mentions_eq_false leftVaries] at done
    obtain ⟨second, middle, rightDone, rest⟩ := Calc.exists_of_bind done
    obtain rfl := Calc.eq_of_pure rest
    rcases (isArithmetic_of_buildProduct arithmetic).2 with rightArithmetic | zero
    · exact integrates_factor left leftVaries (rightIh rightDone rightArithmetic)
    · rw [buildProduct, zero, Bool.true_or, if_pos rfl]
      refine integrates_zero fun ρ _ => ?_
      change l.value .rational ρ * r.value .rational ρ = 0
      rw [left.value_zero zero, zero_mul]

theorem integratesSoundly_quotient {attached : Bool} (left : l.IsRational) (right : r.IsRational)
    (leftIh : l.IntegratesSoundly wrt) :
    (Expr.binary .divide attached l r).IntegratesSoundly wrt := by
  refine integratesSoundly_of_varying (left.quotient right) fun varies ctx ctx' integral done
    arithmetic => ?_
  rw [antiderivative_binary varies] at done
  by_cases rightVaries : r.Occurs wrt
  · simp only [mentions_iff.2 rightVaries] at done
    cases reciprocal : r.isAnyVar && !l.mentions wrt with
    | false =>
      simp only [reciprocal] at done
      cases done
    | true =>
      simp only [reciprocal] at done
      obtain rfl := Calc.eq_of_pure done
      -- the logarithm is gone only if it is multiplied by zero
      rcases (isArithmetic_of_buildProduct arithmetic).2 with logarithm | zero
      · cases logarithm
      · rw [buildProduct, zero, Bool.true_or, if_pos rfl]
        refine integrates_zero fun ρ _ => ?_
        change l.value .rational ρ / r.value .rational ρ = 0
        rw [left.value_zero zero, zero_div]
  · simp only [mentions_eq_false rightVaries] at done
    obtain ⟨first, middle, leftDone, rest⟩ := Calc.exists_of_bind done
    obtain rfl := Calc.eq_of_pure rest
    exact integrates_divisor (leftIh leftDone (isArithmetic_of_buildQuotient arithmetic)) right
      rightVaries

theorem integratesSoundly_power {attached : Bool} {base exponent : Expr} {n : ℤ}
    (rational : base.IsRational) (whole : exponent.IsInteger n) (short : |n| < 10 ^ 27) :
    (Expr.binary .power attached base exponent).IntegratesSoundly wrt := by
  have fits : |n| < 10 ^ ambientDigits := short.trans (by decide)
  refine integratesSoundly_of_varying (.power rational whole fits) fun varies ctx ctx' integral done
    arithmetic => ?_
  rw [antiderivative_binary varies] at done
  exact integratePower_integrates whole short (varies.resolve_right (whole.not_occurs wrt)) done
    arithmetic

/-- The antiderivative of a rational function without a logarithm. -/
theorem integratesSoundly_of_isRational {e : Expr} (rational : e.IsRational)
    (short : e.ShortExponents) : e.IntegratesSoundly wrt := by
  induction rational with
  | literal value => exact fun _ _ _ done _ => integrates_of_fixed (.literal value) id done
  | var => exact integratesSoundly_var
  | unary operand ih => exact integratesSoundly_unary operand (ih short)
  | sum left right leftIh rightIh =>
    exact integratesSoundly_sum left right (leftIh short.1) (rightIh short.2)
  | difference left right leftIh rightIh =>
    exact integratesSoundly_difference left right (leftIh short.1) (rightIh short.2)
  | product left right leftIh rightIh =>
    exact integratesSoundly_product left right (leftIh short.1) (rightIh short.2)
  | quotient left right leftIh _ => exact integratesSoundly_quotient left right (leftIh short.1)
  | power base whole _ _ => exact integratesSoundly_power base whole (short.2 _ whole)

/-- The power rule has a result for every short exponent. -/
theorem exists_derivePower {base exponent d : Expr} {n : ℤ} (whole : exponent.IsInteger n)
    (short : |n| < 10 ^ ambientDigits) {dBase dExponent : Calc Expr} {ctx ctx' : Context}
    (done : dBase ctx = (.ok d, ctx')) :
    ∃ d ctx'', derivePower base exponent dBase dExponent true false ctx = (.ok d, ctx'') := by
  obtain ⟨k, ctx'', found, value⟩ := whole.value? short ctx'
  have pred := representable_pred short
  obtain ⟨reduced, subtracted, reducedValue⟩ :=
    Precision.sub_exact (p := Monomial.ambient) value Decimal.toRat?_one pred
  rw [← Int.cast_one, ← Int.cast_sub] at reducedValue pred
  obtain ⟨factor, factorDone, -⟩ := isInteger_literal value (representable_ambient short)
  obtain ⟨literal, literalDone, -⟩ := isInteger_literal reducedValue pred
  have powerDone : ∃ power, (if reduced.isZero then pure (.number 1)
      else buildPower base <$> Calc.decimal (Monomial.literal reduced) : Calc Expr) ctx'' =
        (.ok power, ctx'') := by
    split
    · exact ⟨_, rfl⟩
    · exact ⟨_, Calc.map_ok (Calc.decimal_ok literalDone ctx'')⟩
  obtain ⟨power, powerDone⟩ := powerDone
  exact ⟨_, ctx'', derivePower_apply done found subtracted powerDone factorDone⟩

/-- The derivative of a rational function exists, wherever it has a value or not. -/
theorem exists_deriveWith {e : Expr} (rational : e.IsRational) (onCall : Expr → Calc Expr)
    (wrt : String) (ctx : Context) :
    ∃ d ctx', e.deriveWith onCall wrt ctx = (.ok d, ctx') := by
  induction rational generalizing ctx with
  | literal _ => exact ⟨_, ctx, rfl⟩
  | var => exact ⟨_, ctx, rfl⟩
  | @unary sign e _ ih =>
    obtain ⟨d, ctx', done⟩ := ih ctx
    cases sign with
    | positive => exact ⟨d, ctx', Calc.bind_ok done⟩
    | negative => exact ⟨_, ctx', Calc.bind_ok done⟩
  | sum _ _ left right =>
    obtain ⟨d, ctx', leftDone⟩ := left ctx
    obtain ⟨d', ctx'', rightDone⟩ := right ctx'
    exact ⟨_, ctx'', (Calc.bind_ok leftDone).trans (Calc.bind_ok rightDone)⟩
  | difference _ _ left right =>
    obtain ⟨d, ctx', leftDone⟩ := left ctx
    obtain ⟨d', ctx'', rightDone⟩ := right ctx'
    exact ⟨_, ctx'', (Calc.bind_ok leftDone).trans (Calc.bind_ok rightDone)⟩
  | @product attached l r _ _ left right =>
    obtain ⟨d, ctx', leftDone⟩ := left ctx
    obtain ⟨d', ctx'', rightDone⟩ := right ctx
    obtain ⟨d'', last, rightDone'⟩ := right ctx'
    change ∃ d ctx', (if !l.mentions wrt && !r.mentions wrt then pure (.number 0)
      else if !l.mentions wrt then r.deriveWith onCall wrt >>= fun d => pure (buildProduct l d)
      else if !r.mentions wrt then l.deriveWith onCall wrt >>= fun d => pure (buildProduct d r)
      else l.deriveWith onCall wrt >>= fun d => r.deriveWith onCall wrt >>= fun d' =>
        pure (buildSum (buildProduct d r) (buildProduct l d')) : Calc Expr) ctx = (.ok d, ctx')
    cases l.mentions wrt <;> cases r.mentions wrt
    · exact ⟨_, ctx, rfl⟩
    · exact ⟨_, ctx'', Calc.bind_ok rightDone⟩
    · exact ⟨_, ctx', Calc.bind_ok leftDone⟩
    · exact ⟨_, last, (Calc.bind_ok leftDone).trans (Calc.bind_ok rightDone')⟩
  | @quotient attached l r _ _ left right =>
    obtain ⟨d, ctx', leftDone⟩ := left ctx
    obtain ⟨d', ctx'', rightDone⟩ := right ctx'
    change ∃ d ctx', (if !l.mentions wrt && !r.mentions wrt then pure (.number 0)
      else if !r.mentions wrt then l.deriveWith onCall wrt >>= fun d => pure (buildQuotient d r)
      else l.deriveWith onCall wrt >>= fun d => r.deriveWith onCall wrt >>= fun d' =>
        pure (buildQuotient (buildDifference (buildProduct d r) (buildProduct l d'))
          (buildPower r (.number 2))) : Calc Expr) ctx = (.ok d, ctx')
    cases l.mentions wrt <;> cases r.mentions wrt
    · exact ⟨_, ctx, rfl⟩
    · exact ⟨_, ctx'', (Calc.bind_ok leftDone).trans (Calc.bind_ok rightDone)⟩
    · exact ⟨_, ctx', Calc.bind_ok leftDone⟩
    · exact ⟨_, ctx'', (Calc.bind_ok leftDone).trans (Calc.bind_ok rightDone)⟩
  | @power attached base exponent n _ whole short left =>
    obtain ⟨d, ctx', leftDone⟩ := left ctx
    change ∃ d ctx', (if !base.mentions wrt && !exponent.mentions wrt then pure (.number 0)
      else derivePower base exponent (base.deriveWith onCall wrt) (exponent.deriveWith onCall wrt)
        (base.mentions wrt) (exponent.mentions wrt) : Calc Expr) ctx = (.ok d, ctx')
    rw [mentions_eq_false (whole.not_occurs wrt)]
    cases base.mentions wrt
    · exact ⟨_, ctx, rfl⟩
    · exact exists_derivePower whole short leftDone

/-- Where the antiderivative of a rational function has no logarithm, its derivative exists in every
context and has the value of the integrand, wherever no denominator and no base of a negative power
is zero in the integrand; then none is zero in the antiderivative. -/
theorem derivative_antiderivative {e : Expr} (rational : e.IsRational)
    (short : e.ShortExponents) {ctx ctx' : Context}
    (done : e.antiderivative wrt ctx = (.ok integral, ctx'))
    (noLogarithm : integral.isArithmetic = true) (anywhere : Context) :
    ∃ d after, integral.derivative wrt anywhere = (.ok d, after) ∧ ∀ ρ, e.DefinedAt ρ →
      integral.DefinedAt ρ ∧ d.DefinedAt ρ ∧ d.value .rational ρ = e.value .rational ρ := by
  have integrates := integratesSoundly_of_isRational rational short done noLogarithm
  obtain ⟨d, after, derived⟩ := exists_deriveWith integrates.rational
    (fun e => do deriveInlined wrt (← e.inline)) wrt anywhere
  refine ⟨d, after, derived, fun ρ defined => ?_⟩
  obtain ⟨d', after', derived', denotes⟩ := derives_deriveWith integrates.rational
    (fun e => do deriveInlined wrt (← e.inline)) (integrates.defined ρ defined) anywhere
  obtain ⟨same, -⟩ := Prod.mk.inj (derived.symm.trans derived')
  obtain rfl := Except.ok.inj same
  exact ⟨integrates.defined ρ defined, denotes.defined,
    denotes.value.trans (integrates.slope ρ defined)⟩

/-- `3*x^2-x^-2/y` -/
def scaledPowers : Expr :=
  .binary .minus false
    (.binary .times false (.number 3) (.binary .power false (.var "x") (.number 2)))
    (.binary .divide false
      (.binary .power false (.var "x") (.unary .negative (.number 2))) (.var "y"))

/-- `3*(x^3/3)-x^(-1)/(-1)/y` -/
def scaledIntegrals : Expr :=
  .binary .minus false
    (.binary .times false (.number 3)
      (.binary .divide false (.binary .power false (.var "x") (.number 3)) (.number 3)))
    (.binary .divide false
      (.binary .divide false (.binary .power false (.var "x") (.unary .negative (.number 1)))
        (.unary .negative (.number 1)))
      (.var "y"))

/-- The derivative of `3*(x^3/3)-x^(-1)/(-1)/y` is `12-1/8` where both variables are `2`. -/
theorem derivative_scaledIntegrals :
    (scaledPowers.antiderivative "x" .initial).1 = .ok scaledIntegrals ∧
    ∃ d after, scaledIntegrals.derivative "x" .initial = (.ok d, after) ∧
      d.value .rational (fun _ => 2) = 95 / 8 := by
  have three : (3 : Decimal).toRat? = some ((3 : ℤ) : ℚ) := by simpa using Decimal.toRat?_ofNat 3
  have two : (2 : Decimal).toRat? = some ((2 : ℤ) : ℚ) := by simpa using Decimal.toRat?_ofNat 2
  have square : IsInteger (.number 2) 2 := .literal two
  have inverse : IsInteger (.unary .negative (.number 2)) (-2) := .unary (.literal two)
  have rational : scaledPowers.IsRational :=
    .difference (.product (.literal three) (.power .var square (by decide)))
      (.quotient (.power .var inverse (by decide)) .var)
  have unique : ∀ {e : Expr} {m n : ℤ}, e.IsInteger m → e.IsInteger n → n = m :=
    fun first second => by exact_mod_cast (second.value (fun _ => 0)).symm.trans (first.value _)
  have short : scaledPowers.ShortExponents :=
    ⟨⟨trivial, trivial, fun n whole => by rw [unique square whole]; decide⟩,
      ⟨trivial, fun n whole => by rw [unique inverse whole]; decide⟩, trivial⟩
  have defined : scaledPowers.DefinedAt fun _ => 2 := by
    refine ⟨⟨by simp [DefinedAt, number, three], trivial, (square.denotesAt _).defined, 2,
      square.value _, by simp⟩, ⟨trivial, (inverse.denotesAt _).defined, -2, inverse.value _, ?_⟩,
      trivial, ?_⟩
    · intro _
      norm_num [Expr.value]
    · norm_num [Expr.value]
  have done : (scaledPowers.antiderivative "x" .initial).1 = .ok scaledIntegrals := by
    with_unfolding_all rfl
  obtain ⟨d, after, derived, correct⟩ := derivative_antiderivative rational short
    (Prod.ext done rfl) rfl .initial
  refine ⟨done, d, after, derived, (correct _ defined).2.2.trans ?_⟩
  change (3 : Decimal).toRat * Interpretation.rational.power 2 ((Expr.number 2).value .rational _) -
    Interpretation.rational.divide (Interpretation.rational.power 2
      ((Expr.unary .negative (.number 2)).value .rational _)) 2 = 95 / 8
  rw [square.value, inverse.value, Interpretation.rational_power_int,
    Interpretation.rational_power_int, Interpretation.rational_divide,
    Decimal.toRat_of_toRat? three]
  norm_num

end Expr

end Reckon
