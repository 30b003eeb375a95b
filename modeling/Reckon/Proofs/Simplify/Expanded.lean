import Reckon.Proofs.Simplify
import Reckon.Proofs.Simplify.Powers

/-!
# Expanded polynomials

`Expr.polynomial` is the polynomial with rational coefficients that a tree denotes. An expanded
polynomial is a sum with signs of terms that are products of numbers and powers of variables; its
terms are read as monomials, multiplied and written as trees again without a change of what they
denote, as long as no number that arises is rounded.

Results: `terms_polynomial`, `IsSummand.readsMonomial`, `givesSum_products`, `sum_polynomial`.
-/

namespace Reckon

/-- Polynomials with rational coefficients; all that they do not have counts as zero. -/
noncomputable def Interpretation.polynomial : Interpretation (MvPolynomial String ℚ) where
  divide _ _ := 0
  power a b := a ^ (b.coeff 0).num.toNat
  compare _ _ _ := 0
  call _ _ := 0

namespace Expr

variable {ctx : Context}

/-- The polynomial that a tree denotes. -/
noncomputable def polynomial (e : Expr) : MvPolynomial String ℚ :=
  e.value Interpretation.polynomial MvPolynomial.X

/-- A product of numbers and powers that is not zero. -/
inductive IsTerm (ctx : Context) : Expr → Prop
  | literal {n : Decimal} {written : Bool} {q : ℚ} :
      n.toRat? = some q → q ≠ 0 → IsTerm ctx (.literal n written)
  | var {name : String} : ctx.isBound name = false → IsTerm ctx (.var name)
  | power {attached written : Bool} {name : String} {n : Decimal} {k : Nat} :
      ctx.isBound name = false → n.toRat? = some (k : ℚ) →
      IsTerm ctx (.binary .power attached (.var name) (.literal n written))
  | times {attached : Bool} {l r : Expr} :
      IsTerm ctx l → IsTerm ctx r → IsTerm ctx (.binary .times attached l r)

/-- A term of a sum. -/
inductive IsSummand (ctx : Context) : Expr → Prop
  | zero {n : Decimal} {written : Bool} :
      n.toRat? = some 0 → IsSummand ctx (.literal n written)
  | term {e : Expr} : IsTerm ctx e → IsSummand ctx e

/-- A sum with signs. -/
inductive IsExpanded (ctx : Context) : Expr → Prop
  | summand {e : Expr} : IsSummand ctx e → IsExpanded ctx e
  | unary {sign : Sign} {e : Expr} : IsExpanded ctx e → IsExpanded ctx (.unary sign e)
  | plus {attached : Bool} {l r : Expr} :
      IsExpanded ctx l → IsExpanded ctx r → IsExpanded ctx (.binary .plus attached l r)
  | minus {attached : Bool} {l r : Expr} :
      IsExpanded ctx l → IsExpanded ctx r → IsExpanded ctx (.binary .minus attached l r)

theorem isSummand_literal {n : Decimal} {written : Bool} {q : ℚ} (value : n.toRat? = some q) :
    IsSummand ctx (.literal n written) := by
  by_cases zero : q = 0
  · rw [zero] at value
    exact .zero value
  · exact .term (.literal value zero)

theorem polynomial_literal {n : Decimal} {written : Bool} {q : ℚ} (value : n.toRat? = some q) :
    (Expr.literal n written).polynomial = MvPolynomial.C q := by
  rw [polynomial, Expr.value, Decimal.toRat_of_toRat? value, MvPolynomial.algebraMap_eq]

theorem polynomial_power {attached written : Bool} {name : String} {n : Decimal} {k : Nat}
    (value : n.toRat? = some (k : ℚ)) :
    (Expr.binary .power attached (.var name) (.literal n written)).polynomial =
      MvPolynomial.X name ^ k := by
  change MvPolynomial.X name ^ ((Expr.literal n written).polynomial.coeff 0).num.toNat = _
  rw [polynomial_literal value, MvPolynomial.coeff_C, if_pos rfl, Rat.num_natCast,
    Int.toNat_natCast]

theorem IsTerm.polynomial_ne_zero {e : Expr} (term : e.IsTerm ctx) : e.polynomial ≠ 0 := by
  induction term with
  | literal value nonzero =>
    rw [polynomial_literal value]
    exact fun zero => nonzero (MvPolynomial.C_eq_zero.1 zero)
  | var _ => exact MvPolynomial.X_ne_zero _
  | power _ exponent =>
    rw [polynomial_power exponent]
    exact pow_ne_zero _ (MvPolynomial.X_ne_zero _)
  | times _ _ left right => exact mul_ne_zero left right

/-- The sum of terms with signs. -/
noncomputable def signedSum (ts : List (Sign × Expr)) : MvPolynomial String ℚ :=
  (ts.map fun (s, e) => signed s e.polynomial).sum

theorem signedSum_append (ts ts' : List (Sign × Expr)) :
    signedSum (ts ++ ts') = signedSum ts + signedSum ts' := by
  rw [signedSum, List.map_append, List.sum_append]
  rfl

/-- The terms of a sum add up to it. -/
theorem terms_polynomial {e : Expr} (expanded : e.IsExpanded ctx) (sign : Sign) :
    (∀ t ∈ e.terms sign, t.2.IsSummand ctx) ∧
      signedSum (e.terms sign) = signed sign e.polynomial := by
  induction expanded generalizing sign with
  | @summand e summand =>
    have self : e.terms sign = [(sign, e)] := by
      cases summand with
      | zero value => rfl
      | term term => cases term <;> rfl
    rw [self]
    refine ⟨fun t member => ?_, by simp [signedSum]⟩
    rwa [List.mem_singleton.1 member]
  | @unary s e _ ih =>
    obtain ⟨summands, value⟩ := ih (s.times sign)
    refine ⟨summands, value.trans ?_⟩
    rw [signed_times]
    cases s <;> cases sign <;> rfl
  | @plus attached l r _ _ leftIh rightIh =>
    obtain ⟨leftTerms, leftValue⟩ := leftIh sign
    obtain ⟨rightTerms, rightValue⟩ := rightIh sign
    refine ⟨fun t member => (List.mem_append.1 member).elim (leftTerms t) (rightTerms t), ?_⟩
    rw [terms, signedSum_append, leftValue, rightValue, ← signed_add]
    rfl
  | @minus attached l r _ _ leftIh rightIh =>
    obtain ⟨leftTerms, leftValue⟩ := leftIh sign
    obtain ⟨rightTerms, rightValue⟩ := rightIh sign.opposite
    refine ⟨fun t member => (List.mem_append.1 member).elim (leftTerms t) (rightTerms t), ?_⟩
    rw [terms, signedSum_append, leftValue, rightValue, signed_opposite, ← signed_add,
      ← sub_eq_add_neg]
    rfl

/-! ## Terms as monomials -/

/-- The tree is read as a monomial that denotes the same. -/
def ReadsMonomial (ctx : Context) (e : Expr) : Prop :=
  ∃ m, Calc.Yields ctx e.monomial m ∧ m.Pure ctx ∧ m.polynomial = e.polynomial

theorem not_isClosed_var {name : String} (unbound : ctx.isBound name = false) :
    (Expr.var name).isClosed ctx = false := by
  simp [isClosed, names, collectNames, unbound]

theorem not_isClosed_power {attached written : Bool} {name : String} {n : Decimal}
    (unbound : ctx.isBound name = false) :
    (Expr.binary .power attached (.var name) (.literal n written)).isClosed ctx = false := by
  simp [isClosed, names, collectNames, unbound]

/-- A term without variables is computed exactly. -/
theorem IsTerm.evaluates {e : Expr} (term : e.IsTerm ctx) (closed : e.isClosed ctx = true)
    (compact : AllCompact (e.subvalues ctx.valuation)) :
    ∃ n, Calc.Yields ctx e.eval (.numeric n) ∧ n.toRat? = some (e.rationalValue ctx.valuation) ∧
      e.polynomial = MvPolynomial.C (e.rationalValue ctx.valuation) := by
  induction term with
  | @literal n written q value _ =>
    refine ⟨n, yields_literal n written, ?_, ?_⟩
    · rw [rationalValue_literal value, value]
    · rw [rationalValue_literal value, polynomial_literal value]
  | var unbound => exact absurd closed (by simp [not_isClosed_var unbound])
  | power unbound _ => exact absurd closed (by simp [not_isClosed_power unbound])
  | @times attached l r _ _ left right =>
    rw [isClosed_iff] at closed
    rw [subvalues, allCompact_insert, allCompact_union] at compact
    obtain ⟨fits, leftFits, rightFits⟩ := compact
    obtain ⟨m, leftYields, leftValue, leftConstant⟩ :=
      left (isClosed_iff.2 fun name occurs => closed name (Or.inl occurs)) leftFits
    obtain ⟨n, rightYields, rightValue, rightConstant⟩ :=
      right (isClosed_iff.2 fun name occurs => closed name (Or.inr occurs)) rightFits
    obtain ⟨k, multiplied, value⟩ :=
      Precision.mul_exact (p := exactPrecision) leftValue rightValue (Compact.exact fits)
    refine ⟨k, yields_binary leftYields rightYields leftValue rightValue
      (leftFits _ (mem_subvalues l)) (rightFits _ (mem_subvalues r)) ?_, value, ?_⟩
    · intro digits
      rw [Arithmetic.apply, multiplied]
      rfl
    · change l.polynomial * r.polynomial = _
      rw [leftConstant, rightConstant, ← MvPolynomial.C_mul]
      rfl

theorem IsTerm.isArithmetic {e : Expr} (term : e.IsTerm ctx) : e.isArithmetic = true := by
  induction term with
  | times _ _ left right => exact Bool.and_eq_true_iff.2 ⟨left, right⟩
  | _ => rfl

/-- A term with a variable is no number. -/
theorem IsTerm.yields_value_none {e : Expr} (term : e.IsTerm ctx)
    (isOpen : e.isClosed ctx = false) : Calc.Yields ctx e.value? none :=
  yields_value_of_open term.isArithmetic isOpen

theorem yields_value_literal (n : Decimal) (written : Bool) :
    Calc.Yields ctx (Expr.literal n written).value? (some n) :=
  yields_value_of_closed rfl rfl (yields_literal n written)

theorem pure_ofNumber (ctx : Context) {n : Decimal} {q : ℚ} (value : n.toRat? = some q)
    (fits : Compact q) :
    (Monomial.ofNumber n).Pure ctx ∧ (Monomial.ofNumber n).polynomial = MvPolynomial.C q := by
  refine ⟨⟨⟨q, value, fits⟩, .nil, rfl⟩, ?_⟩
  rw [Monomial.polynomial, MvPolynomial.C_apply]
  exact congrArg (MvPolynomial.monomial 0) (Decimal.toRat_of_toRat? value)

theorem pure_ofPower {name : String} {n : Decimal} {k : Nat} (unbound : ctx.isBound name = false)
    (exponent : n.toRat? = some (k : ℚ)) :
    (Monomial.ofPower name n).Pure ctx ∧
      (Monomial.ofPower name n).polynomial = MvPolynomial.X name ^ k := by
  refine ⟨⟨sound_one, Monomial.pureCons_iff.2 ⟨List.not_mem_nil, unbound, ⟨k, exponent⟩, .nil⟩,
    rfl⟩, ?_⟩
  have exponents : (Monomial.ofPower name n).exponents = Finsupp.single name k := by
    rw [Monomial.exponents, Monomial.ofPower, Monomial.exponentsOf_cons,
      Monomial.degree_eq exponent]
    exact add_zero _
  rw [Monomial.polynomial, exponents, MvPolynomial.X_pow_eq_monomial]
  exact congrArg _ (Decimal.toRat_of_toRat? Decimal.toRat?_one)

/-- A term without variables is a number. -/
theorem IsTerm.readsMonomial_closed {e : Expr} (term : e.IsTerm ctx)
    (closed : e.isClosed ctx = true) (compact : AllCompact (e.monomialNumbers ctx)) :
    e.ReadsMonomial ctx := by
  rw [monomialNumbers_closed closed] at compact
  obtain ⟨n, yields, value, constant⟩ := term.evaluates closed compact
  have found := yields_value_of_closed term.isArithmetic closed yields
  obtain ⟨pure, polynomial⟩ := pure_ofNumber ctx value (compact _ (mem_subvalues e))
  exact ⟨_, yields_ofNumber found, pure, polynomial.trans constant.symm⟩

theorem IsTerm.readsMonomial {e : Expr} (term : e.IsTerm ctx)
    (compact : AllCompact (e.monomialNumbers ctx)) : e.ReadsMonomial ctx := by
  induction term with
  | literal value nonzero =>
    exact IsTerm.readsMonomial_closed (.literal value nonzero) rfl compact
  | @var name unbound =>
    have none := (IsTerm.var unbound).yields_value_none (not_isClosed_var unbound)
    have one : (1 : Decimal).toRat? = some ((1 : Nat) : ℚ) := Decimal.toRat?_ofNat 1
    obtain ⟨pure, polynomial⟩ := pure_ofPower unbound one
    refine ⟨.ofPower name 1, ?_, pure, by rw [polynomial, pow_one]; rfl⟩
    rw [monomial]
    exact none.bind (Calc.yields_pure _)
  | @power attached written name n k unbound exponent =>
    have term : (Expr.binary .power attached (.var name) (.literal n written)).IsTerm ctx :=
      .power unbound exponent
    have none := term.yields_value_none (not_isClosed_power unbound)
    have free : Calc.Yields ctx (Calc.look (·.isBound name)) false :=
      Calc.yields_look fun before same => by rw [same.isBound_eq, unbound]
    obtain ⟨pure, polynomial⟩ := pure_ofPower unbound exponent
    refine ⟨.ofPower name n, ?_, pure, polynomial.trans (polynomial_power exponent).symm⟩
    rw [monomial.eq_def]
    exact none.bind (free.bind ((yields_value_literal n written).bind (Calc.yields_pure _)))
  | @times attached l r leftTerm rightTerm left right =>
    have term : (Expr.binary .times attached l r).IsTerm ctx := .times leftTerm rightTerm
    cases closed : (Expr.binary .times attached l r).isClosed ctx with
    | true => exact term.readsMonomial_closed closed compact
    | false =>
      rw [monomialNumbers, closed, if_neg Bool.false_ne_true, if_pos rfl, allCompact_union,
        allCompact_union] at compact
      obtain ⟨⟨leftFits, rightFits⟩, products⟩ := compact
      obtain ⟨a, leftYields, leftPure, leftValue⟩ := left leftFits
      obtain ⟨b, rightYields, rightPure, rightValue⟩ := right rightFits
      obtain ⟨m, product, pure, value⟩ := Monomial.mul_polynomial leftPure rightPure
        fun q member => products q ⟨a, b, leftYields.result, rightYields.result, member⟩
      refine ⟨m, ?_, pure, by rw [value, leftValue, rightValue]; rfl⟩
      rw [monomial.eq_def]
      exact (term.yields_value_none closed).bind
        (leftYields.bind (rightYields.bind (Calc.yields_decimal product)))

theorem IsSummand.readsMonomial {e : Expr} (summand : e.IsSummand ctx)
    (compact : AllCompact (e.monomialNumbers ctx)) : e.ReadsMonomial ctx := by
  cases summand with
  | @zero n written value =>
    obtain ⟨pure, polynomial⟩ := pure_ofNumber ctx value (representable_zero _)
    exact ⟨_, yields_ofNumber (yields_value_literal n written), pure,
      polynomial.trans (polynomial_literal value).symm⟩
  | term term => exact term.readsMonomial compact

/-! ## Products of sums -/

/-- The computation gives monomials with this sum. -/
def GivesSum (ctx : Context) (act : Calc (List Monomial)) (p : MvPolynomial String ℚ) : Prop :=
  ∃ ms, Calc.Yields ctx act ms ∧ (∀ m ∈ ms, m.Pure ctx) ∧ Monomial.sumOf ms = p

/-- Expanded polynomials as such. -/
noncomputable def polynomialReading (ctx : Context) : Reading ctx (MvPolynomial String ℚ) where
  IsTree := IsSummand ctx
  IsMonomial := Monomial.Pure ctx
  tree := Expr.polynomial
  monomial := Monomial.polynomial
  reads := IsSummand.readsMonomial
  mul := Monomial.mul_polynomial
  withSign := Monomial.withSign_polynomial

theorem givesSum_signedTerm {e : Expr} (summand : e.IsSummand ctx) (sign : Sign)
    (compact : AllCompact (e.monomialNumbers ctx)) :
    GivesSum ctx (signedTerm sign e) (signed sign e.polynomial) :=
  (polynomialReading ctx).gives_signedTerm summand sign compact

theorem givesSum_append {left right : Calc (List Monomial)} {p q : MvPolynomial String ℚ}
    (first : GivesSum ctx left p) (second : GivesSum ctx right q) :
    GivesSum ctx (do return (← left) ++ (← right)) (p + q) := by
  have first : (polynomialReading ctx).Gives left p := first
  exact first.append second

theorem givesSum_products {left right : List (Sign × Expr)}
    (leftTerms : ∀ t ∈ left, t.2.IsSummand ctx) (leftNumbers : AllCompact (termNumbers ctx left))
    (rightTerms : ∀ t ∈ right, t.2.IsSummand ctx)
    (rightNumbers : AllCompact (termNumbers ctx right))
    (pairs : AllCompact (pairNumbers ctx left right)) :
    GivesSum ctx (products right left) (signedSum left * signedSum right) :=
  (polynomialReading ctx).gives_products rightTerms rightNumbers leftTerms leftNumbers pairs

end Expr

/-! ## Monomials as trees -/

namespace Monomial

open Reckon.Expr (IsTerm IsExpanded)

variable {ctx : Context}

/-- The trees of powers of variables. -/
theorem powerFactors_polynomial : ∀ {powers : List (String × Decimal)}, PurePowers ctx powers →
    ∃ factors, powerFactors powers = .ok factors ∧ (∀ e ∈ factors, e.IsTerm ctx) ∧
      (factors.map Expr.polynomial).prod = MvPolynomial.monomial (exponentsOf powers) 1
  | [], _ => ⟨[], rfl, by simp, rfl⟩
  | (name, n) :: rest, pure => by
    obtain ⟨-, unbound, ⟨k, exponent⟩, others⟩ := pureCons_iff.1 pure
    obtain ⟨factors, done, terms, value⟩ := powerFactors_polynomial others
    have exponent : n.toRat? = some (k : ℚ) := exponent
    have product : MvPolynomial.monomial (exponentsOf ((name, n) :: rest)) (1 : ℚ) =
        MvPolynomial.X name ^ k * MvPolynomial.monomial (exponentsOf rest) 1 := by
      rw [exponentsOf_cons, degree_eq exponent, MvPolynomial.X_pow_eq_monomial,
        MvPolynomial.monomial_mul, one_mul]
    rw [product]
    rcases powerFactors_cons name exponent done with ⟨none, tree⟩ | ⟨single, tree⟩ | tree
    · exact ⟨factors, tree, terms, by rw [value, none, pow_zero, one_mul]⟩
    · refine ⟨_, tree, List.forall_mem_cons.2 ⟨.var unbound, terms⟩, ?_⟩
      rw [List.map_cons, List.prod_cons, value, single, pow_one]
      rfl
    · refine ⟨_, tree, List.forall_mem_cons.2 ⟨.power unbound exponent, terms⟩, ?_⟩
      rw [List.map_cons, List.prod_cons, value, Expr.number, Expr.polynomial_power exponent]

theorem juxtaposed_polynomial : ∀ {factors : List Expr} {e : Expr}, e.IsTerm ctx →
    (∀ factor ∈ factors, factor.IsTerm ctx) →
    (factors.foldl Expr.juxtaposed e).IsTerm ctx ∧
      (factors.foldl Expr.juxtaposed e).polynomial =
        e.polynomial * (factors.map Expr.polynomial).prod
  | [], e, term, _ => ⟨term, by simp⟩
  | factor :: factors, e, term, terms => by
    obtain ⟨head, others⟩ := List.forall_mem_cons.1 terms
    obtain ⟨term', value⟩ := juxtaposed_polynomial (.times term head) others
    refine ⟨term', value.trans ?_⟩
    rw [List.map_cons, List.prod_cons, ← mul_assoc]
    rfl

/-- A product with a coefficient that is not zero. -/
theorem product_polynomial {magnitude : Decimal} {x : ℚ} {factors : List Expr}
    (coefficient : magnitude.toRat? = some x) (nonzero : x ≠ 0)
    (terms : ∀ factor ∈ factors, factor.IsTerm ctx) :
    (product magnitude factors).IsTerm ctx ∧
      (product magnitude factors).polynomial =
        MvPolynomial.C x * (factors.map Expr.polynomial).prod := by
  have number : (Expr.number magnitude).IsTerm ctx := .literal coefficient nonzero
  have numberValue : (Expr.number magnitude).polynomial = MvPolynomial.C x :=
    Expr.polynomial_literal coefficient
  cases factors with
  | nil => exact ⟨number, by simpa [product] using numberValue⟩
  | cons factor factors =>
    obtain ⟨head, others⟩ := List.forall_mem_cons.1 terms
    obtain ⟨term, value⟩ := juxtaposed_polynomial head others
    rw [List.map_cons, List.prod_cons, ← value, product]
    split
    next one =>
      rw [(Decimal.same_iff coefficient Decimal.toRat?_one).1 one, map_one, one_mul]
      exact ⟨term, rfl⟩
    next => exact ⟨.times number term, congrArg (· * _) numberValue⟩

/-- The tree of a monomial that is not zero. -/
theorem toExpr_polynomial {m : Monomial} (pure : m.Pure ctx) (nonzero : m.coefficient.toRat ≠ 0) :
    ∃ e, m.toExpr = .ok e ∧ e.IsExpanded ctx ∧ e.polynomial = m.polynomial := by
  obtain ⟨x, xValue, fits⟩ := pure.coefficient
  obtain ⟨factors, done, terms, value⟩ := powerFactors_polynomial pure.powers
  obtain ⟨magnitude, magnitudeValue, tree⟩ := toExpr_exact xValue fits done
  rw [pure.others, List.append_nil] at tree
  rw [Decimal.toRat_of_toRat? xValue] at nonzero
  obtain ⟨term, productValue⟩ :=
    product_polynomial magnitudeValue (abs_ne_zero.2 nonzero) terms
  have monomial : ∀ y : ℚ, MvPolynomial.C y * (factors.map Expr.polynomial).prod =
      MvPolynomial.monomial m.exponents y := by
    intro y
    rw [value, MvPolynomial.C_mul_monomial, mul_one]
    rfl
  rw [monomial] at productValue
  rw [polynomial, Decimal.toRat_of_toRat? xValue]
  by_cases negative : x < 0
  · rw [if_pos negative] at tree
    refine ⟨_, tree, .unary (.summand (.term term)), ?_⟩
    change -(product magnitude _).polynomial = _
    rw [productValue, abs_of_neg negative, map_neg, neg_neg]
  · rw [if_neg negative] at tree
    refine ⟨_, tree, .summand (.term term), ?_⟩
    rw [productValue, abs_of_nonneg (not_lt.1 negative)]

/-- A monomial is added to a tree or, if it is negative, its negation is taken away. -/
theorem addTerm_polynomial {e : Expr} {m : Monomial} (expanded : e.IsExpanded ctx)
    (pure : m.Pure ctx) (nonzero : m.coefficient.toRat ≠ 0) :
    ∃ e', (do
        if ← m.coefficient.less 0 then
          return Expr.binary .minus false e (← (← m.negate).toExpr)
        else return Expr.binary .plus false e (← m.toExpr) : Except Signal Expr) = .ok e' ∧
      e'.IsExpanded ctx ∧ e'.polynomial = e.polynomial + m.polynomial := by
  obtain ⟨x, xValue, -⟩ := pure.coefficient
  rw [Decimal.less_eq xValue Decimal.toRat?_zero]
  by_cases negative : x < 0
  · obtain ⟨m', negated, pure', value⟩ := withSign_polynomial pure .negative
    have nonzero' : m'.coefficient.toRat ≠ 0 := by
      intro zero
      have none : m'.polynomial = 0 := by rw [polynomial, zero, map_zero]
      rw [value, Expr.signed, neg_eq_zero, polynomial, MvPolynomial.monomial_eq_zero] at none
      exact nonzero none
    obtain ⟨t, done, term, termValue⟩ := toExpr_polynomial pure' nonzero'
    refine ⟨.binary .minus false e t, ?_, .minus expanded term, ?_⟩
    · rw [decide_eq_true negative, show m.negate = _ from negated]
      change (do return Expr.binary .minus false e (← m'.toExpr)) = _
      rw [done]
      rfl
    · change e.polynomial - t.polynomial = _
      rw [termValue, value, Expr.signed, sub_neg_eq_add]
  · obtain ⟨t, done, term, termValue⟩ := toExpr_polynomial pure nonzero
    refine ⟨.binary .plus false e t, ?_, .plus expanded term, ?_⟩
    · rw [decide_eq_false negative, done]
      rfl
    · change e.polynomial + t.polynomial = _
      rw [termValue]

theorem addTerms_polynomial : ∀ {ms : List Monomial} {e : Expr}, e.IsExpanded ctx →
    (∀ m ∈ ms, m.Pure ctx) → (∀ m ∈ ms, m.coefficient.toRat ≠ 0) →
    ∃ e', ms.foldlM (fun e m => do
        if ← m.coefficient.less 0 then
          return Expr.binary .minus false e (← (← m.negate).toExpr)
        else return Expr.binary .plus false e (← m.toExpr)) e = .ok e' ∧ e'.IsExpanded ctx ∧
      e'.polynomial = e.polynomial + sumOf ms
  | [], e, expanded, _, _ => ⟨e, rfl, expanded, by simp [sumOf]⟩
  | m :: ms, e, expanded, pures, nonzeros => by
    obtain ⟨head, others⟩ := List.forall_mem_cons.1 pures
    obtain ⟨nonzero, otherNonzeros⟩ := List.forall_mem_cons.1 nonzeros
    obtain ⟨middle, added, expanded', middleValue⟩ := addTerm_polynomial expanded head nonzero
    obtain ⟨e', done, expanded'', value⟩ := addTerms_polynomial expanded' others otherNonzeros
    refine ⟨e', ?_, expanded'', ?_⟩
    · rw [List.foldlM_cons, added]
      exact done
    · rw [value, middleValue, sumOf_cons, add_assoc]

/-- The tree of a sum of monomials that are not zero. -/
theorem sum_polynomial {ms : List Monomial} (pures : ∀ m ∈ ms, m.Pure ctx)
    (nonzeros : ∀ m ∈ ms, m.coefficient.toRat ≠ 0) :
    ∃ e, sum ms = .ok e ∧ e.IsExpanded ctx ∧ e.polynomial = sumOf ms := by
  cases ms with
  | nil =>
    refine ⟨.number 0, rfl, .summand (.zero Decimal.toRat?_zero), ?_⟩
    rw [Expr.number, Expr.polynomial_literal Decimal.toRat?_zero, map_zero]
    rfl
  | cons m ms =>
    obtain ⟨head, others⟩ := List.forall_mem_cons.1 pures
    obtain ⟨nonzero, otherNonzeros⟩ := List.forall_mem_cons.1 nonzeros
    obtain ⟨first, done, expanded, firstValue⟩ := toExpr_polynomial head nonzero
    obtain ⟨e, summed, expanded', value⟩ := addTerms_polynomial expanded others otherNonzeros
    refine ⟨e, ?_, expanded', by rw [value, firstValue, sumOf_cons]⟩
    rw [sum, done]
    exact summed

end Monomial

end Reckon
