import Reckon.Proofs.Request.Constant
import Reckon.Proofs.Request.Settings

/-!
# Answers asked again

The text of an answer that is a number is read as a literal, under a minus sign if the number is
negative. Its digits are all kept, it stays as far from zero as it was, and so it is answered by the
same number (`evaluate_again`). This is different where the text is not that of the number: an
infinity has no literal, and a text keeps a thousand digits only (`evaluate_again_other`).
-/

namespace Reckon

open Calc Context

variable {ctx : Context} {q : ℚ} {digits : Nat}

/-! ## What answers are like -/

/-- Settling the number does nothing but round it. -/
structure IsAnswer (q : ℚ) : Prop where
  visible : q = 0 ∨ 10 ^ (-7 : ℤ) ≤ Monomial.ambient.magnitude |q|
  bounded : |q| < 10 ^ (maxExponent + 1)

theorem isAnswer_zero : IsAnswer 0 :=
  ⟨.inl rfl, by rw [abs_zero]; exact Decimal.ten_zpow_pos _⟩

/-- A number far from zero is still far from zero when it has been rounded. -/
theorem isAnswer_settledTo (positive : 0 < digits)
    (bounded : |settledTo (10 ^ (-7 : ℤ)) digits q| < 10 ^ (maxExponent + 1)) :
    IsAnswer (settledTo (10 ^ (-7 : ℤ)) digits q) := by
  refine ⟨?_, bounded⟩
  unfold settledTo
  split
  next => exact .inl rfl
  next far =>
    rw [← Precision.magnitude_abs]
    exact .inr (Precision.pow_le_magnitude_magnitude (by decide) positive (by decide)
      (abs_nonneg q) (not_lt.1 far))

theorem IsAnswer.settledTo_eq (answer : IsAnswer q)
    (exact : (Precision.halfUp digits).rounded q = q) :
    settledTo (10 ^ (-7 : ℤ)) digits q = q := by
  unfold settledTo
  split
  next near => exact (answer.visible.resolve_right near.not_ge).symm
  next => exact exact

theorem IsAnswer.inRange (answer : IsAnswer q) : InRange q := by
  refine answer.visible.imp id fun visible => ⟨?_, answer.bounded⟩
  have some : 0 < |q| := Precision.pos_of_magnitude_pos (abs_nonneg q)
    ((Decimal.ten_zpow_pos (-7)).trans_le visible)
  rw [Precision.pow_le_magnitude_iff (by decide) (by decide) some] at visible
  calc (10 : ℚ) ^ minExponent ≤ 10 ^ ((-7 : ℤ) - 1) :=
        zpow_le_zpow_right₀ (by norm_num) (by decide)
    _ ≤ |q| := (Precision.pow_pred_lt_leastTo (by decide)).le.trans visible

/-- A number is only answered by a finite number if it is one. -/
theorem isAnswer_of_settle {n r : Decimal} {ctx' : Context}
    (default : ctx.params.zeroEpsilon = .finite false 1 (-7)) (positive : 0 < ctx.params.precision)
    (done : (Term.numeric n).settle ctx = (.ok (.numeric r), ctx')) (value : r.toRat? = some q) :
    IsAnswer q := by
  cases n with
  | finite s c e =>
    have epsilon : ctx.params.zeroEpsilon.toRat? = some (10 ^ (-7 : ℤ)) := by
      rw [default, Decimal.toRat?_tens]
    obtain ⟨m, same, mValue, bounded⟩ := settle_value done rfl epsilon positive
    obtain rfl := Term.numeric.inj same
    obtain rfl := Option.some.inj (value.symm.trans mValue)
    exact isAnswer_settledTo positive bounded
  | infinity s =>
    have far : (do (← Monomial.ambient.abs (.infinity s)).less ctx.params.zeroEpsilon) =
        Except.ok false := by
      rw [default]
      rfl
    rw [Term.settle, bind_ok (look_apply _ ctx), bind_ok (decimal_ok far ctx),
      if_neg Bool.false_ne_true, lift_apply, Term.rounded, Term.roundDigits,
      if_neg positive.ne'] at done
    cases done
    cases value
  | nan s signaling payload =>
    have failed : (Monomial.ambient.abs (.nan s signaling payload) >>= fun a =>
        a.less ctx.params.zeroEpsilon) = Except.error .invalidOperation := by
      rw [default]
      cases signaling <;> rfl
    rw [Term.settle, bind_ok (look_apply _ ctx), failed] at done
    cases congrArg Prod.fst done

theorem hasDigits_significantDigits {n : Decimal} (value : n.toRat? = some q) :
    HasDigits n.significantDigits q := by
  obtain ⟨s, c, e, rfl, eq⟩ := Decimal.exists_of_toRat? value
  refine ⟨Decimal.signedCoefficient s c, e, eq.symm, ?_⟩
  have less := lt_pow_digitCount c
  rw [← Decimal.abs_signedCoefficient s c, zpow_natCast] at less
  exact_mod_cast less

namespace Monomial

theorem collect_ofNumber (n : Decimal) :
    collect [ofNumber n] = .ok (if n.isZero then [] else [ofNumber n]) := by
  have constant : (ofNumber n).isConstant = true := by simp [isConstant, key, ofNumber]
  have coefficient : (ofNumber n).coefficient = n := rfl
  have steps : collect [ofNumber n] =
      .ok (([ofNumber n].filter (!·.coefficient.isZero)).filter (!·.isConstant) ++
        ([ofNumber n].filter (!·.coefficient.isZero)).filter (·.isConstant)) := rfl
  rw [steps]
  cases zero : n.isZero <;> simp [constant, coefficient, zero]

/-- A number is written as a number, perhaps under a minus sign. -/
theorem exists_number_of_sum {n : Decimal} {e : Expr}
    (done : (do sum (← collect [ofNumber n])) = .ok e) :
    ∃ a, e = .number a ∨ e = .unary .negative (.number a) := by
  rw [collect_ofNumber] at done
  cases zero : n.isZero with
  | true =>
    rw [zero] at done
    cases done
    exact ⟨0, .inl rfl⟩
  | false =>
    rw [zero] at done
    obtain ⟨first, shown, same⟩ := exists_of_ok_bind (show sum [ofNumber n] = .ok e from done)
    obtain rfl : first = e := Except.ok.inj same
    obtain ⟨factors, none, shown⟩ := exists_of_ok_bind shown
    obtain rfl : [] = factors := Except.ok.inj none
    obtain ⟨a, -, signed⟩ := exists_of_ok_bind shown
    obtain ⟨negative, -, written⟩ := exists_of_ok_bind signed
    cases negative with
    | true => exact ⟨a, .inr (Except.ok.inj written).symm⟩
    | false => exact ⟨a, .inl (Except.ok.inj written).symm⟩

end Monomial

namespace Expr

variable {e : Expr}

/-- Taking its parentheses away makes no number of the evaluated text. -/
def StaysText (ctx : Context) (e : Expr) : Prop :=
  ∀ t, ((do (← e.prepare).eval : Calc Term) ctx).1 = .ok t → t.removeParens.isNumeric = t.isNumeric

theorem raisesPrecision_prepare_eval (e : Expr) :
    Keeps RaisesPrecision (do (← e.prepare).eval) := by
  have keeps : Keeps Confined (do (← e.prepare).eval) :=
    (ensures_prepare (Nat.le_refl e.nesting)).bind fun e' small =>
      keeps_eval (fun f _ => keeps_define f) small
  exact keeps.mono (fun _ known => known) (fun _ _ confined => confined.params) fun _ _ => trivial

theorem isAnswer_of_answer {r : Decimal} (stays : e.StaysText ctx)
    (default : ctx.params.zeroEpsilon = .finite false 1 (-7)) (positive : 0 < ctx.params.precision)
    (done : (e.answer ctx).1 = .ok (.numeric r)) (value : r.toRat? = some q) : IsAnswer q := by
  by_cases empty : e = .empty
  · subst empty
    obtain rfl : (0 : Decimal) = r := Term.numeric.inj (Except.ok.inj done)
    obtain rfl := Option.some.inj (Decimal.toRat?_zero.symm.trans value)
    exact isAnswer_zero
  rw [answer_eq empty] at done
  obtain ⟨t, ctx', computed, settled⟩ := exists_of_bind (Prod.ext done rfl)
  obtain ⟨p, more, params⟩ : ctx.RaisesPrecision ctx' := by
    have raises := (raisesPrecision_prepare_eval e).rel ctx
    rwa [computed] at raises
  cases t with
  | numeric n =>
    refine isAnswer_of_settle ?_ ?_ settled value
    · rw [params, default]
    · rw [params]
      exact Nat.lt_of_lt_of_le positive more
  | symbolic s b =>
    have same := stays _ (congrArg Prod.fst computed)
    have removed : (Term.symbolic s b).removeParens = .numeric r :=
      Except.ok.inj (congrArg Prod.fst settled)
    rw [removed] at same
    cases same

/-! ## The text of a number -/

theorem isPolynomial_of_isNumeral (numeral : e.IsNumeral q) : e.IsPolynomial := by
  obtain ⟨n, value, rfl⟩ := numeral
  split
  · exact .unary (.literal value (abs_nonneg q))
  · exact .literal value (abs_nonneg q)

theorem isConstant_of_isNumeral (numeral : e.IsNumeral q) : e.IsConstant := by
  obtain ⟨n, value, rfl⟩ := numeral
  intro name occurs
  split at occurs <;> exact occurs

theorem rationalValue_of_isNumeral {ρ : String → ℚ} (numeral : e.IsNumeral q) :
    e.rationalValue ρ = q := by
  obtain ⟨n, value, rfl⟩ := numeral
  split
  next negative =>
    change -(Expr.literal n true).rationalValue ρ = q
    rw [rationalValue_literal value, abs_of_neg negative, neg_neg]
  next positive => rw [rationalValue_literal value, abs_of_nonneg (not_lt.1 positive)]

/-- The literal has all digits of the number. -/
theorem hasDigits_longest (numeral : e.IsNumeral q) : HasDigits e.longest q := by
  obtain ⟨n, value, rfl⟩ := numeral
  have short : HasDigits n.significantDigits |q| := hasDigits_significantDigits value
  split
  next negative =>
    rw [abs_of_neg negative] at short
    exact neg_neg q ▸ short.neg
  next positive => rwa [abs_of_nonneg (not_lt.1 positive)] at short

/-- A number under a minus sign is simplified to a number, perhaps under a minus sign. -/
theorem exists_number_of_simplify {n : Decimal} {e' : Expr} {ctx' : Context}
    (value : n.toRat? = some q) (nonneg : 0 ≤ q) (compact : Compact q)
    (done : (Expr.unary .negative (.literal n true)).simplify ctx = (.ok e', ctx')) :
    ∃ a, e' = .number a ∨ e' = .unary .negative (.number a) := by
  have expanded : (Expr.unary .negative (.literal n true)).expand ctx =
      (.ok (.unary .negative (.literal n true)), ctx) := rfl
  have terms : (Expr.literal n true).foldTerms .negative =
      signedTerm .negative (.literal n true) := rfl
  have single : AllCompact ((Expr.literal n true).subvalues ctx.valuation) := by
    rintro _ rfl
    rwa [rationalValue_literal value]
  obtain ⟨m, known, -, -⟩ := yields_value (.literal value nonneg compact) rfl ctx.agrees_valuation
    single
  have monomial := (yields_ofNumber known).result
  rw [simplify, bind_ok expanded, Expr.fold, terms] at done
  obtain ⟨ms, ctx₁, signed, written⟩ := exists_of_bind done
  obtain ⟨a, ctx₂, read, signed⟩ := exists_of_bind signed
  obtain ⟨b, ctx₃, changed, single⟩ := exists_of_bind signed
  rw [read] at monomial
  obtain rfl := Except.ok.inj monomial
  obtain ⟨k, -, negated⟩ := exists_of_ok_bind (liftSignal_eq_ok.1 (congrArg Prod.fst changed))
  obtain rfl : Monomial.ofNumber k = b := Except.ok.inj negated
  obtain rfl : [Monomial.ofNumber k] = ms := Except.ok.inj (congrArg Prod.fst single)
  exact Monomial.exists_number_of_sum (liftSignal_eq_ok.1 (congrArg Prod.fst written))

/-- A number that is not rounded under a minus sign. -/
theorem exact_negated {n : Decimal} (value : n.toRat? = some q) (nonneg : 0 ≤ q)
    (compact : Compact q) : (Expr.unary .negative (.literal n true)).Exact ctx := by
  have literal : ∀ ρ, (Expr.literal n true).rationalValue ρ = q := fun ρ =>
    rationalValue_literal value
  refine .inr ?_
  split
  · have simplifying :
        AllCompact ((Expr.unary .negative (.literal n true)).simplifyNumbers ctx) := by
      rw [simplifyNumbers, allCompact_union, allCompact_union]
      refine ⟨⟨?_, ?_⟩, ?_⟩
      · rintro _ rfl
        rwa [Decimal.toRat_of_toRat? value]
      · rintro _ none
        cases none
      · rintro x ⟨e', expanded, member⟩
        obtain rfl : Expr.unary .negative (.literal n true) = e' := Except.ok.inj expanded
        rcases member with member | ⟨ms, done, member⟩
        · obtain rfl := (foldTermNumbers_literal n true).subset member
          rwa [Decimal.toRat_of_toRat? value]
        · exact absurd member (collectNumbers_signedTerm done)
    refine ⟨simplifying, fun e' done => ?_⟩
    obtain ⟨e'', ctx', simplified, -, -, -, value'⟩ := exists_simplified
      (.unary (.literal value nonneg)) (fun _ => False.elim) simplifying
    obtain rfl : e'' = e' := by
      rw [simplified] at done
      exact Except.ok.inj done
    have value' : e''.rationalValue ctx.valuation = -q :=
      (value' _ ctx.agrees_valuation).trans (congrArg Neg.neg (literal _))
    obtain ⟨a, rfl | rfl⟩ := exists_number_of_simplify value nonneg compact simplified
    · rintro _ rfl
      rw [value']
      exact compact.neg
    · rintro _ (rfl | rfl)
      · rw [value']
        exact compact.neg
      · have magnitude : (Expr.number a).rationalValue ctx.valuation = q := neg_inj.1 value'
        rwa [magnitude]
  · rintro _ (rfl | rfl)
    · change Compact (-(Expr.literal n true).rationalValue _)
      rw [literal]
      exact compact.neg
    · rwa [literal]

theorem exact_of_isNumeral (numeral : e.IsNumeral q) (compact : q < 0 → Compact q) :
    e.Exact ctx := by
  obtain ⟨n, value, rfl⟩ := numeral
  split
  next negative => exact exact_negated value (abs_nonneg q) (compact negative).abs
  next => exact .inl ⟨n, true, rfl⟩

end Expr

/-- The text of a number of at most a thousand digits is read as this number. -/
theorem exists_read_text (ctx : Context) {r : Decimal} (value : r.toRat? = some q)
    (fits : Representable Decimal.exactDigits q) :
    ∃ e : Expr, ctx.read (Term.numeric r).text [] = .ok e ∧ e.IsNumeral q := by
  obtain ⟨f, form, chars, -⟩ :=
    Term.exists_number (v := ctx.vocabulary) (M := fun x e => e.IsNumeral x) value fits
      fun _ => id
  refine ⟨f.tree, read_eq_ok.2 ?_, form.value⟩
  rw [← Form.parse_chars form.wellFormed, chars, String.ofList_toList]
  rfl

/-- The text of an answer is answered by the same number. -/
theorem exists_evaluate_text (ctx : Context) {r : Decimal} (value : r.toRat? = some q)
    (answer : IsAnswer q) (default : ctx.params.zeroEpsilon = .finite false 1 (-7))
    (positive : 0 < ctx.params.precision) (short : HasDigits Decimal.exactDigits q)
    (negative : q < 0 → HasDigits ambientDigits q)
    (inside : |Monomial.ambient.rounded q| < 10 ^ (maxExponent + 1)) :
    ∃ r', (evaluate (Term.numeric r).text ctx).1 = .ok (.numeric r') ∧ r'.toRat? = some q := by
  obtain ⟨e, read, numeral⟩ := exists_read_text ctx value ⟨short, answer.inRange⟩
  have value' : e.rationalValue ctx.valuation = q := Expr.rationalValue_of_isNumeral numeral
  have exact : (Precision.halfUp (max ctx.params.precision e.longest)).rounded q = q :=
    Precision.rounded_eq_self
      ⟨(Expr.hasDigits_longest numeral).mono (Nat.le_max_right _ _), answer.inRange⟩
  obtain ⟨r', again, rValue⟩ := Expr.exists_answer_constant (ε := 10 ^ (-7 : ℤ))
    (Expr.isPolynomial_of_isNumeral numeral) (Expr.isConstant_of_isNumeral numeral)
    (Expr.exact_of_isNumeral numeral fun less => ⟨negative less, answer.inRange⟩)
    (by rw [default, Decimal.toRat?_tens]) positive (by rwa [value'])
    (by rw [value', exact]; exact answer.bounded)
  rw [value', answer.settledTo_eq exact] at rValue
  exact ⟨r', by rw [Expr.evaluate_of_read read, again], rValue⟩

/-- After an answer that has a text, this text is evaluated. -/
theorem evaluateTwice_eq {source : String} {r shown : Decimal}
    (done : (evaluate source ctx).1 = .ok (.numeric r))
    (rounded : (Precision.halfEven Decimal.exactDigits).round r = .ok shown) :
    evaluateTwice source ctx =
      (do return (.numeric r, ← evaluate r.plain) : Calc (Term × Term))
        (evaluate source ctx).2 := by
  rw [evaluateTwice, bind_ok (Prod.ext done rfl), Term.render_numeric rounded]
  rfl

/-- A number as an answer is answered by itself. -/
theorem evaluate_again {source : String} {r : Decimal}
    (default : ctx.params.zeroEpsilon = .finite false 1 (-7)) (positive : 0 < ctx.params.precision)
    (done : (evaluate source ctx).1 = .ok (.numeric r))
    (stays : ∀ e, ctx.read source [] = .ok e → e.StaysText ctx) (value : r.toRat? = some q)
    (short : HasDigits Decimal.exactDigits q) (negative : q < 0 → HasDigits ambientDigits q)
    (inside : |Monomial.ambient.rounded q| < 10 ^ (maxExponent + 1)) :
    ∃ r', (evaluateTwice source ctx).1 = .ok (.numeric r, .numeric r') ∧ r'.same r = true := by
  have answer : IsAnswer q := by
    cases read : ctx.read source [] with
    | ok e =>
      rw [Expr.evaluate_of_read read] at done
      exact Expr.isAnswer_of_answer (stays e read) default positive done value
    | error fault =>
      have failed : (evaluate source ctx).1 = .error fault := by
        unfold evaluate withParams
        rw [tree_bind, read]
      rw [failed] at done
      cases done
  have params : (evaluate source ctx).2.params = ctx.params := (sameParams_withParams _).rel ctx
  obtain ⟨r', again, rValue⟩ := exists_evaluate_text _ value answer (by rw [params, default])
    (by rwa [params]) short negative inside
  obtain ⟨_, rounded, -⟩ := Precision.round_exact (p := .halfEven Decimal.exactDigits) value
    ⟨short, answer.inRange⟩
  refine ⟨r', ?_, (Decimal.same_iff rValue value).2 rfl⟩
  rw [evaluateTwice_eq done rounded]
  exact congrArg Prod.fst (bind_ok (Prod.ext again rfl))

/-- A third is answered by ten digits, and these by themselves. -/
theorem evaluate_again_third :
    ∃ r', (evaluateTwice "-1/3" Context.initial).1 =
        .ok (.numeric (.finite true 3333333333 (-10)), .numeric r') ∧
      r'.same (.finite true 3333333333 (-10)) = true := by
  have done : (evaluate "-1/3" Context.initial).1 =
      .ok (.numeric (.finite true 3333333333 (-10))) := by
    decide +kernel
  have computed : (Context.initial.read "-1/3" [] >>= fun e =>
      ((do (← e.prepare).eval : Calc Term) Context.initial).1).toOption.map
        (fun t => t.removeParens.isNumeric == t.isNumeric) = some true := by
    decide +kernel
  have short : HasDigits ambientDigits ((-3333333333 : ℤ) * 10 ^ (-10 : ℤ)) :=
    ⟨-3333333333, -10, rfl, by decide⟩
  refine evaluate_again rfl (by decide) done ?_ rfl (short.mono (by decide)) (fun _ => short)
    (Precision.abs_rounded_lt ?_)
  · intro e read t done
    rw [read] at computed
    change ((do (← e.prepare).eval : Calc Term) Context.initial).1.toOption.map _ = _ at computed
    rw [done] at computed
    exact eq_of_beq (Option.some.inj computed)
  · rw [abs_mul, abs_of_pos (Decimal.ten_zpow_pos _)]
    calc |((-3333333333 : ℤ) : ℚ)| * 10 ^ (-10 : ℤ) < 10 ^ (1 : ℤ) := by norm_num
      _ ≤ 10 ^ maxExponent := zpow_le_zpow_right₀ (by norm_num) (by decide)

/-! ## Answers that are not kept -/

/-- A context with so many digits that does not simplify, where `x` is this number. -/
def Context.holding (digits : Nat) (n : Decimal) : Context :=
  let params : Params := { precision := digits, simplify := false }
  { Context.initial with params }.bind "x" (.numeric n)

/-- A number whose magnitude is too large when it is rounded has no answer. -/
theorem evaluate_text_ne_of_large {r r' : Decimal} (value : r.toRat? = some q)
    (fits : Representable Decimal.exactDigits q) (nonneg : 0 ≤ q)
    (large : 10 ^ (maxExponent + 1) ≤ Monomial.ambient.magnitude |q|) :
    (evaluate (Term.numeric r).text ctx).1 ≠ .ok (.numeric r') := by
  intro done
  obtain ⟨e, read, numeral⟩ := exists_read_text ctx value fits
  have polynomial := Expr.isPolynomial_of_isNumeral numeral
  have exact : e.Exact ctx :=
    Expr.exact_of_isNumeral numeral fun negative => absurd nonneg negative.not_ge
  obtain ⟨n, ctx', computed, nValue, -⟩ :=
    Expr.exists_computed polynomial (Expr.isConstant_of_isNumeral numeral) exact
  rw [Expr.rationalValue_of_isNumeral numeral] at nValue
  rw [Expr.evaluate_of_read read, Expr.answer_eq polynomial.ne_empty, bind_ok computed] at done
  obtain ⟨a, absolute⟩ := exists_abs_of_settle (Prod.ext done rfl)
  exact large.not_gt
    (Precision.abs_magnitude (p := Monomial.ambient) (by decide) nValue absolute).2

/-- The text of a number with a digit more is that of another number. -/
theorem evaluateTwice_long :
    ∃ r', (evaluateTwice "x" (.holding 1001 (.finite false (10 ^ 1000 + 1) 0))).1 =
      .ok (.numeric (.finite false (10 ^ 1000 + 1) 0), .numeric r') ∧
        r'.same (.finite false (10 ^ 1000 + 1) 0) = false := by
  have done : (evaluate "x" (.holding 1001 (.finite false (10 ^ 1000 + 1) 0))).1 =
      .ok (.numeric (.finite false (10 ^ 1000 + 1) 0)) := by
    decide +kernel
  have rounded : (Precision.halfEven Decimal.exactDigits).round (.finite false (10 ^ 1000 + 1) 0) =
      .ok (.finite false (10 ^ 999) 1) := by
    decide +kernel
  have shown : (Decimal.finite false (10 ^ 1000 + 1) 0).plain =
      (Decimal.finite false (10 ^ 1000) 0).plain :=
    Decimal.plain_eq_of_round rounded (by decide +kernel)
  have value : (Decimal.finite false (10 ^ 1000) 0).toRat? = some (10 ^ ((1000 : Nat) : ℤ)) := by
    rw [Decimal.toRat?_nat, ← tens_eq_pow, cast_tens]
  have value' : (Decimal.finite false (10 ^ 1000 + 1) 0).toRat? =
      some (10 ^ ((1000 : Nat) : ℤ) + 1) := by
    rw [Decimal.toRat?_nat, Nat.cast_succ, ← tens_eq_pow, cast_tens]
  have positive := Decimal.ten_zpow_pos ((1000 : Nat) : ℤ)
  have small : |(10 : ℚ) ^ ((1000 : Nat) : ℤ)| < 10 ^ maxExponent := by
    rw [abs_of_pos positive]
    exact zpow_lt_zpow_right₀ (by norm_num) (by decide)
  have answer : IsAnswer (10 ^ ((1000 : Nat) : ℤ)) := by
    refine ⟨.inr ?_, small.trans (zpow_lt_zpow_right₀ (by norm_num) (by decide))⟩
    rw [abs_of_pos positive]
    exact Precision.pow_log_le_magnitude (by decide) positive (by decide)
      (zpow_le_zpow_right₀ (by norm_num) (by decide))
  set ctx := Context.holding 1001 (.finite false (10 ^ 1000 + 1) 0) with ctx_def
  have params : (evaluate "x" ctx).2.params = ctx.params := (sameParams_withParams _).rel ctx
  obtain ⟨r', again, rValue⟩ := exists_evaluate_text (evaluate "x" ctx).2 value answer
    (by rw [params]; rfl) (by rw [params]; decide) ((hasDigits_tens _).mono (by decide))
    (fun negative => absurd positive negative.not_gt) (Precision.abs_rounded_lt small)
  refine ⟨r', ?_, ?_⟩
  · rw [Term.text, ← shown] at again
    rw [evaluateTwice_eq done rounded]
    exact congrArg Prod.fst (bind_ok (Prod.ext again rfl))
  · rw [Bool.eq_false_iff, Ne, Decimal.same_iff rValue value']
    exact fun same => absurd same (by simp)

/-- The least number that is too large when it is rounded to twenty-eight digits. -/
theorem toRat?_leastTo : (Decimal.finite false 99999999999999999999999999995 999971).toRat? =
    some (Monomial.ambient.leastTo (maxExponent + 1)) := by
  have least : ∀ k : ℤ, Monomial.ambient.leastTo (k + 29) =
      99999999999999999999999999995 * 10 ^ k := by
    intro k
    have digits : k + 29 - (28 : Nat) = k + 1 := by omega
    change ((10 : ℚ) ^ 28 - 1 / 2) * 10 ^ (k + 29 - (28 : Nat)) = _
    rw [digits, zpow_add_one₀ (by norm_num)]
    ring
  exact congrArg some (least 999971).symm

theorem evaluateTwice_large :
    (evaluate "x" (.holding 29 (.finite false 999999999999999999999999999949 999970))).1 =
      .ok (.numeric (.finite false 99999999999999999999999999995 999971)) ∧
    ∀ r', (evaluateTwice "x"
      (.holding 29 (.finite false 999999999999999999999999999949 999970))).1 ≠
        .ok (.numeric (.finite false 99999999999999999999999999995 999971), .numeric r') := by
  set ctx := Context.holding 29 (.finite false 999999999999999999999999999949 999970)
  have done : (evaluate "x" ctx).1 =
      .ok (.numeric (.finite false 99999999999999999999999999995 999971)) := by
    decide +kernel
  have lower : 10 ^ (maxExponent + 1 - 1) < Monomial.ambient.leastTo (maxExponent + 1) :=
    Precision.pow_pred_lt_leastTo (by decide)
  have positive := (Decimal.ten_zpow_pos _).trans lower
  have size := abs_of_pos positive
  have fits : Representable Decimal.exactDigits (Monomial.ambient.leastTo (maxExponent + 1)) := by
    refine ⟨(hasDigits_significantDigits toRat?_leastTo).mono (by decide +kernel), .inr ?_⟩
    rw [size]
    exact ⟨(zpow_le_zpow_right₀ (by norm_num) (by decide)).trans lower.le,
      Precision.leastTo_lt _ _⟩
  have large : 10 ^ (maxExponent + 1) ≤
      Monomial.ambient.magnitude |Monomial.ambient.leastTo (maxExponent + 1)| := by
    rw [size, Precision.pow_le_magnitude_iff (by decide) (by decide) positive]
  obtain ⟨_, rounded, -⟩ := Precision.round_exact (p := .halfEven Decimal.exactDigits)
    toRat?_leastTo fits
  refine ⟨done, fun r' both => ?_⟩
  rw [evaluateTwice_eq done rounded] at both
  obtain ⟨t, ctx', again, same⟩ := exists_of_bind (Prod.ext both rfl)
  obtain rfl : t = .numeric r' := (Prod.mk.inj (Except.ok.inj (congrArg Prod.fst same))).2
  exact evaluate_text_ne_of_large toRat?_leastTo fits positive.le large (congrArg Prod.fst again)

/-- An infinity is no literal, the text of a number keeps a thousand digits only, and a number can
be too large for its magnitude to be rounded. -/
theorem evaluate_again_other :
    ((evaluateTwice "x" (.holding 10 (.infinity false))).1.toOption.map fun (a, b) =>
      (a, b.isNumeric)) = some (.numeric (.infinity false), false) ∧
    (∃ r', (evaluateTwice "x" (.holding 1001 (.finite false (10 ^ 1000 + 1) 0))).1 =
      .ok (.numeric (.finite false (10 ^ 1000 + 1) 0), .numeric r') ∧
        r'.same (.finite false (10 ^ 1000 + 1) 0) = false) ∧
    (evaluate "x" (.holding 29 (.finite false 999999999999999999999999999949 999970))).1 =
      .ok (.numeric (.finite false 99999999999999999999999999995 999971)) ∧
    ∀ r', (evaluateTwice "x"
      (.holding 29 (.finite false 999999999999999999999999999949 999970))).1 ≠
        .ok (.numeric (.finite false 99999999999999999999999999995 999971), .numeric r') :=
  ⟨by decide +kernel, evaluateTwice_long, evaluateTwice_large⟩

end Reckon
