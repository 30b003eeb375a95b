import Reckon.Proofs.Decimal.Rounding
import Reckon.Proofs.Request.Binding
import Reckon.Proofs.Simplify.Longest

/-!
# Answers to numbers

A polynomial without variables is answered by its value, rounded to the precision that its longest
literal asks for (`exists_answer_constant`). This is so whether it is simplified or not, provided
that no number on the way has more digits than the surrounding arithmetic keeps
(`evaluate_simplifying`). The condition cannot be dropped: numbers that the simplifier writes down
are rounded to it (`evaluate_sum_of_long`).
-/

namespace Reckon

open Calc Context

/-! ## Settling -/

/-- What an answer makes of a number: one below `ε` is zero, and any other is rounded. -/
def settledTo (ε : ℚ) (digits : Nat) (q : ℚ) : ℚ :=
  if Monomial.ambient.magnitude |q| < ε then 0 else (Precision.halfUp digits).rounded q

section Settle

variable {ctx ctx' : Context} {n : Decimal} {q ε : ℚ}

/-- How a number is settled, once its magnitude is known. -/
theorem settle_apply {a : Decimal} (absolute : Monomial.ambient.abs n = .ok a)
    (value : n.toRat? = some q) (epsilon : ctx.params.zeroEpsilon.toRat? = some ε) :
    (Term.numeric n).settle ctx = (if Monomial.ambient.magnitude |q| < ε then return .numeric 0
      else Calc.lift ((Term.numeric n).rounded ctx.params.precision) : Calc Term) ctx := by
  have aValue := (Precision.abs_magnitude (p := Monomial.ambient) (by decide) value absolute).1
  have compared : (do (← Monomial.ambient.abs n).less ctx.params.zeroEpsilon) =
      Except.ok (decide (Monomial.ambient.magnitude |q| < ε)) := by
    rw [absolute]
    exact Decimal.less_eq aValue epsilon
  rw [Term.settle, bind_ok (look_apply _ ctx), bind_ok (decimal_ok compared ctx)]
  simp only [decide_eq_true_eq]

/-- The magnitude of a number that has an answer is not too large. -/
theorem exists_abs_of_settle {t : Term} (done : (Term.numeric n).settle ctx = (.ok t, ctx')) :
    ∃ a, Monomial.ambient.abs n = .ok a := by
  rw [Term.settle, bind_ok (look_apply _ ctx)] at done
  obtain ⟨small, middle, compared, -⟩ := exists_of_bind done
  obtain ⟨a, absolute, -⟩ := exists_of_ok_bind (liftSignal_eq_ok.1 (congrArg Prod.fst compared))
  exact ⟨a, absolute⟩

/-- A number that has an answer is answered by what it settles to. -/
theorem settle_value {t : Term} (done : (Term.numeric n).settle ctx = (.ok t, ctx'))
    (value : n.toRat? = some q) (epsilon : ctx.params.zeroEpsilon.toRat? = some ε)
    (positive : 0 < ctx.params.precision) :
    ∃ m, t = .numeric m ∧ m.toRat? = some (settledTo ε ctx.params.precision q) ∧
      |settledTo ε ctx.params.precision q| < 10 ^ (maxExponent + 1) := by
  obtain ⟨a, absolute⟩ := exists_abs_of_settle done
  rw [settle_apply absolute value epsilon] at done
  unfold settledTo
  split at done
  next near =>
    cases done
    rw [if_pos near, abs_zero]
    exact ⟨0, rfl, Decimal.toRat?_zero, Decimal.ten_zpow_pos _⟩
  next far =>
    have rounds := congrArg Prod.fst done
    rw [lift_apply, Term.rounded, Term.roundDigits, if_neg positive.ne'] at rounds
    obtain ⟨m, rounded, same⟩ := exists_of_ok_bind rounds
    rw [if_neg far]
    cases same
    exact ⟨m, rfl, Precision.round_rounded positive value (liftSignal_eq_ok.1 rounded)⟩

/-- A number that does not get too large by rounding has an answer. -/
theorem exists_settle (value : n.toRat? = some q)
    (epsilon : ctx.params.zeroEpsilon.toRat? = some ε) (positive : 0 < ctx.params.precision)
    (absolute : |Monomial.ambient.rounded q| < 10 ^ (maxExponent + 1))
    (rounding : |(Precision.halfUp ctx.params.precision).rounded q| < 10 ^ (maxExponent + 1)) :
    ∃ t, (Term.numeric n).settle ctx = (.ok t, ctx) := by
  obtain ⟨a, absolute⟩ := Precision.exists_abs (p := Monomial.ambient) (by decide) value absolute
  obtain ⟨r, rounded⟩ :=
    Precision.exists_round (p := .halfUp ctx.params.precision) positive value rounding
  rw [settle_apply absolute value epsilon]
  split
  · exact ⟨_, rfl⟩
  · refine ⟨.numeric r, lift_ok ?_ ctx⟩
    rw [Term.rounded, Term.roundDigits, if_neg positive.ne', rounded]
    rfl

end Settle

namespace Context

/-- The context with simplification on or off. -/
def simplifying (ctx : Context) (on : Bool) : Context :=
  { ctx with params := { ctx.params with simplify := on } }

theorem sameNames_simplifying (ctx : Context) (on : Bool) : ctx.SameNames (ctx.simplifying on) :=
  ⟨rfl, rfl⟩

end Context

namespace Expr

variable {ctx : Context} {e : Expr}

/-! ## Trees without variables -/

/-- No variable occurs in the tree. -/
def IsConstant (e : Expr) : Prop :=
  ∀ name, ¬ e.Occurs name

theorem IsPolynomial.isNumerical (polynomial : e.IsPolynomial) (constant : e.IsConstant) :
    e.IsNumerical := by
  induction polynomial with
  | literal => trivial
  | var => exact constant _ rfl
  | unary _ ih => exact ih constant
  | plus _ _ left right | minus _ _ left right | times _ _ left right =>
    exact ⟨left fun name occurs => constant name (.inl occurs),
      right fun name occurs => constant name (.inr occurs)⟩
  | power _ _ ih => exact ⟨ih fun name occurs => constant name (.inl occurs), trivial⟩

theorem IsNumerical.literals_subset {ρ : String → ℚ} : ∀ {e : Expr}, e.IsNumerical →
    e.literals ⊆ e.subvalues ρ
  | .literal .., _ => subset_rfl
  | .unary _ e, numerical =>
    (IsNumerical.literals_subset (e := e) numerical).trans (Set.subset_insert _ _)
  | .binary .., ⟨left, right⟩ =>
    (Set.union_subset_union left.literals_subset right.literals_subset).trans
      (Set.subset_insert _ _)

theorem foldTermNumbers_literal (n : Decimal) (written : Bool) :
    (Expr.literal n written).foldTermNumbers ctx = {n.toRat} :=
  monomialNumbers_closed rfl

/-- No number is rounded before the answer is settled. A literal that stands alone is taken as it
is. Otherwise the tree is evaluated, or simplified first, as the settings say. -/
def Exact (ctx : Context) (e : Expr) : Prop :=
  (∃ n written, e = .literal n written) ∨
    if ctx.params.simplify then
      AllCompact (e.simplifyNumbers ctx) ∧
        ∀ e', (e.simplify ctx).1 = .ok e' → AllCompact (e'.subvalues ctx.valuation)
    else AllCompact (e.subvalues ctx.valuation)

/-- The tree that is evaluated has the same value. -/
theorem exists_prepared (polynomial : e.IsPolynomial) (constant : e.IsConstant)
    (exact : e.Exact ctx) : ∃ e' ctx', e.prepare ctx = (.ok e', ctx') ∧ ctx.Advances ctx' ∧
      e'.Evaluates ctx ∧ e'.isArithmetic = true ∧
      e'.rationalValue ctx.valuation = e.rationalValue ctx.valuation := by
  have prepare := (polynomial.isNumerical constant).prepare_apply ctx
  have closed : ∀ {e' : Expr}, (∀ name, e'.Occurs name → e.Occurs name) → e'.isClosed ctx = true :=
    fun names => isClosed_iff.2 fun name occurs => absurd (names name occurs) (constant name)
  rcases exact with ⟨n, written, rfl⟩ | exact
  · refine ⟨.literal n written, ctx, ?_, Frame.refl ctx, ?_, rfl, rfl⟩
    · rw [prepare]
      split <;> rfl
    · cases polynomial with
      | literal value _ =>
        exact ⟨n, yields_literal n written, by rw [rationalValue_literal value, value]⟩
  split at exact
  next simplifies =>
    obtain ⟨simplifying, evaluating⟩ := exact
    obtain ⟨e', ctx', simplified, advances, sound, names, value⟩ := exists_simplified polynomial
      (fun name occurs => absurd occurs (constant name)) simplifying
    refine ⟨e', ctx', ?_, advances, evaluates sound (closed names) (evaluating e' ?_),
      sound.isPolynomial.isArithmetic, value _ ctx.agrees_valuation⟩
    · rw [prepare, if_pos simplifies, simplified]
    · rw [simplified]
  next plain =>
    have literals : AllCompact e.literals := fun q member =>
      exact q ((polynomial.isNumerical constant).literals_subset member)
    have sound : e.Sound ctx :=
      polynomial.sound (fun name occurs => absurd occurs (constant name)) literals
    refine ⟨e, ctx, ?_, Frame.refl ctx, evaluates sound (closed fun _ => id) exact,
      polynomial.isArithmetic, rfl⟩
    rw [prepare, if_neg plain]
    rfl

/-- The value of a tree without variables, and the settings it leaves for rounding. -/
theorem exists_computed (polynomial : e.IsPolynomial) (constant : e.IsConstant)
    (exact : e.Exact ctx) : ∃ n ctx', (do (← e.prepare).eval) ctx = (.ok (.numeric n), ctx') ∧
      n.toRat? = some (e.rationalValue ctx.valuation) ∧
      ctx'.params = { ctx.params with precision := max ctx.params.precision e.longest } := by
  obtain ⟨e', ctx', prepared, advances, ⟨n, yields, nValue⟩, arithmetic, value⟩ :=
    exists_prepared polynomial constant exact
  obtain ⟨ctx'', -, evaluated⟩ := yields advances.toSameNames
  have done : (do (← e.prepare).eval) ctx = (.ok (.numeric n), ctx'') :=
    (bind_ok prepared).trans evaluated
  have raises : ctx.RaisesPrecision ctx'' := by
    have advances' : ctx'.Advances (e'.eval ctx').2 :=
      (keeps_eval_of_isArithmetic arithmetic).rel ctx'
    rw [evaluated] at advances'
    exact advances.params.trans advances'.params
  have precision := (spends_prepare_eval (polynomial.isNumerical constant)).eq done
  obtain ⟨p, -, params⟩ := raises
  rw [params] at precision
  dsimp only at precision
  exact ⟨n, ctx'', done, by rw [nValue, value], by rw [params, precision]⟩

/-! ## Answers -/

/-- An answer is computed and then settled. -/
theorem answer_eq (some : e ≠ .empty) :
    e.answer = (do (← e.prepare).eval : Calc Term) >>= Term.settle := by
  rw [bind_assoc]
  cases e <;> first | rfl | exact absurd rfl some

theorem IsPolynomial.ne_empty (polynomial : e.IsPolynomial) : e ≠ .empty := by
  rintro rfl
  cases polynomial

/-- A tree without variables is answered by its value, rounded to the digits of its longest
literal. -/
theorem exists_answer_constant {ε : ℚ} (polynomial : e.IsPolynomial) (constant : e.IsConstant)
    (exact : e.Exact ctx) (epsilon : ctx.params.zeroEpsilon.toRat? = some ε)
    (positive : 0 < ctx.params.precision)
    (absolute : |Monomial.ambient.rounded (e.rationalValue ctx.valuation)| <
      10 ^ (maxExponent + 1))
    (rounding : |(Precision.halfUp (max ctx.params.precision e.longest)).rounded
      (e.rationalValue ctx.valuation)| < 10 ^ (maxExponent + 1)) :
    ∃ n, (e.answer ctx).1 = .ok (.numeric n) ∧
      n.toRat? = some (settledTo ε (max ctx.params.precision e.longest)
        (e.rationalValue ctx.valuation)) := by
  obtain ⟨n, ctx', computed, value, params⟩ := exists_computed polynomial constant exact
  have epsilon' : ctx'.params.zeroEpsilon.toRat? = some ε := by rw [params, epsilon]
  have positive' : 0 < ctx'.params.precision := by
    rw [params]
    exact lt_max_of_lt_left positive
  obtain ⟨t, settled⟩ := exists_settle value epsilon' positive' absolute (by rwa [params])
  obtain ⟨m, rfl, mValue, -⟩ := settle_value settled value epsilon' positive'
  rw [params] at mValue
  exact ⟨m, by rw [answer_eq polynomial.ne_empty, bind_ok computed, settled], mValue⟩

end Expr

/-! ## With and without simplification -/

section Simplifying

variable {ctx : Context} {source : String} {e : Expr} {ε : ℚ}

/-- A text without variables is answered by the same number whether it is simplified or not, if no
number on the way is rounded. -/
theorem evaluate_simplifying (read : ctx.read source [] = .ok e) (polynomial : e.IsPolynomial)
    (constant : e.IsConstant) (exact : ∀ on, e.Exact (ctx.simplifying on))
    (epsilon : ctx.params.zeroEpsilon.toRat? = some ε) (positive : 0 < ctx.params.precision)
    (small : |e.rationalValue ctx.valuation| < 10 ^ maxExponent) :
    ∃ m n, (evaluate source (ctx.simplifying true)).1 = .ok (.numeric m) ∧
      (evaluate source (ctx.simplifying false)).1 = .ok (.numeric n) ∧ m.same n = true := by
  have answered : ∀ on, ∃ n, (evaluate source (ctx.simplifying on)).1 = .ok (.numeric n) ∧
      n.toRat? = some (settledTo ε (max ctx.params.precision e.longest)
        (e.rationalValue ctx.valuation)) := by
    intro on
    have read' : (ctx.simplifying on).read source [] = .ok e := by
      rw [read_eq_ok] at read ⊢
      rwa [(ctx.sameNames_simplifying on).vocabulary_eq]
    rw [Expr.evaluate_of_read read']
    exact Expr.exists_answer_constant polynomial constant (exact on) epsilon positive
      (Precision.abs_rounded_lt small) (Precision.abs_rounded_lt small)
  obtain ⟨m, first, mValue⟩ := answered true
  obtain ⟨n, second, nValue⟩ := answered false
  exact ⟨m, n, first, second, (Decimal.same_iff mValue nValue).2 rfl⟩

/-- Five with twelve places, which are more digits than the precision of a new session. -/
def Numeral.longFive : Numeral where
  whole := ['5']
  fraction := Decimal.zeros 12
  nonempty := List.cons_ne_nil _ _
  wholeDigits := List.forall_mem_singleton.2 rfl
  fractionDigits _ member := Decimal.isDigit_of_mem_zeros member

/-- `3-5.000000000000` -/
def Form.longDifference : Form :=
  .binary .minus false (.number (.digit '3' rfl)) (.number .longFive)

namespace Expr

open Form

theorem toRat?_three : (Numeral.digit '3' rfl).decimal.toRat? = some ((3 : Nat) : ℚ) :=
  Decimal.toRat?_ofNat 3

theorem toRat?_longFive : Numeral.longFive.decimal.toRat? = some ((5 : Nat) : ℚ) := by
  rw [show Numeral.longFive.decimal = .finite false 5000000000000 (-12) by decide +kernel,
    Decimal.toRat?]
  norm_num

theorem toRat?_longTwo :
    (Decimal.finite false 2000000000000 (-12)).toRat? = some ((2 : Nat) : ℚ) := by
  rw [Decimal.toRat?]
  norm_num

theorem rationalValue_longDifference (ρ : String → ℚ) :
    longDifference.tree.rationalValue ρ = -((2 : Nat) : ℚ) := by
  change (Expr.literal _ true).rationalValue ρ - (Expr.literal _ true).rationalValue ρ = _
  rw [rationalValue_literal toRat?_three, rationalValue_literal toRat?_longFive]
  norm_num

theorem compact_minusTwo : Compact (-((2 : Nat) : ℚ)) :=
  (compact_nat (by decide)).neg

/-- Of the two monomials only the sum is new. -/
theorem compact_collectDifference {ms ms' : List Monomial} {q : ℚ}
    (left : ((Expr.literal (Numeral.digit '3' rfl).decimal true).foldTerms .positive
      (Context.initial.simplifying true)).1 = .ok ms)
    (right : ((Expr.literal Numeral.longFive.decimal true).foldTerms .negative
      (Context.initial.simplifying true)).1 = .ok ms')
    (member : q ∈ Monomial.collectNumbers [] (ms ++ ms')) : Compact q := by
  have first : ((Expr.literal (Numeral.digit '3' rfl).decimal true).foldTerms .positive
      (Context.initial.simplifying true)).1 = .ok [.ofNumber 3] := by
    with_unfolding_all rfl
  have second : ((Expr.literal Numeral.longFive.decimal true).foldTerms .negative
      (Context.initial.simplifying true)).1 =
        .ok [.ofNumber (.finite true 5000000000000 (-12))] := by
    with_unfolding_all rfl
  have minusFive : (Decimal.finite true 5000000000000 (-12)).toRat = -((5 : Nat) : ℚ) := by
    rw [Decimal.toRat, Decimal.toRat?]
    norm_num
  obtain rfl := Except.ok.inj (first.symm.trans left)
  obtain rfl := Except.ok.inj (second.symm.trans right)
  rcases member with ⟨_, found, -⟩ | ⟨terms, added, inRest⟩
  · cases found
  obtain rfl : [Monomial.ofNumber 3] = terms := Except.ok.inj added
  rcases inRest with ⟨m, found, rfl⟩ | ⟨terms, -, none⟩
  · obtain rfl := List.mem_singleton.1 (List.mem_of_find?_eq_some found)
    change Compact ((3 : Decimal).toRat + (Decimal.finite true 5000000000000 (-12)).toRat)
    rw [minusFive, Decimal.toRat_of_toRat? (Decimal.toRat?_ofNat 3)]
    convert compact_minusTwo using 1
    norm_num
  · cases none

/-- The numbers that arise are three, five and their difference. -/
theorem exact_longDifference (on : Bool) :
    longDifference.tree.Exact (Context.initial.simplifying on) := by
  have three : Compact ((3 : Nat) : ℚ) := compact_nat (by decide)
  have five : Compact ((5 : Nat) : ℚ) := compact_nat (by decide)
  refine .inr ?_
  cases on with
  | false =>
    rw [if_neg (by exact Bool.false_ne_true)]
    rintro q (rfl | rfl | rfl)
    · exact (rationalValue_longDifference _).symm ▸ compact_minusTwo
    · exact (rationalValue_literal toRat?_three).symm ▸ three
    · exact (rationalValue_literal toRat?_longFive).symm ▸ five
  | true =>
    have expanded : (longDifference.tree.expand (Context.initial.simplifying true)).1 =
        .ok longDifference.tree := by
      with_unfolding_all rfl
    have simplified : (longDifference.tree.simplify (Context.initial.simplifying true)).1 =
        .ok (.unary .negative (.number (.finite false 2000000000000 (-12)))) := by
      with_unfolding_all rfl
    rw [if_pos (by rfl), simplifyNumbers, allCompact_union, allCompact_union]
    refine ⟨⟨⟨?_, ?_⟩, ?_⟩, ?_⟩
    · rintro q (rfl | rfl)
      · rwa [Decimal.toRat_of_toRat? toRat?_three]
      · rwa [Decimal.toRat_of_toRat? toRat?_longFive]
    · rintro q (none | none) <;> cases none
    · rintro q ⟨e, done, inFold⟩
      obtain rfl := Except.ok.inj (expanded.symm.trans done)
      rcases inFold with (inLeft | inRight) | ⟨ms, ms', left, right, inSum⟩
      · obtain rfl := (foldTermNumbers_literal _ true).subset inLeft
        rwa [Decimal.toRat_of_toRat? toRat?_three]
      · obtain rfl := (foldTermNumbers_literal _ true).subset inRight
        rwa [Decimal.toRat_of_toRat? toRat?_longFive]
      · exact compact_collectDifference left right inSum
    · intro e done
      obtain rfl := Except.ok.inj (simplified.symm.trans done)
      have two : (number (.finite false 2000000000000 (-12))).rationalValue
          (Context.initial.simplifying true).valuation = ((2 : Nat) : ℚ) :=
        rationalValue_literal toRat?_longTwo
      rintro q (rfl | rfl)
      · change Compact (-(number (.finite false 2000000000000 (-12))).rationalValue _)
        rw [two]
        exact compact_minusTwo
      · exact two.symm ▸ compact_nat (by decide)

/-- Three minus a long five is the same number, whether it is simplified or not. -/
theorem evaluate_simplifying_longDifference :
    Context.initial.read "3-5.000000000000" [] = .ok longDifference.tree ∧
    longDifference.tree.IsPolynomial ∧
    ∃ m n, (evaluate "3-5.000000000000" (Context.initial.simplifying true)).1 = .ok (.numeric m) ∧
      (evaluate "3-5.000000000000" (Context.initial.simplifying false)).1 = .ok (.numeric n) ∧
      m.same n = true := by
  have wellFormed : longDifference.WellFormed Context.initial.vocabulary :=
    ⟨trivial, trivial, by decide, by decide, fun attached => Bool.noConfusion attached⟩
  have chars : String.ofList longDifference.chars = "3-5.000000000000" := by decide +kernel
  have read := read_form wellFormed
  rw [chars] at read
  have polynomial : longDifference.tree.IsPolynomial :=
    .minus (.literal (Decimal.toRat?_ofNat 3) (Nat.cast_nonneg 3))
      (.literal toRat?_longFive (Nat.cast_nonneg 5))
  have epsilon : Context.initial.params.zeroEpsilon.toRat? = some (10 ^ (-7 : ℤ)) :=
    Decimal.toRat?_tens (-7)
  refine ⟨read, polynomial, evaluate_simplifying read polynomial ?_ exact_longDifference epsilon
    (by decide) ?_⟩
  · rintro name (none | none) <;> cases none
  · rw [rationalValue_longDifference, abs_neg, Nat.abs_cast]
    exact (by norm_num : ((2 : Nat) : ℚ) < 10 ^ (1 : ℤ)).trans_le
      (zpow_le_zpow_right₀ (by norm_num) (by decide))

/-- A number that the simplifier writes down keeps twenty-eight digits, and the sum of the two
literals has thirty. -/
theorem evaluate_sum_of_long :
    (evaluate "123456789012345678901234567890+1" (Context.initial.simplifying true)).1.toOption.map
      Term.text = some "123456789012345678901234567900" ∧
    (evaluate "123456789012345678901234567890+1" (Context.initial.simplifying false)).1.toOption.map
      Term.text = some "123456789012345678901234567891" := by
  decide +kernel

end Expr

end Simplifying

end Reckon
