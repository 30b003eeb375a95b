import Reckon.Proofs.Evaluate.Text
import Reckon.Proofs.Frame.Request
import Reckon.Proofs.Simplify

/-!
# Answers to polynomials

A polynomial whose variables have values is answered by its value, and one whose variables have none
by a text that is read as a polynomial of the same value. In between, the polynomial is simplified
and evaluated; `ExactAnswer` and `ExactText` say that no number is rounded on the way.

Results: `ExactAnswer.exists_answer`, `ExactText.exists_read`.
-/

namespace Reckon

open Calc Context

/-- What an answer makes of a number: one near zero is zero. -/
def settled (q : ℚ) : ℚ :=
  if |q| < 10 ^ (-7 : ℤ) then 0 else q

theorem settled_settled (q : ℚ) : settled (settled q) = settled q := by
  unfold settled
  split
  next => simp
  next => rfl

/-- An exact number as an answer: near zero it is zero, and otherwise it stays as it is. -/
theorem settle_numeric {ctx : Context} {n : Decimal} {q : ℚ}
    (settings : Context.initial.RaisesPrecision ctx) (value : n.toRat? = some q)
    (fits : Compact q) (short : HasDigits ctx.params.precision q) :
    ∃ m, (Term.numeric n).settle ctx = (.ok (.numeric m), ctx) ∧ m.toRat? = some (settled q) := by
  obtain ⟨p, more, params⟩ := settings
  obtain ⟨a, absolute, aValue⟩ := Precision.abs_exact (p := Monomial.ambient) value fits
  obtain ⟨small, compared, isSmall⟩ : ∃ small,
      (do (← Monomial.ambient.abs n).less ctx.params.zeroEpsilon) = Except.ok small ∧
        (small = true ↔ |q| < 10 ^ (-7 : ℤ)) := by
    have epsilon : ctx.params.zeroEpsilon = .finite false 1 (-7) := by rw [params]; rfl
    rw [absolute, epsilon]
    exact ⟨_, Decimal.less_eq aValue (Decimal.toRat?_tens (-7)), decide_eq_true_iff⟩
  have steps : (Term.numeric n).settle ctx =
      (if small then return .numeric 0
        else Calc.lift ((Term.numeric n).rounded ctx.params.precision) : Calc Term) ctx := by
    rw [Term.settle, bind_ok (look_apply _ ctx), bind_ok (decimal_ok compared ctx)]
  rw [steps, settled]
  cases small with
  | true =>
    rw [if_pos rfl, if_pos (isSmall.1 rfl)]
    exact ⟨0, rfl, Decimal.toRat?_zero⟩
  | false =>
    rw [if_neg Bool.false_ne_true, if_neg fun near => Bool.false_ne_true (isSmall.2 near)]
    have positive : ctx.params.precision ≠ 0 := by
      rw [params]
      exact (Nat.lt_of_lt_of_le (by decide) more).ne'
    obtain ⟨m, rounded, mValue⟩ := Precision.round_exact (p := .halfUp ctx.params.precision) value
      ⟨short, fits.inRange⟩
    refine ⟨m, lift_ok ?_ ctx, mValue⟩
    rw [Term.rounded, Term.roundDigits, if_neg positive, rounded]
    rfl

/-- A text that stays one is the same without its enclosing parentheses. -/
theorem Term.text_removeParens {s : String} {b : Option Binding}
    (symbolic : (Term.symbolic s b).removeParens.isNumeric = false) :
    (Term.symbolic s b).removeParens.text.toList = unwrap s.toList := by
  have removed : (Term.symbolic s b).removeParens =
      if isWrapped s.toList = true then .ofText (String.ofList (unwrap s.toList))
      else .symbolic s b := rfl
  rw [removed] at symbolic ⊢
  by_cases wrapped : isWrapped s.toList = true
  · rw [if_pos wrapped, ofText] at symbolic ⊢
    cases found : Decimal.ofText? (String.ofList (unwrap s.toList)) with
    | some n =>
      rw [found] at symbolic
      cases symbolic
    | none => exact String.toList_ofList
  · rw [if_neg wrapped, unwrap, dif_neg wrapped]
    rfl

namespace Expr

variable {ctx : Context} {e : Expr} {ρ : String → ℚ}

/-! ## Steps of an answer -/

/-- Only names that occur in a tree occur in the simplified one. -/
theorem compositional_occurs :
    Compositional fun (S : String → Prop) e => ∀ name, e.Occurs name → S name where
  number _ _ _ occurs := False.elim occurs
  unary := Iff.rfl
  binary := ⟨fun all => ⟨fun name occurs => all name (.inl occurs),
    fun name occurs => all name (.inr occurs)⟩,
    fun all name occurs => occurs.elim (all.1 name) (all.2 name)⟩
  call {S name args} all := by
    have iff : ∀ {es : List Expr}, (∀ name, OccursIn name es → S name) ↔
        ∀ e ∈ es, ∀ name, e.Occurs name → S name := by
      intro es
      induction es with
      | nil => exact ⟨fun _ _ member => absurd member List.not_mem_nil, fun _ _ => False.elim⟩
      | cons e es ih =>
        rw [List.forall_mem_cons, ← ih]
        exact ⟨fun all => ⟨fun name occurs => all name (.inl occurs),
          fun name occurs => all name (.inr occurs)⟩,
          fun all name occurs => occurs.elim (all.1 name) (all.2 name)⟩
    exact ⟨iff.1 all, iff.2⟩
  definition _ := ⟨fun _ => True, fun _ _ => trivial, fun _ _ occurs => False.elim occurs⟩

/-- A polynomial is simplified to one of the same value with no other variables. -/
theorem exists_simplified (polynomial : e.IsPolynomial)
    (numbers : ∀ name, e.Occurs name → ctx.IsNumber name)
    (compact : AllCompact (e.simplifyNumbers ctx)) :
    ∃ e' ctx', e.simplify ctx = (.ok e', ctx') ∧ ctx.Advances ctx' ∧ e'.Sound ctx ∧
      (∀ name, e'.Occurs name → e.Occurs name) ∧
      ∀ ρ, ctx.Agrees ρ → e'.rationalValue ρ = e.rationalValue ρ := by
  rw [simplifyNumbers, allCompact_union, allCompact_union] at compact
  obtain ⟨⟨literals, expanding⟩, folding⟩ := compact
  have sound : e.Sound ctx := polynomial.sound numbers literals
  have gives : ∀ ρ, ctx.Agrees ρ → Gives ctx ρ e.simplify (e.rationalValue ρ) := by
    intro ρ agrees
    obtain ⟨middle, expanded, sound', value⟩ := yields_expand sound agrees expanding
    obtain ⟨e', folded, sound'', value'⟩ := (yields_fold sound' agrees).fold
      fun q member => folding q ⟨middle, expanded.result, member⟩
    exact ⟨e', expanded.bind folded, sound'', value'.trans value⟩
  obtain ⟨e', yields, sound', -⟩ := gives ctx.valuation ctx.agrees_valuation
  have kept : Ensures (fun _ => True) Advances e.simplify fun e' =>
      ∀ name, e'.Occurs name → e.Occurs name :=
    compositional_occurs.ensures_simplify (d := e.Occurs) fun _ occurs => occurs
  obtain ⟨advances, names⟩ := kept ctx trivial
  refine ⟨e', (e.simplify ctx).2, Prod.ext yields.result rfl, advances, sound',
    names e' yields.result, fun ρ agrees => ?_⟩
  obtain ⟨e'', yields', -, value⟩ := gives ρ agrees
  obtain rfl := Except.ok.inj (yields.result.symm.trans yields'.result)
  exact value

/-- With the settings of a new session a polynomial is simplified, evaluated and settled. -/
theorem answer_apply {e' : Expr} {ctx' : Context} (polynomial : e.IsPolynomial)
    (settings : ctx.params = {}) (simplified : e.simplify ctx = (.ok e', ctx')) :
    e.answer ctx = (e'.eval >>= Term.settle) ctx' := by
  have prepared : e.prepare ctx = (.ok e', ctx') := by
    rw [← simplified, prepare, bind_ok (look_apply _ ctx), settings]
    cases polynomial <;> rfl
  have steps : (do (← (← e.prepare).eval).settle : Calc Term) ctx =
      (e'.eval >>= Term.settle) ctx' := bind_ok prepared
  rw [← steps]
  cases polynomial <;> rfl

theorem evaluate_of_read {source : String} (read : ctx.read source [] = .ok e) :
    (evaluate source ctx).1 = (e.answer ctx).1 := by
  rw [evaluate]
  unfold withParams
  rw [tree_bind, read]
  rfl

/-! ## Variables with values -/

/-- No number is rounded where the polynomial is simplified, the simplified one is evaluated, and
the value is rounded to the precision. -/
structure ExactAnswer (ctx : Context) (e : Expr) : Prop where
  simplifying : AllCompact (e.simplifyNumbers ctx)
  evaluating : ∀ e', (e.simplify ctx).1 = .ok e' → AllCompact (e'.subvalues ctx.valuation)
  rounding : HasDigits ctx.params.precision (e.rationalValue ctx.valuation)

/-- The variables of the tree are bound to finite numbers. -/
def IsSupplied (ctx : Context) (e : Expr) : Prop :=
  ∀ name, e.Occurs name → ctx.isBound name = true ∧ ctx.IsNumber name

/-- Evaluating a polynomial after it was simplified has raised the precision at most. -/
theorem raisesPrecision_eval {e' : Expr} {t : Term} {ctx' ctx'' : Context}
    (advances : ctx.Advances ctx') (polynomial : e'.IsPolynomial)
    (evaluated : e'.eval ctx' = (.ok t, ctx'')) : ctx.RaisesPrecision ctx'' := by
  have advances' : ctx'.Advances (e'.eval ctx').2 :=
    (keeps_eval_of_isArithmetic polynomial.isArithmetic).rel ctx'
  rw [evaluated] at advances'
  exact advances.params.trans advances'.params

theorem raisesPrecision_initial (settings : ctx.params = {}) {ctx' : Context}
    (raises : ctx.RaisesPrecision ctx') : Context.initial.RaisesPrecision ctx' := by
  unfold RaisesPrecision at raises
  rwa [settings] at raises

/-- The value of a polynomial as its answer. -/
theorem ExactAnswer.exists_answer (exact : e.ExactAnswer ctx) (polynomial : e.IsPolynomial)
    (settings : ctx.params = {}) (given : e.IsSupplied ctx) :
    Compact (e.rationalValue ctx.valuation) ∧
      ∃ n, (e.answer ctx).1 = .ok (.numeric n) ∧
        n.toRat? = some (settled (e.rationalValue ctx.valuation)) := by
  obtain ⟨e', ctx', simplified, advances, sound, names, value⟩ :=
    exists_simplified polynomial (fun name occurs => (given name occurs).2) exact.simplifying
  have compact := exact.evaluating e' (by rw [simplified])
  have closed : e'.isClosed ctx = true :=
    isClosed_iff.2 fun name occurs => (given name (names name occurs)).1
  obtain ⟨n, yields, nValue⟩ := evaluates sound closed compact
  obtain ⟨ctx'', -, evaluated⟩ := yields advances.toSameNames
  have raises := raisesPrecision_eval advances sound.isPolynomial evaluated
  have fits : Compact (e'.rationalValue ctx.valuation) := compact _ (mem_subvalues e')
  rw [value _ ctx.agrees_valuation] at nValue fits
  have short : HasDigits ctx''.params.precision (e.rationalValue ctx.valuation) := by
    -- a long literal may have raised the precision, so that less is rounded
    obtain ⟨p, more, params⟩ := raises
    rw [params]
    exact exact.rounding.mono more
  obtain ⟨m, settle, mValue⟩ :=
    settle_numeric (raisesPrecision_initial settings raises) nValue fits short
  refine ⟨fits, m, ?_, mValue⟩
  rw [answer_apply polynomial settings simplified, bind_ok evaluated, settle]

/-! ## Variables without values -/

/-- No number is rounded where the polynomial is simplified and the simplified one is evaluated to a
text. -/
structure ExactText (ctx : Context) (e : Expr) : Prop where
  simplifying : AllCompact (e.simplifyNumbers ctx)
  evaluating : ∀ e' ctx', e.simplify ctx = (.ok e', ctx') →
    e'.Settled Interpretation.rational ctx'

/-- Without its enclosing parentheses the evaluated text is not taken for a number. -/
def KeepsText (ctx : Context) (e : Expr) : Prop :=
  ∀ e' t ctx' ctx'', e.simplify ctx = (.ok e', ctx') → e'.eval ctx' = (.ok t, ctx'') →
    t.removeParens.isNumeric = t.isNumeric

/-- The variables of the tree are letters. -/
def HasLetters (e : Expr) : Prop :=
  ∀ name, e.Occurs name → ∃ c, name.toList = [c] ∧ Text.isLetter c = true

/-- The tree is a polynomial in these variables that has this value. -/
structure Stands (ρ : String → ℚ) (S : String → Prop) (x : ℚ) (e : Expr) : Prop where
  polynomial : e.IsPolynomial
  names : ∀ name, e.Occurs name → S name
  value : e.rationalValue ρ = x

theorem isPolynomial_unary {sign : Sign} : (Expr.unary sign e).IsPolynomial ↔ e.IsPolynomial := by
  constructor
  · rintro (_ | _ | polynomial)
    exact polynomial
  · exact .unary

theorem meaning_stands {S : String → Prop} : Meaning (Stands ρ S) where
  literal value nonnegative :=
    ⟨.literal value nonnegative, fun _ occurs => False.elim occurs, rationalValue_literal value⟩
  negative {x e} := by
    constructor
    · rintro ⟨polynomial, names, value⟩
      exact ⟨isPolynomial_unary.1 polynomial, names, neg_eq_iff_eq_neg.1 value⟩
    · rintro ⟨polynomial, names, value⟩
      exact ⟨polynomial.unary, names, neg_eq_iff_eq_neg.2 value⟩
  times left right :=
    ⟨left.polynomial.times right.polynomial,
      fun name occurs => occurs.elim (left.names name) (right.names name),
      congrArg₂ (· * ·) left.value right.value⟩

/-- A polynomial in letters evaluates to the text of a polynomial in the same letters. -/
theorem means_polynomial {S : String → Prop}
    (letters : ∀ name, S name → ∃ c, name.toList = [c] ∧ Text.isLetter c = true)
    (polynomial : e.IsPolynomial) (names : ∀ name, e.Occurs name → S name) :
    e.Means Interpretation.rational ρ (Stands ρ S) := by
  induction polynomial with
  | literal => exact means_literal _ _ meaning_stands.numeral
  | @var name c shape nameChar =>
    have member : S name := names name rfl
    obtain ⟨d, shape', letter⟩ := letters name member
    refine means_var shape' letter ⟨.var shape nameChar, ?_, rfl⟩
    rintro _ rfl
    exact member
  | unary _ ih => exact means_unary meaning_stands (ih names)
  | plus _ _ left right =>
    refine means_operation (by decide) (left fun name occurs => names name (.inl occurs))
      (right fun name occurs => names name (.inr occurs)) meaning_stands.numeral ?_
    intro l r first second
    exact ⟨first.polynomial.plus second.polynomial,
      fun name occurs => occurs.elim (first.names name) (second.names name),
      congrArg₂ (· + ·) first.value second.value⟩
  | minus _ _ left right =>
    refine means_operation (by decide) (left fun name occurs => names name (.inl occurs))
      (right fun name occurs => names name (.inr occurs)) meaning_stands.numeral ?_
    intro l r first second
    exact ⟨first.polynomial.minus second.polynomial,
      fun name occurs => occurs.elim (first.names name) (second.names name),
      congrArg₂ (· - ·) first.value second.value⟩
  | times _ _ left right =>
    exact means_times meaning_stands (left fun name occurs => names name (.inl occurs))
      (right fun name occurs => names name (.inr occurs))
  | @power attached written base n k _ exponent ih =>
    -- the exponent stays a literal
    refine means_operation (N := fun x e => e.IsNumeral x) (by decide)
      (ih fun name occurs => names name (.inl occurs)) (means_literal n written fun same => same)
      meaning_stands.numeral ?_
    rintro l r first ⟨m, value, rfl⟩
    have whole : (Expr.literal n written).value Interpretation.rational ρ = (k : ℚ) :=
      rationalValue_literal exponent
    rw [whole, abs_of_nonneg (Nat.cast_nonneg k)] at value
    rw [whole, if_neg (not_lt.2 (Nat.cast_nonneg k))]
    refine ⟨first.polynomial.power value, ?_, ?_⟩
    · exact fun name occurs => occurs.elim (first.names name) False.elim
    · rw [rationalValue_power value, first.value]
      exact (Interpretation.rational_power_nat _ k).symm

/-- The answer is read as a polynomial that is answered by the same number. -/
theorem ExactText.exists_read (exact : e.ExactText ctx) (kept : e.KeepsText ctx)
    (polynomial : e.IsPolynomial) (letters : e.HasLetters) (default : ctx.IsDefault)
    (settings : ctx.params = {}) {t : Term} (done : (e.answer ctx).1 = .ok t)
    (fits : Compact (e.rationalValue ρ)) :
    ∃ e', ctx.read t.text [] = .ok e' ∧ e'.IsPolynomial ∧
      (∀ name, e'.Occurs name → e.Occurs name) ∧
      settled (e'.rationalValue ρ) = settled (e.rationalValue ρ) := by
  have free : ∀ {name t}, ctx.lookupVariable name ≠ some t := by
    intro name t found
    rw [default.lookupVariable_eq_none] at found
    cases found
  obtain ⟨e', ctx', simplified, advances, sound, names, value⟩ :=
    exists_simplified polynomial (fun _ _ _ found => absurd found free) exact.simplifying
  rw [answer_apply polynomial settings simplified] at done
  obtain ⟨t₀, ctx'', evaluated, settle⟩ := exists_of_bind (Prod.ext done rfl)
  have leaves := means_polynomial (ρ := ρ) letters sound.isPolynomial names
    (default.trans advances.toSameNames) (exact.evaluating e' ctx' simplified) evaluated
  have result := leaves.result
  rw [show e'.value Interpretation.rational ρ = e.rationalValue ρ from
    value ρ fun _ _ found => absurd found free] at result
  -- the text of the answer is that of a form
  obtain ⟨f, wellFormed, stands, chars⟩ : ∃ f : Form, f.WellFormed Context.initial.vocabulary ∧
      (∃ x, Stands ρ e.Occurs x f.tree ∧ settled x = settled (e.rationalValue ρ)) ∧
      f.chars = t.text.toList := by
    cases t₀ with
    | symbolic s b =>
      -- only the parentheses around the whole text are gone
      have symbolic := kept e' _ ctx' ctx'' simplified evaluated
      obtain ⟨same, -⟩ := Prod.mk.inj settle
      obtain rfl := Except.ok.inj same
      obtain ⟨f, form, chars, -⟩ := result
      obtain ⟨g, wellFormed, tree, text⟩ := Form.exists_unwrap form.wellFormed
      refine ⟨g, wellFormed, ⟨_, by rw [tree]; exact form.value, rfl⟩, ?_⟩
      rw [text, chars, Term.text_removeParens symbolic]
    | numeric n =>
      -- the variables have cancelled out, and the text is that of a number
      obtain ⟨nValue, short, -⟩ := result
      have raises := raisesPrecision_eval advances sound.isPolynomial evaluated
      obtain ⟨m, settled', mValue⟩ := settle_numeric (raisesPrecision_initial settings raises)
        nValue fits (short.short.mono (min_le_left _ _))
      obtain ⟨same, -⟩ := Prod.mk.inj (settle.symm.trans settled')
      obtain rfl := Except.ok.inj same
      have writable : Representable Decimal.exactDigits (settled (e.rationalValue ρ)) := by
        unfold settled
        split
        next => exact representable_zero _
        next => exact fits.exact
      obtain ⟨f, form, chars, -⟩ := Term.exists_number (v := Context.initial.vocabulary) mValue
        writable fun _ => meaning_stands.numeral
      exact ⟨f, form.wellFormed, ⟨_, form.value, settled_settled _⟩, chars⟩
  obtain ⟨x, ⟨polynomial', names', rfl⟩, same⟩ := stands
  refine ⟨f.tree, read_eq_ok.2 ?_, polynomial', names', same⟩
  rw [default.vocabulary_eq, ← Form.parse_chars wellFormed, chars, String.ofList_toList]

end Expr

end Reckon
