import Reckon.Proofs.Evaluate
import Reckon.Proofs.Expr.Meaning
import Reckon.Proofs.Term.Text
import Reckon.Simplify

/-!
# Polynomials

A polynomial is a tree of literals, variables, signs, sums, products and powers with a whole
exponent. A part of it whose variables are all bound is evaluated to a number, which is the exact
one if no value of a subtree needs more digits than the ambient arithmetic keeps.

Results: `yields_value` (numeric parts), `yields_value_none` (all others).
-/

namespace Reckon

/-- The ambient arithmetic does not round the number. -/
def Compact (q : ℚ) : Prop :=
  Representable ambientDigits q

theorem Compact.exact {q : ℚ} (compact : Compact q) : Representable Decimal.exactDigits q :=
  Representable.mono compact (by decide)

/-- All of several numbers are compact. -/
def AllCompact (numbers : Set ℚ) : Prop :=
  ∀ q ∈ numbers, Compact q

theorem allCompact_insert {q : ℚ} {numbers : Set ℚ} :
    AllCompact (insert q numbers) ↔ Compact q ∧ AllCompact numbers :=
  Set.forall_mem_insert

theorem allCompact_union {numbers others : Set ℚ} :
    AllCompact (numbers ∪ others) ↔ AllCompact numbers ∧ AllCompact others := by
  constructor
  · intro all
    exact ⟨fun q member => all q (Or.inl member), fun q member => all q (Or.inr member)⟩
  · rintro ⟨first, second⟩ q (member | member)
    · exact first q member
    · exact second q member

/-- If the variable is bound, then to a finite number. -/
def Context.IsNumber (ctx : Context) (name : String) : Prop :=
  ∀ t, ctx.lookupVariable name = some t → ∃ n q, t = .numeric n ∧ n.toRat? = some q

/-- The values of the variables that are bound to numbers. -/
def Context.valuation (ctx : Context) (name : String) : ℚ :=
  match ctx.lookupVariable name with
  | some (.numeric n) => n.toRat
  | _ => 0

theorem Context.valuation_of_numeric {ctx : Context} {name : String} {n : Decimal}
    (bound : ctx.lookupVariable name = some (.numeric n)) : ctx.valuation name = n.toRat := by
  simp [valuation, bound]

/-- The assignment gives every variable that is bound to a number this number. -/
def Context.Agrees (ctx : Context) (ρ : String → ℚ) : Prop :=
  ∀ name n, ctx.lookupVariable name = some (.numeric n) → ρ name = n.toRat

theorem Context.agrees_valuation (ctx : Context) : ctx.Agrees ctx.valuation :=
  fun _ _ bound => valuation_of_numeric bound

namespace Expr

/-- Literals that are not negative, variables of one character, signs, sums, products, and powers
with a natural number as exponent. -/
inductive IsPolynomial : Expr → Prop
  | literal {n : Decimal} {written : Bool} {q : ℚ} :
      n.toRat? = some q → 0 ≤ q → IsPolynomial (.literal n written)
  | var {name : String} {c : Char} :
      name.toList = [c] → isNameChar c = true → IsPolynomial (.var name)
  | unary {sign : Sign} {e : Expr} : IsPolynomial e → IsPolynomial (.unary sign e)
  | plus {attached : Bool} {l r : Expr} :
      IsPolynomial l → IsPolynomial r → IsPolynomial (.binary .plus attached l r)
  | minus {attached : Bool} {l r : Expr} :
      IsPolynomial l → IsPolynomial r → IsPolynomial (.binary .minus attached l r)
  | times {attached : Bool} {l r : Expr} :
      IsPolynomial l → IsPolynomial r → IsPolynomial (.binary .times attached l r)
  | power {attached written : Bool} {base : Expr} {n : Decimal} {k : Nat} :
      IsPolynomial base → n.toRat? = some (k : ℚ) →
      IsPolynomial (.binary .power attached base (.literal n written))

/-- The literals of a tree. -/
def literals : Expr → Set ℚ
  | .literal n _ => {n.toRat}
  | .unary _ e => e.literals
  | .binary _ _ l r => l.literals ∪ r.literals
  | _ => ∅

/-- A polynomial whose literals are compact and whose bound variables are numbers. -/
inductive Sound (ctx : Context) : Expr → Prop
  | literal {n : Decimal} {written : Bool} {q : ℚ} :
      n.toRat? = some q → 0 ≤ q → Compact q → Sound ctx (.literal n written)
  | var {name : String} {c : Char} :
      name.toList = [c] → isNameChar c = true → ctx.IsNumber name → Sound ctx (.var name)
  | unary {sign : Sign} {e : Expr} : Sound ctx e → Sound ctx (.unary sign e)
  | plus {attached : Bool} {l r : Expr} :
      Sound ctx l → Sound ctx r → Sound ctx (.binary .plus attached l r)
  | minus {attached : Bool} {l r : Expr} :
      Sound ctx l → Sound ctx r → Sound ctx (.binary .minus attached l r)
  | times {attached : Bool} {l r : Expr} :
      Sound ctx l → Sound ctx r → Sound ctx (.binary .times attached l r)
  | power {attached written : Bool} {base : Expr} {n : Decimal} {k : Nat} :
      Sound ctx base → n.toRat? = some (k : ℚ) → Compact (k : ℚ) →
      Sound ctx (.binary .power attached base (.literal n written))

theorem IsPolynomial.sound {ctx : Context} {e : Expr} (polynomial : e.IsPolynomial)
    (numbers : ∀ name, e.Occurs name → ctx.IsNumber name) (compact : AllCompact e.literals) :
    e.Sound ctx := by
  induction polynomial with
  | literal value nonnegative =>
    refine .literal value nonnegative (compact _ ?_)
    rw [literals, Decimal.toRat_of_toRat? value]
    rfl
  | @var name c shape letter => exact .var shape letter (numbers name rfl)
  | unary _ ih => exact .unary (ih numbers compact)
  | plus _ _ left right =>
    rw [literals, allCompact_union] at compact
    exact .plus (left (fun name occurs => numbers name (Or.inl occurs)) compact.1)
      (right (fun name occurs => numbers name (Or.inr occurs)) compact.2)
  | minus _ _ left right =>
    rw [literals, allCompact_union] at compact
    exact .minus (left (fun name occurs => numbers name (Or.inl occurs)) compact.1)
      (right (fun name occurs => numbers name (Or.inr occurs)) compact.2)
  | times _ _ left right =>
    rw [literals, allCompact_union] at compact
    exact .times (left (fun name occurs => numbers name (Or.inl occurs)) compact.1)
      (right (fun name occurs => numbers name (Or.inr occurs)) compact.2)
  | power _ exponent ih =>
    rw [literals, allCompact_union] at compact
    refine .power (ih (fun name occurs => numbers name (Or.inl occurs)) compact.1) exponent
      (compact.2 _ ?_)
    rw [literals, Decimal.toRat_of_toRat? exponent]
    rfl

/-- The exact value of a polynomial. -/
abbrev rationalValue (ρ : String → ℚ) (e : Expr) : ℚ :=
  e.value Interpretation.rational ρ

/-- The values of all subtrees. -/
def subvalues (ρ : String → ℚ) : Expr → Set ℚ
  | .unary sign e => insert ((Expr.unary sign e).rationalValue ρ) (e.subvalues ρ)
  | .binary op attached l r =>
    insert ((Expr.binary op attached l r).rationalValue ρ) (l.subvalues ρ ∪ r.subvalues ρ)
  | e => {e.rationalValue ρ}

/-- All variables of the tree are bound. -/
def isClosed (ctx : Context) (e : Expr) : Bool :=
  e.names.all ctx.isBound

theorem isClosed_iff {ctx : Context} {e : Expr} :
    e.isClosed ctx = true ↔ ∀ name, e.Occurs name → ctx.isBound name = true := by
  rw [isClosed, List.all_eq_true]
  exact forall_congr' fun name => by rw [mem_names]

/-! ## Evaluation -/

variable {ctx : Context} {ρ : String → ℚ}

theorem rationalValue_literal {n : Decimal} {written : Bool} {q : ℚ} (value : n.toRat? = some q) :
    (Expr.literal n written).rationalValue ρ = q := by
  rw [rationalValue, Expr.value, Decimal.toRat_of_toRat? value]
  rfl

theorem mem_subvalues (e : Expr) : e.rationalValue ρ ∈ e.subvalues ρ := by
  cases e <;> simp [subvalues]

theorem rationalValue_power {attached written : Bool} {base : Expr} {n : Decimal} {k : Nat}
    (value : n.toRat? = some (k : ℚ)) :
    (Expr.binary .power attached base (.literal n written)).rationalValue ρ =
      base.rationalValue ρ ^ k := by
  rw [rationalValue, Expr.value]
  change Interpretation.rational.power _ ((Expr.literal n written).rationalValue ρ) = _
  rw [rationalValue_literal value, Interpretation.rational_power_nat]

/-- A numeric operation: the precision does not matter. -/
theorem yields_binary {op : Operator} {attached : Bool} {l r : Expr} {m n k : Decimal} {x y : ℚ}
    (left : Calc.Yields ctx l.eval (.numeric m)) (right : Calc.Yields ctx r.eval (.numeric n))
    (leftValue : m.toRat? = some x) (rightValue : n.toRat? = some y) (leftFits : Compact x)
    (rightFits : Compact y) (computed : ∀ digits, Arithmetic.apply op digits m n = .ok k) :
    Calc.Yields ctx (Expr.binary op attached l r).eval (.numeric k) := by
  intro before same
  obtain ⟨middle, kept, leftDone⟩ := left same
  obtain ⟨after, kept', rightDone⟩ := right kept
  refine ⟨after, kept', ?_⟩
  obtain ⟨digits, combined⟩ := Term.combine_numeric ambientDigits after.params.precision op
    leftValue rightValue leftFits.exact rightFits.exact
  rw [eval_binary leftDone rightDone, combined, computed]
  rfl

/-- Powers with a natural number as exponent. -/
theorem apply_power {m n : Decimal} {x : ℚ} {k : Nat} (base : m.toRat? = some x)
    (exponent : n.toRat? = some (k : ℚ)) (baseFits : Compact x) (fits : Compact (x ^ k)) :
    ∃ r, (∀ digits, Arithmetic.apply .power digits m n = .ok r) ∧ r.toRat? = some (x ^ k) := by
  have whole : n.toRat? = some (((k : ℤ) : ℚ)) := by rw [exponent, Int.cast_natCast]
  have reduced : ∀ digits, Arithmetic.apply .power digits m n =
      Arithmetic.wholePower digits m k := by
    intro digits
    rw [Arithmetic.apply, Arithmetic.power, Decimal.isSignaling_of_toRat? exponent,
      Decimal.isWhole_of_int whole, Decimal.truncated?_of_int whole]
    rfl
  by_cases zero : k = 0
  · refine ⟨1, fun digits => ?_, by rw [zero, pow_zero, Decimal.toRat?_one]⟩
    rw [reduced, Arithmetic.wholePower, if_pos (by exact_mod_cast zero)]
  · have positive : 0 < k := Nat.pos_of_ne_zero zero
    obtain ⟨r, found, value⟩ :=
      Precision.powNat_exact (p := exactPrecision) base positive baseFits.exact fits.exact
    refine ⟨r, fun digits => ?_, value⟩
    rw [reduced, Arithmetic.wholePower, if_neg (by exact_mod_cast zero),
      if_pos (by exact_mod_cast positive), Int.toNat_natCast, found]
    rfl

theorem yields_literal (n : Decimal) (written : Bool) :
    Calc.Yields ctx (Expr.literal n written).eval (.numeric n) := by
  intro before same
  obtain ⟨after, kept, -, done⟩ := eval_literal n written before
  exact ⟨after, same.trans kept, done⟩

/-- The tree evaluates to its value. -/
def Evaluates (ctx : Context) (e : Expr) : Prop :=
  ∃ n, Calc.Yields ctx e.eval (.numeric n) ∧ n.toRat? = some (e.rationalValue ctx.valuation)

/-- An operation that rounds nothing, on operands that evaluate to their values. -/
theorem evaluates_binary {op : Operator} {attached : Bool} {l r : Expr}
    (closed : ∀ name, (Expr.binary op attached l r).Occurs name → ctx.isBound name = true)
    (compact : AllCompact ((Expr.binary op attached l r).subvalues ctx.valuation))
    (left : (∀ name, l.Occurs name → ctx.isBound name = true) →
      AllCompact (l.subvalues ctx.valuation) → l.Evaluates ctx)
    (right : (∀ name, r.Occurs name → ctx.isBound name = true) →
      AllCompact (r.subvalues ctx.valuation) → r.Evaluates ctx)
    (computes : ∀ {m n : Decimal}, m.toRat? = some (l.rationalValue ctx.valuation) →
      n.toRat? = some (r.rationalValue ctx.valuation) →
      Compact ((Expr.binary op attached l r).rationalValue ctx.valuation) →
      ∃ k, (∀ digits, Arithmetic.apply op digits m n = .ok k) ∧
        k.toRat? = some ((Expr.binary op attached l r).rationalValue ctx.valuation)) :
    (Expr.binary op attached l r).Evaluates ctx := by
  rw [subvalues, allCompact_insert, allCompact_union] at compact
  obtain ⟨fits, leftFits, rightFits⟩ := compact
  obtain ⟨m, leftYields, leftValue⟩ :=
    left (fun name occurs => closed name (Or.inl occurs)) leftFits
  obtain ⟨n, rightYields, rightValue⟩ :=
    right (fun name occurs => closed name (Or.inr occurs)) rightFits
  obtain ⟨k, computed, value⟩ := computes leftValue rightValue fits
  exact ⟨k, yields_binary leftYields rightYields leftValue rightValue
    (leftFits _ (mem_subvalues l)) (rightFits _ (mem_subvalues r)) computed, value⟩

/-- A polynomial whose variables are bound evaluates to its value. -/
theorem evaluates {e : Expr} (polynomial : e.Sound ctx) (closed : e.isClosed ctx = true)
    (compact : AllCompact (e.subvalues ctx.valuation)) : e.Evaluates ctx := by
  rw [isClosed_iff] at closed
  induction polynomial with
  | @literal n written q value _ _ =>
    exact ⟨n, yields_literal n written, by rw [rationalValue_literal value, value]⟩
  | @var name c _ _ isNumber =>
    obtain ⟨t, found⟩ := Option.isSome_iff_exists.1 (closed name rfl)
    obtain ⟨n, q, rfl, value⟩ := isNumber t found
    refine ⟨n, ?_, ?_⟩
    · intro before same
      refine ⟨before, same, ?_⟩
      rw [eval_var, same.lookupVariable_eq, found]
      rfl
    · change n.toRat? = some (ctx.valuation name)
      rw [Context.valuation_of_numeric found, Decimal.toRat_of_toRat? value, value]
  | @unary sign e _ ih =>
    rw [subvalues, allCompact_insert] at compact
    obtain ⟨-, inner⟩ := compact
    obtain ⟨n, yields, value⟩ := ih closed inner
    have fits : Compact (e.rationalValue ctx.valuation) := inner _ (mem_subvalues e)
    cases sign with
    | positive =>
      refine ⟨n, ?_, value⟩
      intro before same
      obtain ⟨after, kept, done⟩ := yields same
      exact ⟨after, kept, eval_unary done⟩
    | negative =>
      obtain ⟨m, negated, mValue⟩ :=
        Precision.neg_exact (p := .halfEven ambientDigits) value fits
      refine ⟨m, ?_, mValue⟩
      intro before same
      obtain ⟨after, kept, done⟩ := yields same
      refine ⟨after, kept, (eval_unary done).trans ?_⟩
      rw [Term.negate, negated]
      rfl
  | plus _ _ left right =>
    refine evaluates_binary closed compact left right fun leftValue rightValue fits => ?_
    obtain ⟨k, added, value⟩ :=
      Precision.add_exact (p := exactPrecision) leftValue rightValue (Compact.exact fits)
    exact ⟨k, fun digits => by rw [Arithmetic.apply, added]; rfl, value⟩
  | minus _ _ left right =>
    refine evaluates_binary closed compact left right fun leftValue rightValue fits => ?_
    obtain ⟨k, subtracted, value⟩ :=
      Precision.sub_exact (p := exactPrecision) leftValue rightValue (Compact.exact fits)
    exact ⟨k, fun digits => by rw [Arithmetic.apply, subtracted]; rfl, value⟩
  | times _ _ left right =>
    refine evaluates_binary closed compact left right fun leftValue rightValue fits => ?_
    obtain ⟨k, multiplied, value⟩ :=
      Precision.mul_exact (p := exactPrecision) leftValue rightValue (Compact.exact fits)
    exact ⟨k, fun digits => by rw [Arithmetic.apply, multiplied]; rfl, value⟩
  | @power attached written base n k _ value exponentFits ih =>
    rw [subvalues, allCompact_insert, allCompact_union] at compact
    obtain ⟨fits, inner, -⟩ := compact
    obtain ⟨m, yields, mValue⟩ := ih (fun name occurs => closed name (Or.inl occurs)) inner
    have baseFits : Compact (base.rationalValue ctx.valuation) := inner _ (mem_subvalues base)
    rw [rationalValue_power value] at fits
    obtain ⟨r, computed, rValue⟩ := apply_power mValue value baseFits fits
    refine ⟨r, yields_binary yields (yields_literal n written) mValue value baseFits exponentFits
      computed, ?_⟩
    rw [rationalValue_power value, rValue]

theorem IsPolynomial.isArithmetic {e : Expr} (polynomial : e.IsPolynomial) :
    e.isArithmetic = true := by
  induction polynomial with
  | literal => rfl
  | var => rfl
  | unary _ ih => exact ih
  | plus _ _ left right => exact Bool.and_eq_true_iff.2 ⟨left, right⟩
  | minus _ _ left right => exact Bool.and_eq_true_iff.2 ⟨left, right⟩
  | times _ _ left right => exact Bool.and_eq_true_iff.2 ⟨left, right⟩
  | power _ _ ih => exact Bool.and_eq_true_iff.2 ⟨ih, rfl⟩

theorem Sound.isPolynomial {e : Expr} (sound : e.Sound ctx) : e.IsPolynomial := by
  induction sound with
  | literal value nonnegative _ => exact .literal value nonnegative
  | var shape letter _ => exact .var shape letter
  | unary _ ih => exact .unary ih
  | plus _ _ left right => exact .plus left right
  | minus _ _ left right => exact .minus left right
  | times _ _ left right => exact .times left right
  | power _ value _ ih => exact .power ih value

/-- A bound variable has the value that any assignment in agreement with the context gives it. -/
theorem rationalValue_eq_valuation {e : Expr} (polynomial : e.Sound ctx)
    (closed : e.isClosed ctx = true) (agrees : ctx.Agrees ρ) :
    e.rationalValue ctx.valuation = e.rationalValue ρ := by
  rw [isClosed_iff] at closed
  simp only [rationalValue] at *
  induction polynomial with
  | literal => rfl
  | @var name c _ _ isNumber =>
    obtain ⟨t, found⟩ := Option.isSome_iff_exists.1 (closed name rfl)
    obtain ⟨n, q, rfl, -⟩ := isNumber t found
    change ctx.valuation name = ρ name
    rw [Context.valuation_of_numeric found, agrees name n found]
  | unary _ ih => rw [Expr.value, Expr.value, ih closed]
  | plus _ _ left right =>
    rw [Expr.value, Expr.value, left fun name occurs => closed name (Or.inl occurs),
      right fun name occurs => closed name (Or.inr occurs)]
  | minus _ _ left right =>
    rw [Expr.value, Expr.value, left fun name occurs => closed name (Or.inl occurs),
      right fun name occurs => closed name (Or.inr occurs)]
  | times _ _ left right =>
    rw [Expr.value, Expr.value, left fun name occurs => closed name (Or.inl occurs),
      right fun name occurs => closed name (Or.inr occurs)]
  | power _ _ _ ih =>
    rw [Expr.value, Expr.value, ih fun name occurs => closed name (Or.inl occurs)]
    rfl

/-- An arithmetic tree whose variables are bound is a number if it evaluates to one. -/
theorem yields_value_of_closed {e : Expr} {n : Decimal} (arithmetic : e.isArithmetic = true)
    (closed : e.isClosed ctx = true) (yields : Calc.Yields ctx e.eval (.numeric n)) :
    Calc.Yields ctx e.value? (some n) := by
  have known : Calc.Yields ctx (Calc.look fun ctx => e.names.all ctx.isBound) true :=
    Calc.yields_look fun before same => by
      rw [same.isBound_eq]
      exact closed
  rw [value?, arithmetic]
  exact known.bind (yields.bind (Calc.yields_pure _))

/-- A tree with a variable that is not bound is no number. -/
theorem yields_value_of_open {e : Expr} (arithmetic : e.isArithmetic = true)
    (isOpen : e.isClosed ctx = false) : Calc.Yields ctx e.value? none := by
  have known : Calc.Yields ctx (Calc.look fun ctx => e.names.all ctx.isBound) false :=
    Calc.yields_look fun before same => by
      rw [same.isBound_eq]
      exact isOpen
  rw [value?, arithmetic]
  exact known.bind (Calc.yields_pure _)

/-- The numeric parts of a polynomial are computed exactly. -/
theorem yields_value {e : Expr} (polynomial : e.Sound ctx) (closed : e.isClosed ctx = true)
    (agrees : ctx.Agrees ρ) (compact : AllCompact (e.subvalues ctx.valuation)) :
    ∃ n, Calc.Yields ctx e.value? (some n) ∧ n.toRat? = some (e.rationalValue ρ) ∧
      Compact (e.rationalValue ρ) := by
  obtain ⟨n, yields, value⟩ := evaluates polynomial closed compact
  have fits : Compact (e.rationalValue ctx.valuation) := compact _ (mem_subvalues e)
  rw [rationalValue_eq_valuation polynomial closed agrees] at value fits
  exact ⟨n, yields_value_of_closed polynomial.isPolynomial.isArithmetic closed yields, value, fits⟩

theorem yields_value_none {e : Expr} (polynomial : e.Sound ctx)
    (isOpen : e.isClosed ctx = false) : Calc.Yields ctx e.value? none :=
  yields_value_of_open polynomial.isPolynomial.isArithmetic isOpen

end Expr

end Reckon
