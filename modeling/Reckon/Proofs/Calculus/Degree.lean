import Mathlib.Algebra.Polynomial.Roots
import Mathlib.Data.Real.Basic
import Reckon.Calculus.Degree
import Reckon.Proofs.Simplify.Combination
import Reckon.Proofs.Simplify.Identity

/-!
# The degree that is read off a tree

The largest exponent of a tree is the degree of the polynomial only where no powers are multiplied
or nested. Simplifying multiplies out products of powers of the variable, but powers of sums stay as
they are; so the degree is not underestimated if these are powers of linear trees and no two of them
are multiplied (`natDegree_le_degree`), and it can be if they are (`degree_of_factored`).
-/

namespace Reckon

open Calc Context
open Polynomial (C X)

/-- Polynomials in one variable; all that they do not have counts as zero. -/
noncomputable def Interpretation.univariate : Interpretation (Polynomial ℚ) where
  divide _ _ := 0
  power a b := a ^ (b.coeff 0).num.toNat
  compare _ _ _ := 0
  call _ _ := 0

namespace Expr

variable {ctx : Context} {x : String}

/-- The polynomial that a tree denotes, all variables being the same. -/
noncomputable def univariate (e : Expr) : Polynomial ℚ :=
  e.value Interpretation.univariate fun _ => X

theorem univariate_literal {n : Decimal} {written : Bool} {q : ℚ} (value : n.toRat? = some q) :
    (Expr.literal n written).univariate = C q := by
  rw [univariate, Expr.value, Decimal.toRat_of_toRat? value]
  rfl

theorem univariate_power {attached written : Bool} {base : Expr} {n : Decimal} {k : Nat}
    (value : n.toRat? = some (k : ℚ)) :
    (Expr.binary .power attached base (.literal n written)).univariate = base.univariate ^ k := by
  change base.univariate ^ ((Expr.literal n written).univariate.coeff 0).num.toNat = _
  rw [univariate_literal value, Polynomial.coeff_C_zero, Rat.num_natCast, Int.toNat_natCast]

/-- The polynomial at a number is the value of the tree there. -/
theorem IsPolynomial.eval_univariate {e : Expr} (polynomial : e.IsPolynomial) {ρ : String → ℚ}
    {q : ℚ} (assigned : ∀ name, e.Occurs name → ρ name = q) :
    e.univariate.eval q = e.rationalValue ρ := by
  induction polynomial with
  | literal value _ => rw [univariate_literal value, Polynomial.eval_C, rationalValue_literal value]
  | var _ _ => exact Polynomial.eval_X.trans (assigned _ rfl).symm
  | @unary sign e _ ih =>
    rw [rationalValue, Expr.value, ← rationalValue, ← ih assigned]
    cases sign with
    | positive => rfl
    | negative => exact Polynomial.eval_neg _ _
  | plus _ _ left right =>
    exact Polynomial.eval_add.trans (congrArg₂ (· + ·)
      (left fun name occurs => assigned name (Or.inl occurs))
      (right fun name occurs => assigned name (Or.inr occurs)))
  | minus _ _ left right =>
    exact (Polynomial.eval_sub _ _ _).trans (congrArg₂ (· - ·)
      (left fun name occurs => assigned name (Or.inl occurs))
      (right fun name occurs => assigned name (Or.inr occurs)))
  | times _ _ left right =>
    exact Polynomial.eval_mul.trans (congrArg₂ (· * ·)
      (left fun name occurs => assigned name (Or.inl occurs))
      (right fun name occurs => assigned name (Or.inr occurs)))
  | power _ exponent ih =>
    rw [univariate_power exponent, rationalValue_power exponent, Polynomial.eval_pow,
      ih fun name occurs => assigned name (Or.inl occurs)]

/-! ## Degrees -/

theorem natDegree_unary {sign : Sign} {e : Expr} :
    (Expr.unary sign e).univariate.natDegree = e.univariate.natDegree := by
  cases sign with
  | positive => rfl
  | negative => exact Polynomial.natDegree_neg _

theorem IsPolynomial.natDegree_eq_zero {e : Expr} (polynomial : e.IsPolynomial)
    (closed : ∀ name, ¬ e.Occurs name) : e.univariate.natDegree = 0 := by
  induction polynomial with
  | literal value _ => rw [univariate_literal value, Polynomial.natDegree_C]
  | var _ _ => exact absurd rfl (closed _)
  | unary _ ih => rw [natDegree_unary, ih closed]
  | plus _ _ left right =>
    exact Nat.le_zero.1 (Polynomial.natDegree_add_le_of_le
      (left fun name occurs => closed name (Or.inl occurs)).le
      (right fun name occurs => closed name (Or.inr occurs)).le)
  | minus _ _ left right =>
    exact Nat.le_zero.1 (Polynomial.natDegree_sub_le_of_le
      (left fun name occurs => closed name (Or.inl occurs)).le
      (right fun name occurs => closed name (Or.inr occurs)).le)
  | times _ _ left right =>
    exact Nat.le_zero.1 (Polynomial.natDegree_mul_le_of_le
      (left fun name occurs => closed name (Or.inl occurs)).le
      (right fun name occurs => closed name (Or.inr occurs)).le)
  | @power _ _ _ _ k _ exponent ih =>
    rw [univariate_power exponent]
    exact Nat.le_zero.1 (Polynomial.natDegree_pow_le_of_le k
      (ih fun name occurs => closed name (Or.inl occurs)).le)

/-- A product with a constant. -/
theorem natDegree_scaled {attached : Bool} {l r : Expr} {d : Nat} (left : l.IsPolynomial)
    (right : r.IsPolynomial) (fixed : l.IsFixed ∨ r.IsFixed)
    (leftBound : l.univariate.natDegree ≤ d) (rightBound : r.univariate.natDegree ≤ d) :
    (Expr.binary .times attached l r).univariate.natDegree ≤ d := by
  have sum := Polynomial.natDegree_mul_le (p := l.univariate) (q := r.univariate)
  rcases fixed with fixed | fixed
  · have zero := left.natDegree_eq_zero fun _ => not_occurs_of_fixed fixed
    exact sum.trans (by omega)
  · have zero := right.natDegree_eq_zero fun _ => not_occurs_of_fixed fixed
    exact sum.trans (by omega)

theorem natDegree_le_one {e : Expr} (linear : e.IsLinear x) (polynomial : e.IsPolynomial) :
    e.univariate.natDegree ≤ 1 := by
  induction linear with
  | fixed fixed =>
    rw [polynomial.natDegree_eq_zero fun _ => not_occurs_of_fixed fixed]
    exact Nat.zero_le 1
  | atom atom =>
    rcases atom with rfl | ⟨_, _, _, -, none, -⟩
    · exact Polynomial.natDegree_X_le
    · exact none.elim
  | unary _ ih =>
    cases polynomial with
    | unary inner => exact natDegree_unary.trans_le (ih inner)
  | plus _ _ left right =>
    cases polynomial with
    | plus first second =>
      exact Polynomial.natDegree_add_le_of_degree_le (left first) (right second)
  | minus _ _ left right =>
    cases polynomial with
    | minus first second =>
      exact (Polynomial.natDegree_sub_le _ _).trans (max_le (left first) (right second))
  | scaled _ _ fixed left right =>
    cases polynomial with
    | times first second =>
      exact natDegree_scaled first second fixed (left first) (right second)

/-! ## The largest exponent -/

theorem exponentValue_of_nat {n : Decimal} {k : Nat} (value : n.toRat? = some (k : ℚ)) :
    exponentValue n = .ok k := by
  have whole : n.toRat? = some (((k : ℤ) : ℚ)) := by rw [value, Int.cast_natCast]
  cases n with
  | finite s c e =>
    change Except.ok ((Decimal.finite s c e).truncated?.getD 0) = _
    rw [Decimal.truncated?_of_int whole]
    rfl
  | infinity _ | nan _ _ => cases value

theorem largestExponent_binary {op : Operator} {attached : Bool} {l r : Expr} {least : ℤ}
    (noPower : op ≠ .power) : (Expr.binary op attached l r).largestExponent least =
      (do r.largestExponent (← l.largestExponent least)) := by
  cases op with
  | power => exact absurd rfl noPower
  | _ => rfl

/-- The exponent of a power counts, unless its base is a literal. -/
theorem largestExponent_power (attached written : Bool) (base : Expr) (least : ℤ) {n : Decimal}
    {k : Nat} (value : n.toRat? = some (k : ℚ)) :
    (∃ m w, base = .literal m w) ∨
      (Expr.binary .power attached base (.literal n written)).largestExponent least =
        base.largestExponent (max least k) := by
  have counted : (max least <$> exponentValue n >>= fun here =>
      base.largestExponent here >>= pure) = base.largestExponent (max least k) := by
    rw [exponentValue_of_nat value]
    exact bind_pure (base.largestExponent (max least k))
  cases base with
  | literal m w => exact Or.inl ⟨m, w, rfl⟩
  | _ => exact Or.inr counted

/-- The largest exponent of a polynomial is found. -/
theorem IsPolynomial.exists_largestExponent {e : Expr} (polynomial : e.IsPolynomial) (least : ℤ) :
    ∃ d, e.largestExponent least = .ok d ∧ least ≤ d := by
  have operands : ∀ {op : Operator} {attached : Bool} {l r : Expr}, op ≠ .power →
      (∀ least, ∃ d, l.largestExponent least = .ok d ∧ least ≤ d) →
      (∀ least, ∃ d, r.largestExponent least = .ok d ∧ least ≤ d) → ∀ least,
      ∃ d, (Expr.binary op attached l r).largestExponent least = .ok d ∧ least ≤ d := by
    intro op attached l r noPower left right least
    obtain ⟨d, first, above⟩ := left least
    obtain ⟨d', second, above'⟩ := right d
    refine ⟨d', ?_, above.trans above'⟩
    rw [largestExponent_binary noPower, first]
    exact second
  induction polynomial generalizing least with
  | literal _ _ | var _ _ => exact ⟨least, rfl, le_rfl⟩
  | unary _ ih => exact ih least
  | plus _ _ left right | minus _ _ left right | times _ _ left right =>
    exact operands (by decide) left right least
  | @power attached written base n k _ exponent ih =>
    rcases largestExponent_power attached written base least exponent with ⟨m, w, rfl⟩ | shape
    · exact ⟨least, rfl, le_rfl⟩
    · obtain ⟨d, found, above⟩ := ih (max least k)
      exact ⟨d, shape.trans found, (le_max_left _ _).trans above⟩

theorem exists_of_largestExponent_binary {op : Operator} {attached : Bool} {l r : Expr}
    {least d : ℤ} (noPower : op ≠ .power) (right : r.IsPolynomial)
    (done : (Expr.binary op attached l r).largestExponent least = .ok d) :
    ∃ d', l.largestExponent least = .ok d' ∧ r.largestExponent d' = .ok d ∧ d' ≤ d := by
  rw [largestExponent_binary noPower] at done
  obtain ⟨d', first, second⟩ := exists_of_ok_bind done
  obtain ⟨d'', second', above⟩ := right.exists_largestExponent d'
  obtain rfl := Except.ok.inj (second.symm.trans second')
  exact ⟨d', first, second, above⟩

/-- No power is multiplied by another, and the bases are linear. -/
theorem natDegree_le_largestExponent {e : Expr}
    (combination : e.IsCombination (IsAtom x (IsLinear x))) (polynomial : e.IsPolynomial)
    {least d : ℤ} (done : e.largestExponent least = .ok d) :
    e.univariate.natDegree ≤ (max d 1).toNat := by
  have mono : ∀ {d d' : ℤ}, d' ≤ d → (max d' 1).toNat ≤ (max d 1).toNat :=
    fun le => Int.toNat_le_toNat (max_le_max_right 1 le)
  induction combination generalizing least d with
  | fixed fixed =>
    rw [polynomial.natDegree_eq_zero fun _ => not_occurs_of_fixed fixed]
    exact Nat.zero_le _
  | atom atom =>
    rcases atom with rfl | ⟨attached, base, exponent, rfl, linear, -⟩
    · exact Polynomial.natDegree_X_le.trans (by omega)
    · cases polynomial with
      | @power _ written _ n k basePolynomial value =>
        rcases largestExponent_power attached written base least value with ⟨m, w, rfl⟩ | shape
        · rw [univariate_power value]
          have zero := basePolynomial.natDegree_eq_zero fun _ => not_occurs_of_fixed trivial
          exact (Polynomial.natDegree_pow_le_of_le k zero.le).trans (Nat.zero_le _)
        · obtain ⟨d', found, above⟩ := basePolynomial.exists_largestExponent (max least k)
          obtain rfl := Except.ok.inj ((shape.symm.trans done).symm.trans found)
          rw [univariate_power value]
          have power := Polynomial.natDegree_pow_le_of_le k (natDegree_le_one linear basePolynomial)
          exact power.trans (by omega)
  | unary _ ih =>
    cases polynomial with
    | unary inner => exact natDegree_unary.trans_le (ih inner done)
  | plus _ _ left right =>
    cases polynomial with
    | plus first second =>
      obtain ⟨d', leftDone, rightDone, le⟩ :=
        exists_of_largestExponent_binary (by decide) second done
      exact Polynomial.natDegree_add_le_of_degree_le ((left first leftDone).trans (mono le))
        (right second rightDone)
  | minus _ _ left right =>
    cases polynomial with
    | minus first second =>
      obtain ⟨d', leftDone, rightDone, le⟩ :=
        exists_of_largestExponent_binary (by decide) second done
      exact (Polynomial.natDegree_sub_le _ _).trans
        (max_le ((left first leftDone).trans (mono le)) (right second rightDone))
  | scaled _ _ fixed left right =>
    cases polynomial with
    | times first second =>
      obtain ⟨d', leftDone, rightDone, le⟩ :=
        exists_of_largestExponent_binary (by decide) second done
      exact natDegree_scaled first second fixed ((left first leftDone).trans (mono le))
        (right second rightDone)

/-- A tree without variables and powers has the degree zero, one with variables at least one. -/
theorem natDegree_le_of_degree {e : Expr} (combination : e.IsCombination (IsAtom x (IsLinear x)))
    (polynomial : e.IsPolynomial) : ∃ d, e.degree = .ok d ∧ (e.univariate.natDegree : ℤ) ≤ d := by
  obtain ⟨d, found, nonnegative⟩ := polynomial.exists_largestExponent 0
  have bound := natDegree_le_largestExponent combination polynomial found
  refine ⟨_, by rw [degree, found]; rfl, ?_⟩
  cases none : e.names.isEmpty with
  | true =>
    have zero : e.univariate.natDegree = 0 := polynomial.natDegree_eq_zero fun name occurs => by
      rw [List.isEmpty_iff] at none
      exact List.not_mem_nil (none ▸ mem_names.2 occurs)
    rw [zero]
    split
    · decide
    · exact nonnegative
  | false =>
    split
    next zero =>
      simp only [Bool.and_eq_true, decide_eq_true_eq] at zero
      omega
    next positive =>
      simp only [Bool.not_false, Bool.and_true, decide_eq_true_eq] at positive
      omega

/-! ## Simplifying -/

/-- Literals, the variable, signs, sums, products that are not too long to be multiplied out, and
powers of the variable. -/
structure IsRegular (ctx : Context) (x : String) (e : Expr) : Prop where
  formal : e.IsFormal ctx
  full : e.ExpandsFully ctx
  only : ∀ name, e.Occurs name → name = x

/-- A combination of regular trees and of powers of linear ones. -/
abbrev IsTame (ctx : Context) (x : String) : Expr → Prop :=
  IsCombination fun e => e.IsRegular ctx x ∨ e.IsPowerOf (IsLinear x)

theorem handsDown_occurs : HandsDown fun e => ∀ name, e.Occurs name → name = x where
  unary only := only
  binary only := ⟨fun name occurs => only name (Or.inl occurs),
    fun name occurs => only name (Or.inr occurs)⟩

/-- A product of powers of one variable is one power. -/
theorem single_of_pure {m : Monomial} (pure : m.Pure ctx)
    (only : m.Has fun e => ∀ name, e.Occurs name → name = x) : m.Single x (IsLinear x) where
  others := by simp [pure.others]
  single := by simp [pure.others]
  powers := by
    have once := pure.powers.once
    have same := only.1
    generalize m.powers = powers at once same
    rcases powers with _ | ⟨⟨name, n⟩, _ | ⟨⟨name', n'⟩, powers⟩⟩
    · exact Or.inl rfl
    · obtain rfl : name = x := same (name, n) List.mem_cons_self name rfl
      exact Or.inr ⟨⟨n, rfl, Or.inl (.atom (Or.inl rfl))⟩, by simp [pure.others]⟩
    · obtain rfl : name = x := same (name, n) List.mem_cons_self name rfl
      obtain rfl : name' = name := same (name', n') (.tail _ List.mem_cons_self) name' rfl
      exact absurd List.mem_cons_self (List.nodup_cons.1 once).1

/-- What a computation gives has the properties that its results have. -/
theorem holds_of_yields {α : Type} {act : Calc α} {a : α} {R : Context → Context → Prop}
    {P : α → Prop} (yields : Calc.Yields ctx act a)
    (ensures : Ensures (fun _ => True) R act P) : P a :=
  (ensures ctx trivial).2 a yields.result

theorem isExpanded_of_yields {e e' : Expr} (yields : Calc.Yields ctx e.expand e')
    (formal : e.IsFormal ctx) (full : e.ExpandsFully ctx)
    (compact : AllCompact (e.expandNumbers ctx)) : e'.IsExpanded ctx := by
  obtain ⟨e'', yields', expanded, -⟩ := yields_expand_polynomial formal full compact
  obtain rfl := Except.ok.inj (yields.result.symm.trans yields'.result)
  exact expanded

/-- The product of two expanded trees in one variable. -/
theorem yields_expandProduct_combination (attached : Bool) {l r : Expr}
    (left : l.IsExpanded ctx) (right : r.IsExpanded ctx)
    (onlyLeft : ∀ name, l.Occurs name → name = x) (onlyRight : ∀ name, r.Occurs name → name = x)
    (few : (l.terms .positive).length * (r.terms .positive).length ≤ expansionLimit)
    (compact : AllCompact (productNumbers ctx l r)) :
    ∃ e, Calc.Yields ctx (expandProduct attached l r) e ∧
      e.IsCombination (IsAtom x (IsLinear x)) := by
  obtain ⟨leftNumbers, rightNumbers, pairs, sums⟩ := compact_of_productNumbers few compact
  obtain ⟨ms, products, pures, -⟩ := givesSum_products (terms_polynomial left .positive).1
    leftNumbers (terms_polynomial right .positive).1 rightNumbers pairs
  obtain ⟨e, summed, -⟩ := yields_ofMonomials pures (sums products.result)
  have read : ∀ {e : Expr}, (∀ name, e.Occurs name → name = x) → ∀ t ∈ e.terms .positive,
      Ensures (fun _ => True) Advances t.2.monomial
        (Monomial.Has fun e => ∀ name, e.Occurs name → name = x) := fun only t member =>
    ensures_monomial handsDown_occurs _ (forall_terms handsDown_occurs only t member)
  have only := holds_of_yields products (ensures_products Monomial.Has.mul
    (Monomial.ignoresCoefficient_has _) (read onlyLeft) (read onlyRight))
  rw [expandProduct_of_few attached few]
  exact ⟨e, products.bind summed, holds_of_yields (R := Advances) summed
    (ensures_ofMonomials Monomial.sums_single
      fun m member => single_of_pure (pures m member) (only m member))⟩

/-- A regular tree is multiplied out to a sum of powers. -/
theorem yields_expand_regular {e : Expr} (formal : e.IsFormal ctx)
    (only : ∀ name, e.Occurs name → name = x) (full : e.ExpandsFully ctx)
    (compact : AllCompact (e.expandNumbers ctx)) :
    ∃ e', Calc.Yields ctx e.expand e' ∧ e'.IsCombination (IsAtom x (IsLinear x)) := by
  induction formal with
  | literal _ => exact ⟨_, Calc.yields_pure _, .fixed trivial⟩
  | @var name _ =>
    obtain rfl := only name rfl
    exact ⟨_, Calc.yields_pure _, .atom (Or.inl rfl)⟩
  | @unary sign _ _ ih =>
    obtain ⟨e', yields, combination⟩ := ih only full compact
    refine ⟨.unary sign e', ?_, combination.unary⟩
    rw [expand]
    exact yields.bind (Calc.yields_pure _)
  | plus _ _ left right =>
    rw [allCompact_expand_binary (by decide)] at compact
    obtain ⟨l', leftYields, first⟩ :=
      left (fun name occurs => only name (Or.inl occurs)) full.1 compact.1
    obtain ⟨r', rightYields, second⟩ :=
      right (fun name occurs => only name (Or.inr occurs)) full.2 compact.2
    exact ⟨_, yields_expand_binary (by decide) leftYields rightYields, first.plus second⟩
  | minus _ _ left right =>
    rw [allCompact_expand_binary (by decide)] at compact
    obtain ⟨l', leftYields, first⟩ :=
      left (fun name occurs => only name (Or.inl occurs)) full.1 compact.1
    obtain ⟨r', rightYields, second⟩ :=
      right (fun name occurs => only name (Or.inr occurs)) full.2 compact.2
    exact ⟨_, yields_expand_binary (by decide) leftYields rightYields, first.minus second⟩
  | @times attached l r leftFormal rightFormal left right =>
    obtain ⟨leftFull, rightFull, few⟩ := full
    rw [expandNumbers, allCompact_union, allCompact_union] at compact
    obtain ⟨⟨leftNumbers, rightNumbers⟩, products⟩ := compact
    obtain ⟨l', leftYields, first⟩ :=
      left (fun name occurs => only name (Or.inl occurs)) leftFull leftNumbers
    obtain ⟨r', rightYields, second⟩ :=
      right (fun name occurs => only name (Or.inr occurs)) rightFull rightNumbers
    -- the factors are expanded, so each of their terms is a power of the variable
    have leftExpanded := isExpanded_of_yields leftYields leftFormal leftFull leftNumbers
    have rightExpanded := isExpanded_of_yields rightYields rightFormal rightFull rightNumbers
    obtain ⟨e', yields, combination⟩ := yields_expandProduct_combination attached leftExpanded
      rightExpanded (fun _ => eq_of_occurs_combination first)
      (fun _ => eq_of_occurs_combination second) (few l' r' leftYields.result rightYields.result)
      fun q member => products q ⟨l', r', leftYields.result, rightYields.result, member⟩
    refine ⟨e', ?_, combination⟩
    rw [expand]
    exact leftYields.bind (rightYields.bind yields)
  | @power _ _ name _ _ _ _ =>
    obtain rfl := only name (Or.inl rfl)
    exact ⟨_, yields_expand_binary (by decide) (Calc.yields_pure _) (Calc.yields_pure _),
      .atom (Or.inr ⟨_, _, _, rfl, .atom (Or.inl rfl), trivial⟩)⟩

/-- What yields a result ensures what holds of it. -/
theorem ensures_of_yields {α : Type} {act : Calc α} {a : α} {R : Context → Context → Prop}
    {P : α → Prop} (yields : Calc.Yields ctx act a) (keeps : Keeps R act) (holds : P a) :
    Ensures ctx.SameNames R act P := by
  intro before same
  obtain ⟨after, -, done⟩ := yields same
  refine ⟨keeps.rel before, fun b result => ?_⟩
  rw [done] at result
  obtain rfl := Except.ok.inj result
  exact holds

instance : Stable ctx.SameNames Advances :=
  ⟨fun advances same => same.trans advances.toSameNames⟩

theorem ensures_expand_power {e : Expr} (power : e.IsPowerOf (IsLinear x)) :
    Ensures ctx.SameNames Advances e.expand (IsCombination (IsAtom x (IsLinear x))) := by
  obtain ⟨attached, base, exponent, rfl, linear, fixed⟩ := power
  rw [expand]
  · exact (ensures_expand_linear linear).bind fun base' here =>
      (ensures_expand_fixed fixed).bind fun exponent' here' =>
      ensures_pure (.atom (Or.inr ⟨attached, base', exponent', rfl, here, here'⟩))
  · decide

/-- A tame tree is expanded to a sum of powers of linear trees. -/
theorem ensures_expand_tame {e : Expr} (tame : e.IsTame ctx x)
    (compact : AllCompact (e.expandNumbers ctx)) :
    Ensures ctx.SameNames Advances e.expand (IsCombination (IsAtom x (IsLinear x))) := by
  suffices known : e.IsCombination fun e =>
      Ensures ctx.SameNames Advances e.expand (IsCombination (IsAtom x (IsLinear x))) from
    ensures_expand_combination eq_of_isLinear_var (fun _ atom => atom) known
  induction tame with
  | fixed fixed => exact .fixed fixed
  | @atom e atom =>
    rcases atom with ⟨formal, full, only⟩ | power
    · obtain ⟨e', yields, combination⟩ := yields_expand_regular formal only full compact
      exact .atom (ensures_of_yields yields
        (ensures_expand compositional_nesting (d := e.nesting) e le_rfl).keeps combination)
    · exact .atom (ensures_expand_power power)
  | unary _ ih => exact (ih compact).unary
  | plus _ _ left right =>
    rw [allCompact_expand_binary (by decide)] at compact
    exact (left compact.1).plus (right compact.2)
  | minus _ _ left right =>
    rw [allCompact_expand_binary (by decide)] at compact
    exact (left compact.1).minus (right compact.2)
  | scaled _ _ fixed left right =>
    rw [expandNumbers, allCompact_union, allCompact_union] at compact
    exact (left compact.1.1).scaled (right compact.1.2) fixed

theorem eq_of_occurs_tame {e : Expr} {name : String} (tame : e.IsTame ctx x)
    (occurs : e.Occurs name) : name = x := by
  refine tame.eq_of_occurs (fun a atom inAtom => ?_) occurs
  rcases atom with regular | power
  · exact regular.only name inAtom
  · exact eq_of_occurs_powerOf power (fun _ => eq_of_occurs_linear) inAtom

theorem ensures_simplify_tame {e : Expr} (tame : e.IsTame ctx x)
    (compact : AllCompact (e.expandNumbers ctx)) :
    Ensures ctx.SameNames Advances e.simplify (IsCombination (IsAtom x (IsLinear x))) :=
  (ensures_expand_tame tame compact).bind fun _ here =>
    (ensures_fold_combination eq_of_isLinear_var (fun _ => ensures_fold_linear) here).fold

/-- The tree may be any number at the variable, so simplifying keeps the polynomial. -/
theorem univariate_simplify {e : Expr} (unbound : ctx.isBound x = false)
    (only : ∀ name, e.Occurs name → name = x) (polynomial : e.IsPolynomial)
    (compact : AllCompact (e.simplifyNumbers ctx)) :
    ∃ e', (e.simplify ctx).1 = .ok e' ∧ e'.IsPolynomial ∧
      ((∀ name, e'.Occurs name → name = x) → e'.univariate = e.univariate) := by
  have free : ctx.lookupVariable x = none := by
    simpa [Context.isBound] using unbound
  have numbers : ∀ name, e.Occurs name → ctx.IsNumber name := by
    intro name occurs t found
    rw [only name occurs, free] at found
    cases found
  have agrees : ∀ q, ctx.Agrees (Function.update ctx.valuation x q) := by
    intro q name n found
    have other : name ≠ x := by
      rintro rfl
      cases free.symm.trans found
    rw [Function.update_of_ne other]
    exact ctx.agrees_valuation name n found
  obtain ⟨e', yields, sound, -⟩ := gives_simplify polynomial numbers compact ctx.agrees_valuation
  refine ⟨e', yields.result, sound.isPolynomial, fun only' => Polynomial.funext fun q => ?_⟩
  obtain ⟨e'', yields', -, value⟩ := gives_simplify polynomial numbers compact (agrees q)
  obtain rfl := Except.ok.inj (yields.result.symm.trans yields'.result)
  have assigned : ∀ name, name = x → Function.update ctx.valuation x q name = q := by
    rintro name rfl
    exact Function.update_self ..
  rw [sound.isPolynomial.eval_univariate fun name occurs => assigned name (only' name occurs),
    polynomial.eval_univariate fun name occurs => assigned name (only name occurs), value]

/-- The degree of a simplified tame tree is not underestimated, nor is the number of its roots. -/
theorem natDegree_le_degree {e : Expr} (unbound : ctx.isBound x = false) (tame : e.IsTame ctx x)
    (polynomial : e.IsPolynomial) (compact : AllCompact (e.simplifyNumbers ctx)) :
    ∃ e' d, (e.simplify ctx).1 = .ok e' ∧ e'.degree = .ok d ∧
      (e.univariate.natDegree : ℤ) ≤ d ∧ ((e.univariate.rootSet ℝ).ncard : ℤ) ≤ d := by
  obtain ⟨e', done, polynomial', same⟩ :=
    univariate_simplify unbound (fun _ => eq_of_occurs_tame tame) polynomial compact
  rw [simplifyNumbers, allCompact_union, allCompact_union] at compact
  have combination : e'.IsCombination (IsAtom x (IsLinear x)) :=
    (ensures_simplify_tame tame compact.1.2 ctx (SameNames.refl ctx)).2 e' done
  obtain ⟨d, degree, bound⟩ := natDegree_le_of_degree combination polynomial'
  rw [same fun _ => eq_of_occurs_combination combination] at bound
  refine ⟨e', d, done, degree, bound, le_trans ?_ bound⟩
  exact Int.ofNat_le.2 (Polynomial.ncard_rootSet_le e.univariate ℝ)

/-- `x*x` -/
def letterTimesLetter : Expr :=
  .binary .times false (.var "x") (.var "x")

theorem isPolynomial_x : (Expr.var "x").IsPolynomial :=
  .var (c := 'x') rfl (isNameChar_of_isAlpha rfl)

/-- The product of two equal letters has the degree two. -/
theorem degree_letterTimesLetter : ∃ e' d, (letterTimesLetter.simplify Context.initial).1 = .ok e' ∧
    e'.degree = .ok d ∧ (letterTimesLetter.univariate.natDegree : ℤ) ≤ d ∧
      ((letterTimesLetter.univariate.rootSet ℝ).ncard : ℤ) ≤ d := by
  have expanded : (letterTimesLetter.expand Context.initial).1 = .ok letterSquared := by
    with_unfolding_all rfl
  refine natDegree_le_degree (x := "x") unbound_x (.atom (Or.inl ⟨?_, ?_, ?_⟩))
    (.times isPolynomial_x isPolynomial_x) ?_
  · exact .times (.var unbound_x) (.var unbound_x)
  · refine ⟨trivial, trivial, fun l' r' left right => ?_⟩
    obtain rfl := Except.ok.inj left
    obtain rfl := Except.ok.inj right
    exact (by decide : 1 * 1 ≤ expansionLimit)
  · rintro name (rfl | rfl) <;> rfl
  · rintro q (((none | none) | arises) | ⟨e', done, inFold⟩)
    · cases none
    · cases none
    · rcases arises with (none | none) | ⟨l', r', left, right, inProduct⟩
      · cases none
      · cases none
      · obtain rfl := Except.ok.inj left
        obtain rfl := Except.ok.inj right
        exact compact_productNumbers_x q inProduct
    · obtain rfl := Except.ok.inj (expanded.symm.trans done)
      rcases inFold with none | none <;> cases none

/-! ## Where powers are multiplied -/

/-- `(x-n)^1` -/
def shiftedPower (n : Decimal) : Expr :=
  .binary .power false (.binary .minus false (.var "x") (.number n)) (.number 1)

/-- `(x-1)^1*(x-2)^1` -/
def factored : Expr :=
  .binary .times false (shiftedPower 1) (shiftedPower 2)

theorem isPolynomial_shiftedPower {n : Decimal} {k : Nat} (value : n.toRat? = some (k : ℚ)) :
    (shiftedPower n).IsPolynomial :=
  .power (.minus isPolynomial_x (.literal value (Nat.cast_nonneg k)))
    (Decimal.toRat?_ofNat 1 : (1 : Decimal).toRat? = some ((1 : Nat) : ℚ))

theorem univariate_shiftedPower {n : Decimal} {k : Nat} (value : n.toRat? = some (k : ℚ)) :
    (shiftedPower n).univariate = X - C (k : ℚ) := by
  have one : (1 : Decimal).toRat? = some ((1 : Nat) : ℚ) := Decimal.toRat?_ofNat 1
  rw [shiftedPower, number, number, univariate_power one, pow_one]
  change X - (Expr.number n).univariate = _
  rw [number, univariate_literal value]

theorem univariate_factored : factored.univariate = (X - C 1) * (X - C 2) := by
  change (shiftedPower 1).univariate * (shiftedPower 2).univariate = _
  rw [univariate_shiftedPower (Decimal.toRat?_ofNat 1),
    univariate_shiftedPower (Decimal.toRat?_ofNat 2), Nat.cast_one, Nat.cast_ofNat]

/-- The degree of a product of two powers of sums is that of one of them. -/
theorem degree_of_factored : factored.IsPolynomial ∧ Context.initial.isBound "x" = false ∧
    factored.univariate.natDegree = 2 ∧ factored.univariate.eval 1 = 0 ∧
    factored.univariate.eval 2 = 0 ∧
    ∃ e', (factored.simplify Context.initial).1 = .ok e' ∧ e'.degree = .ok 1 := by
  refine ⟨.times (isPolynomial_shiftedPower (Decimal.toRat?_ofNat 1))
    (isPolynomial_shiftedPower (Decimal.toRat?_ofNat 2)), unbound_x, ?_, ?_, ?_,
    exists_of_ok_bind (by decide +kernel)⟩
  · rw [univariate_factored, Polynomial.natDegree_mul (Polynomial.X_sub_C_ne_zero 1)
      (Polynomial.X_sub_C_ne_zero 2), Polynomial.natDegree_X_sub_C, Polynomial.natDegree_X_sub_C]
  · simp [univariate_factored]
  · simp [univariate_factored]

end Expr

end Reckon
