import Reckon.Calculus.Build
import Reckon.Proofs.Simplify.Expanded

/-!
# Simplifying decides identities

Where every product is multiplied out, an expanded polynomial is a sum of products of powers, and
adding up like monomials leaves nothing but zero of the zero polynomial. A polynomial over variables
that are not bound is therefore simplified to the literal zero if and only if it is zero, as long as
no number that arises is rounded.

Results: `yields_expand_polynomial`, `folds_expanded`, `simplify_isLiteral_zero_iff`; that rounding
can get between is `simplify_zero_missed`.
-/

namespace Reckon

namespace Expr

variable {ctx : Context}

/-- Literals, variables that are not bound, signs, sums, products, and powers of variables with a
natural number as exponent. -/
inductive IsFormal (ctx : Context) : Expr → Prop
  | literal {n : Decimal} {written : Bool} {q : ℚ} :
      n.toRat? = some q → IsFormal ctx (.literal n written)
  | var {name : String} : ctx.isBound name = false → IsFormal ctx (.var name)
  | unary {sign : Sign} {e : Expr} : IsFormal ctx e → IsFormal ctx (.unary sign e)
  | plus {attached : Bool} {l r : Expr} :
      IsFormal ctx l → IsFormal ctx r → IsFormal ctx (.binary .plus attached l r)
  | minus {attached : Bool} {l r : Expr} :
      IsFormal ctx l → IsFormal ctx r → IsFormal ctx (.binary .minus attached l r)
  | times {attached : Bool} {l r : Expr} :
      IsFormal ctx l → IsFormal ctx r → IsFormal ctx (.binary .times attached l r)
  | power {attached written : Bool} {name : String} {n : Decimal} {k : Nat} :
      ctx.isBound name = false → n.toRat? = some (k : ℚ) →
      IsFormal ctx (.binary .power attached (.var name) (.literal n written))

/-- No product has too many pairs of terms to be multiplied out. -/
def ExpandsFully (ctx : Context) : Expr → Prop
  | .binary .times _ l r => l.ExpandsFully ctx ∧ r.ExpandsFully ctx ∧
      ∀ l' r', (l.expand ctx).1 = .ok l' → (r.expand ctx).1 = .ok r' →
        (l'.terms .positive).length * (r'.terms .positive).length ≤ expansionLimit
  | .binary _ _ l r => l.ExpandsFully ctx ∧ r.ExpandsFully ctx
  | .unary _ e => e.ExpandsFully ctx
  | _ => True

/-! ## Expanding -/

/-- A tree that is the literal zero denotes zero. -/
theorem IsExpanded.eq_zero {e : Expr} (expanded : e.IsExpanded ctx)
    (isZero : e.isLiteral 0 = true) : e.polynomial = 0 := by
  have literal : ∀ {n : Decimal} {written : Bool} {q : ℚ}, n.toRat? = some q →
      (Expr.literal n written).isLiteral 0 = true → (Expr.literal n written).polynomial = 0 := by
    intro n written q value same
    rw [polynomial_literal value, (Decimal.same_iff value Decimal.toRat?_zero).1 same, map_zero]
  cases expanded with
  | summand summand =>
    cases summand with
    | zero value => exact literal value isZero
    | term term =>
      cases term with
      | literal value _ => exact literal value isZero
      | _ => cases isZero
  | _ => cases isZero

theorem IsSummand.isLiteral_zero_iff {e : Expr} (summand : e.IsSummand ctx) :
    e.isLiteral 0 = true ↔ e.polynomial = 0 := by
  refine ⟨(IsExpanded.summand summand).eq_zero, fun zero => ?_⟩
  cases summand with
  | zero value => exact (Decimal.same_iff value Decimal.toRat?_zero).2 rfl
  | term term => exact absurd zero term.polynomial_ne_zero

/-- The sum of monomials as a tree, which is the literal zero if it is zero. -/
theorem yields_ofMonomials {ms : List Monomial} (pures : ∀ m ∈ ms, m.Pure ctx)
    (compact : AllCompact (Monomial.collectNumbers [] ms)) :
    ∃ e, Calc.Yields ctx (ofMonomials ms) e ∧ e.IsExpanded ctx ∧
      e.polynomial = Monomial.sumOf ms ∧
      (e.isLiteral 0 = true ↔ Monomial.sumOf ms = 0) := by
  obtain ⟨terms, collected, unlike, nonzeros, value⟩ := Monomial.collect_polynomial pures compact
  obtain ⟨e, summed, expanded, value'⟩ := Monomial.sum_polynomial unlike.pure nonzeros
  refine ⟨e, Calc.yields_decimal ?_, expanded, by rw [value', value], fun isZero => ?_,
    fun zero => ?_⟩
  · rw [collected]
    exact summed
  · rw [← value, ← value']
    exact expanded.eq_zero isZero
  · rw [← value] at zero
    rw [Monomial.eq_nil_of_sumOf_eq_zero unlike nonzeros zero] at summed
    obtain rfl := Except.ok.inj summed
    rfl

/-- The computation gives an expanded polynomial. -/
def GivesExpanded (ctx : Context) (act : Calc Expr) (p : MvPolynomial String ℚ) : Prop :=
  ∃ e, Calc.Yields ctx act e ∧ e.IsExpanded ctx ∧ e.polynomial = p

theorem givesExpanded_expandProduct (attached : Bool) {l r : Expr} (left : l.IsExpanded ctx)
    (right : r.IsExpanded ctx)
    (few : (l.terms .positive).length * (r.terms .positive).length ≤ expansionLimit)
    (compact : AllCompact (productNumbers ctx l r)) :
    GivesExpanded ctx (expandProduct attached l r) (l.polynomial * r.polynomial) := by
  obtain ⟨leftNumbers, rightNumbers, pairs, sums⟩ := compact_of_productNumbers few compact
  obtain ⟨leftTerms, leftValue⟩ := terms_polynomial left .positive
  obtain ⟨rightTerms, rightValue⟩ := terms_polynomial right .positive
  obtain ⟨ms, products, pures, value⟩ :=
    givesSum_products leftTerms leftNumbers rightTerms rightNumbers pairs
  obtain ⟨e, summed, expanded, value', -⟩ := yields_ofMonomials pures (sums products.result)
  rw [expandProduct_of_few attached few]
  refine ⟨e, products.bind summed, expanded, ?_⟩
  rw [value', value, leftValue, rightValue]
  rfl

/-- Expanding keeps what a polynomial denotes. -/
theorem yields_expand_polynomial {e : Expr} (formal : e.IsFormal ctx) (full : e.ExpandsFully ctx)
    (compact : AllCompact (e.expandNumbers ctx)) :
    GivesExpanded ctx e.expand e.polynomial := by
  induction formal with
  | literal value => exact ⟨_, Calc.yields_pure _, .summand (isSummand_literal value), rfl⟩
  | var unbound => exact ⟨_, Calc.yields_pure _, .summand (.term (.var unbound)), rfl⟩
  | @unary sign e _ ih =>
    obtain ⟨e', yields, inner, value⟩ := ih full compact
    refine ⟨.unary sign e', ?_, inner.unary, congrArg (signed sign) value⟩
    rw [expand]
    exact yields.bind (Calc.yields_pure _)
  | @plus attached l r _ _ left right =>
    rw [allCompact_expand_binary (by decide)] at compact
    obtain ⟨l', leftYields, leftExpanded, leftValue⟩ := left full.1 compact.1
    obtain ⟨r', rightYields, rightExpanded, rightValue⟩ := right full.2 compact.2
    exact ⟨_, yields_expand_binary (by decide) leftYields rightYields,
      leftExpanded.plus rightExpanded, congrArg₂ (· + ·) leftValue rightValue⟩
  | @minus attached l r _ _ left right =>
    rw [allCompact_expand_binary (by decide)] at compact
    obtain ⟨l', leftYields, leftExpanded, leftValue⟩ := left full.1 compact.1
    obtain ⟨r', rightYields, rightExpanded, rightValue⟩ := right full.2 compact.2
    exact ⟨_, yields_expand_binary (by decide) leftYields rightYields,
      leftExpanded.minus rightExpanded, congrArg₂ (· - ·) leftValue rightValue⟩
  | @times attached l r _ _ left right =>
    obtain ⟨leftFull, rightFull, few⟩ := full
    rw [expandNumbers, allCompact_union, allCompact_union] at compact
    obtain ⟨⟨leftNumbers, rightNumbers⟩, products⟩ := compact
    obtain ⟨l', leftYields, leftExpanded, leftValue⟩ := left leftFull leftNumbers
    obtain ⟨r', rightYields, rightExpanded, rightValue⟩ := right rightFull rightNumbers
    obtain ⟨e', yields, inner, value⟩ := givesExpanded_expandProduct attached leftExpanded
      rightExpanded (few l' r' leftYields.result rightYields.result)
      fun q member => products q ⟨l', r', leftYields.result, rightYields.result, member⟩
    refine ⟨e', ?_, inner, by rw [value, leftValue, rightValue]; rfl⟩
    rw [expand]
    exact leftYields.bind (rightYields.bind yields)
  | power unbound exponent =>
    exact ⟨_, yields_expand_binary (by decide) (Calc.yields_pure _) (Calc.yields_pure _),
      .summand (.term (.power unbound exponent)), rfl⟩

/-! ## Folding -/

/-- A term is left as it is. -/
theorem IsTerm.yields_fold {e : Expr} (term : e.IsTerm ctx) : Calc.Yields ctx e.fold e := by
  induction term with
  | literal _ _ => exact Calc.yields_pure _
  | var _ => exact Calc.yields_pure _
  | power _ _ =>
    have base : ∀ name, Calc.Yields ctx (Expr.var name).fold (.var name) :=
      fun name => Calc.yields_pure _
    have exponent : ∀ n written,
        Calc.Yields ctx (Expr.literal n written).fold (.literal n written) :=
      fun n written => Calc.yields_pure _
    rw [fold]
    · exact (base _).bind ((exponent _ _).bind (Calc.yields_pure _))
    · decide
    · decide
  | times _ _ left right =>
    rw [fold]
    · exact left.bind (right.bind (Calc.yields_pure _))
    · decide
    · decide

/-- What both passes over an expanded polynomial give. -/
structure FoldsExpanded (ctx : Context) (e : Expr) : Prop where
  fold : AllCompact (e.foldNumbers ctx) →
    ∃ e', Calc.Yields ctx e.fold e' ∧ (e'.isLiteral 0 = true ↔ e.polynomial = 0)
  terms : ∀ sign, AllCompact (e.foldTermNumbers ctx) →
    GivesSum ctx (e.foldTerms sign) (signed sign e.polynomial)

theorem IsSummand.yields_fold {e : Expr} (summand : e.IsSummand ctx) :
    Calc.Yields ctx e.fold e := by
  cases summand with
  | zero _ => exact Calc.yields_pure _
  | term term => exact term.yields_fold

/-- A product of powers is one term. -/
theorem IsTerm.givesSum_foldTerms_binary {op : Operator} {attached : Bool} {l r : Expr}
    (term : (Expr.binary op attached l r).IsTerm ctx) (sign : Sign)
    (left : Calc.Yields ctx l.fold l) (right : Calc.Yields ctx r.fold r)
    (compact : AllCompact ((Expr.binary op attached l r).foldTermNumbers ctx)) :
    GivesSum ctx ((Expr.binary op attached l r).foldTerms sign)
      (signed sign (Expr.binary op attached l r).polynomial) := by
  have noSum : op ≠ .plus ∧ op ≠ .minus := by cases term <;> decide
  rw [foldTermNumbers, allCompact_union] at compact
  · obtain ⟨ms, yields, pures, value⟩ := givesSum_signedTerm (.term term) sign
      fun q member => compact.2 q ⟨l, r, left.result, right.result, member⟩
    refine ⟨ms, ?_, pures, value⟩
    rw [foldTerms]
    · exact left.bind (right.bind yields)
    · exact noSum.1
    · exact noSum.2
  · exact noSum.1
  · exact noSum.2

theorem IsSummand.givesSum_foldTerms {e : Expr} (summand : e.IsSummand ctx) (sign : Sign)
    (compact : AllCompact (e.foldTermNumbers ctx)) :
    GivesSum ctx (e.foldTerms sign) (signed sign e.polynomial) := by
  cases summand with
  | zero value => exact givesSum_signedTerm (.zero value) sign compact
  | term term =>
    cases term with
    | literal value nonzero =>
      exact givesSum_signedTerm (.term (.literal value nonzero)) sign compact
    | var unbound => exact givesSum_signedTerm (.term (.var unbound)) sign compact
    | power unbound exponent =>
      exact IsTerm.givesSum_foldTerms_binary (.power unbound exponent) sign
        (IsTerm.var unbound).yields_fold (isSummand_literal exponent).yields_fold compact
    | times left right =>
      exact (IsTerm.times left right).givesSum_foldTerms_binary sign left.yields_fold
        right.yields_fold compact

/-- Sums and differences, `right` being the sign of the right operand. -/
theorem folds_binary_expanded {l r : Expr} {act : Calc Expr} {right : Sign}
    {p : MvPolynomial String ℚ} (first : l.FoldsExpanded ctx) (second : r.FoldsExpanded ctx)
    (shape : act = do ofMonomials ((← l.foldTerms .positive) ++ (← r.foldTerms right)))
    (sum : p = l.polynomial + signed right r.polynomial)
    (compact : AllCompact (l.foldTermNumbers ctx ∪ r.foldTermNumbers ctx ∪
      {q | ∃ ms ms', (l.foldTerms .positive ctx).1 = .ok ms ∧
        (r.foldTerms right ctx).1 = .ok ms' ∧ q ∈ Monomial.collectNumbers [] (ms ++ ms')})) :
    ∃ e', Calc.Yields ctx act e' ∧ (e'.isLiteral 0 = true ↔ p = 0) := by
  rw [allCompact_union, allCompact_union] at compact
  obtain ⟨⟨leftNumbers, rightNumbers⟩, sums⟩ := compact
  obtain ⟨ms, yields, pures, value⟩ := first.terms .positive leftNumbers
  obtain ⟨ms', yields', pures', value'⟩ := second.terms right rightNumbers
  have all : ∀ m ∈ ms ++ ms', m.Pure ctx :=
    fun m member => (List.mem_append.1 member).elim (pures m) (pures' m)
  obtain ⟨e, summed, -, -, isZero⟩ := yields_ofMonomials all
    fun q member => sums q ⟨ms, ms', yields.result, yields'.result, member⟩
  refine ⟨e, ?_, ?_⟩
  · rw [shape]
    exact yields.bind (yields'.bind summed)
  · rw [isZero, Monomial.sumOf_append, value, value', sum]
    rfl

/-- Folding an expanded polynomial gives the literal zero if and only if it is zero. -/
theorem folds_expanded {e : Expr} (expanded : e.IsExpanded ctx) : e.FoldsExpanded ctx := by
  induction expanded with
  | summand summand =>
    exact ⟨fun _ => ⟨_, summand.yields_fold, summand.isLiteral_zero_iff⟩,
      fun sign compact => summand.givesSum_foldTerms sign compact⟩
  | @unary sign e _ ih =>
    constructor
    · intro compact
      rw [foldNumbers, allCompact_union] at compact
      obtain ⟨ms, yields, pures, value⟩ := ih.terms sign compact.1
      obtain ⟨e', summed, -, -, isZero⟩ := yields_ofMonomials pures
        fun q member => compact.2 q ⟨ms, yields.result, member⟩
      refine ⟨e', ?_, by rw [isZero, value]; rfl⟩
      rw [fold]
      exact yields.bind summed
    · intro outer compact
      obtain ⟨ms, yields, pures, value⟩ := ih.terms (sign.times outer) compact
      refine ⟨ms, ?_, pures, ?_⟩
      · rw [foldTerms]
        exact yields
      · rw [value, signed_times]
        cases sign <;> cases outer <;> rfl
  | @plus attached l r _ _ left right =>
    constructor
    · exact folds_binary_expanded left right (by rw [fold]) rfl
    · intro sign compact
      rw [foldTermNumbers, allCompact_union] at compact
      rw [foldTerms, show (Expr.binary .plus attached l r).polynomial =
        l.polynomial + r.polynomial from rfl, signed_add]
      exact givesSum_append (left.terms sign compact.1) (right.terms sign compact.2)
  | @minus attached l r _ _ left right =>
    constructor
    · exact folds_binary_expanded left right (by rw [fold]) (sub_eq_add_neg _ _)
    · intro sign compact
      rw [foldTermNumbers, allCompact_union] at compact
      rw [foldTerms, show (Expr.binary .minus attached l r).polynomial =
        l.polynomial - r.polynomial from rfl, sub_eq_add_neg, signed_add, ← signed_opposite]
      exact givesSum_append (left.terms sign compact.1) (right.terms sign.opposite compact.2)

/-- A polynomial whose products are all multiplied out simplifies to the literal zero if and only if
it is zero, and a difference if and only if its operands are equal. -/
theorem simplify_isLiteral_zero_iff {e : Expr} (formal : e.IsFormal ctx)
    (full : e.ExpandsFully ctx) (compact : AllCompact (e.simplifyNumbers ctx)) :
    ∃ e', (e.simplify ctx).1 = .ok e' ∧ (e'.isLiteral 0 = true ↔ e.polynomial = 0) ∧
      ∀ attached p q, e = .binary .minus attached p q →
        (e'.isLiteral 0 = true ↔ p.polynomial = q.polynomial) := by
  rw [simplifyNumbers, allCompact_union, allCompact_union] at compact
  obtain ⟨⟨-, expanding⟩, folding⟩ := compact
  obtain ⟨middle, expanded, shape, value⟩ := yields_expand_polynomial formal full expanding
  obtain ⟨e', folded, isZero⟩ := (folds_expanded shape).fold
    fun q member => folding q ⟨middle, expanded.result, member⟩
  rw [value] at isZero
  refine ⟨e', (expanded.bind folded).result, isZero, ?_⟩
  rintro attached p q rfl
  rw [isZero]
  exact sub_eq_zero

/-- `x^2` -/
def letterSquared : Expr :=
  .binary .power false (.var "x") (.number 2)

/-- `x*x-x^2` -/
def squares : Expr :=
  .binary .minus false (.binary .times false (.var "x") (.var "x")) letterSquared

theorem unbound_x : Context.initial.isBound "x" = false := by
  with_unfolding_all rfl

theorem monomial_x : ((Expr.var "x").monomial Context.initial).1 = .ok (.ofPower "x" 1) := by
  with_unfolding_all rfl

theorem monomial_letterSquared :
    (letterSquared.monomial Context.initial).1 = .ok (.ofPower "x" 2) := by
  rw [letterSquared, monomial.eq_def]
  with_unfolding_all rfl

theorem foldTerms_letterSquared {sign : Sign} {m : Monomial}
    (signed : (Monomial.ofPower "x" 2).withSign sign = .ok m) :
    (letterSquared.foldTerms sign Context.initial).1 = .ok [m] := by
  have read : letterSquared.monomial Context.initial = (.ok (.ofPower "x" 2), _) :=
    Prod.ext monomial_letterSquared rfl
  change (signedTerm sign letterSquared Context.initial).1 = _
  rw [signedTerm, Calc.bind_ok read, Calc.bind_ok (Calc.decimal_ok signed _)]
  rfl

theorem compact_productNumbers_x :
    AllCompact (productNumbers Context.initial (.var "x") (.var "x")) := by
  have multiplied : (products [(.positive, .var "x")] [(.positive, .var "x")]
      Context.initial).1 = .ok [.ofPower "x" 2] := by
    with_unfolding_all rfl
  refine compact_productNumbers_var monomial_x multiplied (fun q none => ?_)
    (compact_mulNumbers_var "x")
  simp [monomialNumbers, not_isClosed_var unbound_x] at none

/-- No number is computed for a power of a letter. -/
theorem foldTermNumbers_letterSquared :
    letterSquared.foldTermNumbers Context.initial = ∅ := by
  have noNumbers : letterSquared.monomialNumbers Context.initial = ∅ := by
    have isOpen : letterSquared.isClosed Context.initial = false := not_isClosed_power unbound_x
    rw [letterSquared, number] at isOpen
    simp [letterSquared, monomialNumbers, number, isOpen]
  refine Set.eq_empty_iff_forall_notMem.2 fun q member => ?_
  rcases member with (none | none) | ⟨l', r', left, right, inPower⟩
  · cases none
  · cases none
  · obtain rfl := Except.ok.inj left
    obtain rfl := Except.ok.inj right
    change q ∈ letterSquared.monomialNumbers Context.initial at inPower
    rw [noNumbers] at inPower
    cases inPower

theorem compact_squares : AllCompact (squares.simplifyNumbers Context.initial) := by
  have one : (1 : Decimal).toRat = 1 := Decimal.toRat_of_toRat? Decimal.toRat?_one
  have opposite : (Decimal.finite true 1 0).toRat = -1 := by
    simp [Decimal.toRat, Decimal.toRat?]
  have two : (2 : Decimal).toRat = (2 : Nat) := Decimal.toRat_of_toRat? (Decimal.toRat?_ofNat 2)
  have expanded : (squares.expand Context.initial).1 =
      .ok (.binary .minus false letterSquared letterSquared) := by
    with_unfolding_all rfl
  have first : (letterSquared.foldTerms .positive Context.initial).1 = .ok [.ofPower "x" 2] :=
    foldTerms_letterSquared rfl
  have second : (letterSquared.foldTerms .negative Context.initial).1 =
      .ok [⟨.finite true 1 0, [("x", 2)], []⟩] :=
    foldTerms_letterSquared (by with_unfolding_all rfl)
  rw [simplifyNumbers, allCompact_union, allCompact_union]
  refine ⟨⟨?_, ?_⟩, ?_⟩
  · rintro q ((none | none) | (none | rfl))
    · cases none
    · cases none
    · cases none
    · rw [two]
      exact compact_nat (by decide)
  · rintro q (((none | none) | ⟨l', r', left, right, inProduct⟩) | (none | none))
    · cases none
    · cases none
    · obtain rfl := Except.ok.inj left
      obtain rfl := Except.ok.inj right
      exact compact_productNumbers_x q inProduct
    · cases none
    · cases none
  · rintro q ⟨e', done, inFold⟩
    obtain rfl := Except.ok.inj (expanded.symm.trans done)
    rcases inFold with (inLeft | inRight) | ⟨ms, ms', left, right, inSum⟩
    · rw [foldTermNumbers_letterSquared] at inLeft
      cases inLeft
    · rw [foldTermNumbers_letterSquared] at inRight
      cases inRight
    obtain rfl := Except.ok.inj (first.symm.trans left)
    obtain rfl := Except.ok.inj (second.symm.trans right)
    rcases inSum with ⟨found, none, -⟩ | ⟨terms, added, inRest⟩
    · cases none
    obtain rfl := Except.ok.inj added
    rcases inRest with ⟨found, like, rfl⟩ | ⟨terms, -, none⟩
    · obtain rfl := List.mem_singleton.1 (List.mem_of_find?_eq_some like)
      change Compact ((1 : Decimal).toRat + (Decimal.finite true 1 0).toRat)
      rw [one, opposite, add_neg_cancel]
      exact representable_zero _
    · cases none

/-- A product of equal letters is the square. -/
theorem simplify_squares : ∃ e', (squares.simplify Context.initial).1 = .ok e' ∧
    e'.isLiteral 0 = true := by
  have square : (2 : Decimal).toRat? = some ((2 : Nat) : ℚ) := Decimal.toRat?_ofNat 2
  have formal : squares.IsFormal Context.initial :=
    .minus (.times (.var unbound_x) (.var unbound_x)) (.power unbound_x square)
  have full : squares.ExpandsFully Context.initial := by
    refine ⟨⟨trivial, trivial, fun l' r' left right => ?_⟩, trivial, trivial⟩
    obtain rfl := Except.ok.inj left
    obtain rfl := Except.ok.inj right
    exact (by decide : 1 * 1 ≤ expansionLimit)
  have equal : (Expr.binary .times false (.var "x") (.var "x")).polynomial =
      letterSquared.polynomial := by
    rw [letterSquared, number, polynomial_power square, pow_two]
    rfl
  obtain ⟨e', done, -, difference⟩ := simplify_isLiteral_zero_iff formal full compact_squares
  exact ⟨e', done, (difference _ _ _ rfl).2 equal⟩

/-! ## Where rounding gets between -/

/-- A digit in the last of 991 decimal places. -/
def tiny (negative : Bool) (digit : Nat) : Decimal :=
  .finite negative digit (-991)

/-- `10000000000` -/
def large : Expr :=
  .number 10000000000

/-- `6-3-3` in the last of 991 decimal places, and a large number. -/
def cancelling : Expr :=
  .binary .plus false
    (.binary .minus false (.binary .minus false (.number (tiny false 6)) (.number (tiny false 3)))
      (.number (tiny false 3)))
    large

theorem toRat?_large : (10000000000 : Decimal).toRat? = some 10000000000 := by
  rw [Decimal.toRat?_ofNat]
  norm_num

theorem toRat?_tiny (digit : Nat) :
    (tiny false digit).toRat? = some ((digit : ℚ) * 10 ^ (-991 : ℤ)) := by
  rw [tiny, Decimal.toRat?, Decimal.signedCoefficient_false, Int.cast_natCast]

theorem short_tiny (digit : Nat) (one : digit < 10) :
    HasDigits ambientDigits ((digit : ℚ) * 10 ^ (-991 : ℤ)) := by
  refine ⟨digit, -991, by rw [Int.cast_natCast], ?_⟩
  rw [Nat.abs_cast, ambientDigits]
  omega

theorem short_large : HasDigits ambientDigits 10000000000 :=
  ⟨1, 10, by norm_num, by norm_num [ambientDigits]⟩

/-- Numbers are added up one after the other. -/
theorem mem_collectNumbers_number {a b : Decimal} {ms : List Monomial} {q : ℚ}
    (arises : q ∈ Monomial.collectNumbers [.ofNumber a] (.ofNumber b :: ms)) :
    q = a.toRat + b.toRat ∨
      ∃ c, Monomial.exact.add a b = .ok c ∧ q ∈ Monomial.collectNumbers [.ofNumber c] ms := by
  have like : (Monomial.ofNumber a).key.same (Monomial.ofNumber b).key = true := by
    with_unfolding_all rfl
  rcases arises with ⟨first, found, rfl⟩ | ⟨terms, done, later⟩
  · rw [List.mem_singleton.1 (List.mem_of_find?_eq_some found)]
    exact Or.inl rfl
  · rw [Monomial.addTo, if_pos like] at done
    obtain ⟨c, added, rest⟩ := exists_of_ok_bind done
    obtain rfl := Except.ok.inj rest
    exact Or.inr ⟨c, added, later⟩

/-- The three small terms add up to zero before the large one is added. -/
theorem short_collectCancelling {q : ℚ} (arises : q ∈ Monomial.collectNumbers []
    [.ofNumber (tiny false 6), .ofNumber (tiny true 3), .ofNumber (tiny true 3),
      .ofNumber 10000000000]) : HasDigits ambientDigits q := by
  have digits : ∀ digit : Nat, (tiny false digit).toRat = (digit : ℚ) * 10 ^ (-991 : ℤ) :=
    fun digit => Decimal.toRat_of_toRat? (toRat?_tiny digit)
  have three : (tiny true 3).toRat = -((3 : Nat) : ℚ) * 10 ^ (-991 : ℤ) := by
    simp [tiny, Decimal.toRat, Decimal.toRat?, Decimal.signedCoefficient_true]
  have sixMinusThree : Monomial.exact.add (tiny false 6) (tiny true 3) = .ok (tiny false 3) := by
    with_unfolding_all rfl
  have threeMinusThree : Monomial.exact.add (tiny false 3) (tiny true 3) = .ok (tiny false 0) := by
    with_unfolding_all rfl
  rcases arises with ⟨first, none, -⟩ | ⟨terms, added, arises⟩
  · cases none
  obtain rfl := Except.ok.inj added
  rcases mem_collectNumbers_number arises with rfl | ⟨c, added, arises⟩
  · rw [digits, three, ← add_mul]
    convert short_tiny 3 (by decide) using 2
    norm_num
  obtain rfl := Except.ok.inj (sixMinusThree.symm.trans added)
  rcases mem_collectNumbers_number arises with rfl | ⟨c, added, arises⟩
  · rw [digits, three, ← add_mul, add_neg_cancel, zero_mul]
    exact (representable_zero _).short
  obtain rfl := Except.ok.inj (threeMinusThree.symm.trans added)
  rcases mem_collectNumbers_number arises with rfl | ⟨c, -, none⟩
  · rw [digits, Nat.cast_zero, zero_mul, zero_add, Decimal.toRat_of_toRat? toRat?_large]
    exact short_large
  · cases none

theorem short_cancelling {q : ℚ} (arises : q ∈ cancelling.simplifyNumbers Context.initial) :
    HasDigits ambientDigits q := by
  have number : ∀ {n : Decimal} {x : ℚ}, n.toRat? = some x → HasDigits ambientDigits x →
      q ∈ (Expr.number n).monomialNumbers Context.initial → HasDigits ambientDigits q := by
    intro n x value short member
    rwa [monomialNumbers_number member, Decimal.toRat_of_toRat? value]
  have six := number (toRat?_tiny 6) (short_tiny 6 (by decide))
  have three := number (toRat?_tiny 3) (short_tiny 3 (by decide))
  have tenth := number toRat?_large short_large
  have left : ((Expr.binary .minus false (.binary .minus false (.number (tiny false 6))
      (.number (tiny false 3))) (.number (tiny false 3))).foldTerms .positive
        Context.initial).1 =
      .ok [.ofNumber (tiny false 6), .ofNumber (tiny true 3), .ofNumber (tiny true 3)] := by
    with_unfolding_all rfl
  have right : (large.foldTerms .positive Context.initial).1 =
      .ok [.ofNumber 10000000000] := by
    with_unfolding_all rfl
  rcases arises with (inLiterals | inExpand) | ⟨e', done, inFold⟩
  · rcases inLiterals with ((first | second) | third) | last
    · exact six first
    · exact three second
    · exact three third
    · exact tenth last
  · rcases inExpand with ((none | none) | none) | none <;> cases none
  · obtain rfl := Except.ok.inj done
    rcases inFold with (((first | second) | third) | last) | ⟨ms, ms', leftDone, rightDone, inSum⟩
    · exact six first
    · exact three second
    · exact three third
    · exact tenth last
    · obtain rfl := Except.ok.inj (left.symm.trans leftDone)
      obtain rfl := Except.ok.inj (right.symm.trans rightDone)
      exact short_collectCancelling inSum

/-- Whether the computation has given a tree that is not the literal zero. -/
def missesZero : Except Fault Expr → Bool
  | .ok e => !e.isLiteral 0
  | _ => false

theorem exists_of_missesZero {result : Except Fault Expr} (missed : missesZero result = true) :
    ∃ e, result = .ok e ∧ e.isLiteral 0 = false := by
  cases result with
  | ok e => exact ⟨e, rfl, by simpa [missesZero] using missed⟩
  | error fault => cases missed

/-- A power of ten that is too large makes the computation fail, and the difference of two trees
whose numbers are short can need more digits than coefficients keep. -/
theorem simplify_zero_missed :
    (overflowing.IsFormal Context.initial ∧ overflowing.ExpandsFully Context.initial ∧
      (∀ q ∈ overflowing.simplifyNumbers Context.initial, HasDigits ambientDigits q) ∧
      overflowing.polynomial = 0 ∧
      ¬ ∃ e', (overflowing.simplify Context.initial).1 = .ok e') ∧
    ((∀ e ∈ [large, cancelling], e.IsFormal Context.initial ∧ e.ExpandsFully Context.initial ∧
        ∀ q ∈ e.simplifyNumbers Context.initial, HasDigits ambientDigits q) ∧
      large.polynomial = cancelling.polynomial ∧
      ∃ e', ((Expr.binary .minus false large cancelling).simplify Context.initial).1 = .ok e' ∧
        e'.isLiteral 0 = false) := by
  constructor
  · have largest : (Decimal.finite false 1 maxExponent).toRat? = some (10 ^ maxExponent) :=
      Decimal.toRat?_tens _
    refine ⟨.times (.times (.literal largest) (.literal (Decimal.toRat?_ofNat 10)))
      (.literal Decimal.toRat?_zero), ⟨⟨trivial, trivial, ?_⟩, trivial, ?_⟩,
      fun q => short_overflowing, ?_, ?_⟩
    · intro l' r' left right
      obtain rfl := Except.ok.inj left
      obtain rfl := Except.ok.inj right
      exact (by decide : 1 * 1 ≤ expansionLimit)
    · intro l' r' left
      exact absurd left (ne_ok_of_none (by decide +kernel))
    · have zero : (Expr.number 0).polynomial = 0 := by
        rw [number, polynomial_literal Decimal.toRat?_zero, map_zero]
      change _ * (Expr.number 0).polynomial = 0
      rw [zero, mul_zero]
    · rintro ⟨e', done⟩
      exact absurd done (ne_ok_of_none (by decide +kernel))
  · have smalls : ∀ digit, (Expr.number (tiny false digit)).IsFormal Context.initial :=
      fun digit => .literal (toRat?_tiny digit)
    have last : large.IsFormal Context.initial := .literal toRat?_large
    refine ⟨?_, ?_, exists_of_missesZero (by decide +kernel)⟩
    · intro e member
      rcases List.mem_pair.1 member with rfl | rfl
      · refine ⟨last, trivial, fun q arises => ?_⟩
        rcases arises with (rfl | none) | ⟨e', done, inFold⟩
        · rw [Decimal.toRat_of_toRat? toRat?_large]
          exact short_large
        · cases none
        · obtain rfl := Except.ok.inj done
          cases inFold
      · exact ⟨.plus (.minus (.minus (smalls 6) (smalls 3)) (smalls 3)) last,
          ⟨⟨⟨trivial, trivial⟩, trivial⟩, trivial⟩, fun q => short_cancelling⟩
    · have zero : ((6 : Nat) : ℚ) * 10 ^ (-991 : ℤ) - (3 : Nat) * 10 ^ (-991 : ℤ) -
          (3 : Nat) * 10 ^ (-991 : ℤ) = 0 := by
        rw [← sub_mul, ← sub_mul]
        norm_num
      change large.polynomial = (Expr.number (tiny false 6)).polynomial -
        (Expr.number (tiny false 3)).polynomial - (Expr.number (tiny false 3)).polynomial +
        large.polynomial
      rw [number, number, polynomial_literal (toRat?_tiny 6), polynomial_literal (toRat?_tiny 3),
        ← map_sub, ← map_sub, zero, map_zero, zero_add]

end Expr

end Reckon
