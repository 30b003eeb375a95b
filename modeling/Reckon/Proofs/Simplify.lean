import Reckon.Proofs.Simplify.Monomial

/-!
# Simplifying keeps the value

Expanding and folding a polynomial go through monomials: a tree is read as one, products and sums
of monomials are formed, and the sum is written as a tree again. Every step keeps the value, also
where a product is left as it is because it has too many terms, as long as no number that arises is
rounded. The `…Numbers` are the numbers that arise in each of the steps. How sums are multiplied out
does not depend on what trees and monomials stand for (`Reading`): it may be a value, or a
polynomial.

Results: `yields_monomial`, `yields_expand`, `yields_fold`, `simplify_value`.
-/

namespace Reckon

namespace Expr

variable {ctx : Context} {ρ : String → ℚ}

/-! ## Trees as monomials -/

/-- The numbers that arise where a tree is read as a monomial. -/
def monomialNumbers (ctx : Context) : Expr → Set ℚ
  | .unary sign e =>
    if (Expr.unary sign e).isClosed ctx then (Expr.unary sign e).subvalues ctx.valuation
    else e.monomialNumbers ctx
  | .binary op attached l r =>
    if (Expr.binary op attached l r).isClosed ctx then
      (Expr.binary op attached l r).subvalues ctx.valuation
    else if op = .times then
      l.monomialNumbers ctx ∪ r.monomialNumbers ctx ∪
        {q | ∃ a b, (l.monomial ctx).1 = .ok a ∧ (r.monomial ctx).1 = .ok b ∧
          q ∈ a.mulNumbers b}
    else ∅
  | e => if e.isClosed ctx then e.subvalues ctx.valuation else ∅

/-- The tree is read as a monomial of the same value. -/
def HasMonomial (ctx : Context) (ρ : String → ℚ) (e : Expr) : Prop :=
  ∃ m, Calc.Yields ctx e.monomial m ∧ m.Sound ctx ∧ m.value ρ = e.rationalValue ρ

theorem compact_nat {k : Nat} (small : k < 10) : Compact (k : ℚ) := by
  have fits := representable_int (n := k) (show |(k : ℤ)| < 10 ^ 1 by rw [Nat.abs_cast]; omega)
    (by norm_num)
  rw [Int.cast_natCast] at fits
  exact fits.mono (by decide)

theorem compact_one : Compact 1 := by
  have one := compact_nat (k := 1) (by decide)
  rwa [Nat.cast_one] at one

theorem sound_one : ∃ q, (1 : Decimal).toRat? = some q ∧ Compact q :=
  ⟨1, Decimal.toRat?_one, compact_one⟩

/-- A number is tried first. -/
theorem yields_ofNumber {e : Expr} {n : Decimal} (value : Calc.Yields ctx e.value? (some n)) :
    Calc.Yields ctx e.monomial (.ofNumber n) := by
  rw [monomial.eq_def]
  cases e <;> exact value.bind (Calc.yields_pure _)

theorem monomialNumbers_closed {e : Expr} (closed : e.isClosed ctx = true) :
    e.monomialNumbers ctx = e.subvalues ctx.valuation := by
  cases e <;> simp [monomialNumbers, closed]

/-- It is enough to look at trees with a variable that is not bound. -/
theorem hasMonomial_of_open {e : Expr} (polynomial : e.Sound ctx) (agrees : ctx.Agrees ρ)
    (compact : AllCompact (e.monomialNumbers ctx))
    (rest : e.isClosed ctx = false → e.HasMonomial ctx ρ) : e.HasMonomial ctx ρ := by
  cases closed : e.isClosed ctx with
  | false => exact rest closed
  | true =>
    rw [monomialNumbers_closed closed] at compact
    obtain ⟨n, yields, value, fits⟩ := yields_value polynomial closed agrees compact
    refine ⟨.ofNumber n, yields_ofNumber yields, ⟨⟨_, value, fits⟩,
      by simp [Monomial.ofNumber, Monomial.SoundPowers], by simp [Monomial.ofNumber]⟩, ?_⟩
    simp [Monomial.value, Monomial.part, Monomial.powersValue, Monomial.ofNumber,
      Decimal.toRat_of_toRat? value]

/-- Any other factor. -/
theorem sound_ofFactor {e : Expr} (polynomial : e.Sound ctx) :
    (Monomial.ofFactor e).Sound ctx ∧ (Monomial.ofFactor e).value ρ = e.rationalValue ρ := by
  refine ⟨⟨sound_one, by simp [Monomial.ofFactor, Monomial.SoundPowers],
    by simpa [Monomial.ofFactor] using polynomial⟩, ?_⟩
  simp [Monomial.value, Monomial.part, Monomial.powersValue, Monomial.ofFactor,
    Decimal.toRat_of_toRat? Decimal.toRat?_one]

/-- The power of a variable. -/
theorem sound_ofPower {name : String} {n : Decimal} {k : Nat}
    (letter : (Expr.var name).Sound ctx) (exponent : n.toRat? = some (k : ℚ))
    (fits : Compact (k : ℚ)) :
    (Monomial.ofPower name n).Sound ctx ∧ (Monomial.ofPower name n).value ρ = ρ name ^ k := by
  refine ⟨⟨sound_one, ?_, by simp [Monomial.ofPower]⟩, ?_⟩
  · intro p member
    obtain rfl := List.mem_singleton.1 member
    exact ⟨letter, k, exponent, fits⟩
  · simp [Monomial.value, Monomial.part, Monomial.powersValue, Monomial.ofPower,
      Decimal.toRat_of_toRat? Decimal.toRat?_one, Decimal.toRat_of_toRat? exponent,
      Interpretation.rational_power_nat]

theorem hasMonomial_var {name : String} (letter : (Expr.var name).Sound ctx)
    (isOpen : (Expr.var name).isClosed ctx = false) : (Expr.var name).HasMonomial ctx ρ := by
  have one : (1 : Decimal).toRat? = some ((1 : Nat) : ℚ) := Decimal.toRat?_ofNat 1
  have fits : Compact ((1 : Nat) : ℚ) := by
    rw [Nat.cast_one]
    exact compact_one
  obtain ⟨sound, value⟩ := sound_ofPower (ρ := ρ) letter one fits
  refine ⟨.ofPower name 1, ?_, sound, by rw [value, pow_one]; rfl⟩
  rw [monomial]
  exact (yields_value_none letter isOpen).bind (Calc.yields_pure _)

theorem hasMonomial_unary {sign : Sign} {e : Expr} (polynomial : (Expr.unary sign e).Sound ctx)
    (isOpen : (Expr.unary sign e).isClosed ctx = false) (inner : e.HasMonomial ctx ρ) :
    (Expr.unary sign e).HasMonomial ctx ρ := by
  obtain ⟨m, yields, sound, value⟩ := inner
  obtain ⟨m', signed, sound', value'⟩ := Monomial.withSign_value (ρ := ρ) sound sign
  refine ⟨m', ?_, sound', by rw [value', value]; rfl⟩
  rw [monomial]
  exact (yields_value_none polynomial isOpen).bind (yields.bind (Calc.yields_decimal signed))

theorem hasMonomial_times {attached : Bool} {l r : Expr}
    (polynomial : (Expr.binary .times attached l r).Sound ctx)
    (isOpen : (Expr.binary .times attached l r).isClosed ctx = false)
    (left : l.HasMonomial ctx ρ) (right : r.HasMonomial ctx ρ)
    (compact : AllCompact {q | ∃ a b, (l.monomial ctx).1 = .ok a ∧ (r.monomial ctx).1 = .ok b ∧
      q ∈ a.mulNumbers b}) : (Expr.binary .times attached l r).HasMonomial ctx ρ := by
  obtain ⟨a, leftYields, leftSound, leftValue⟩ := left
  obtain ⟨b, rightYields, rightSound, rightValue⟩ := right
  obtain ⟨m, product, sound, value⟩ := Monomial.mul_value (ρ := ρ) leftSound rightSound
    fun q member => compact q ⟨a, b, leftYields.result, rightYields.result, member⟩
  refine ⟨m, ?_, sound, by rw [value, leftValue, rightValue]; rfl⟩
  rw [monomial.eq_def]
  exact (yields_value_none polynomial isOpen).bind
    (leftYields.bind (rightYields.bind (Calc.yields_decimal product)))

/-- Sums are factors as they are. -/
theorem hasMonomial_sum {op : Operator} {attached : Bool} {l r : Expr}
    (isSum : op = .plus ∨ op = .minus) (polynomial : (Expr.binary op attached l r).Sound ctx)
    (isOpen : (Expr.binary op attached l r).isClosed ctx = false) :
    (Expr.binary op attached l r).HasMonomial ctx ρ := by
  obtain ⟨sound, value⟩ := sound_ofFactor (ρ := ρ) polynomial
  refine ⟨.ofFactor (.binary op attached l r), ?_, sound, value⟩
  rw [monomial.eq_def]
  rcases isSum with rfl | rfl <;>
    exact (yields_value_none polynomial isOpen).bind (Calc.yields_pure _)

theorem hasMonomial_power {attached written : Bool} {base : Expr} {n : Decimal} {k : Nat}
    (basePolynomial : base.Sound ctx) (exponent : n.toRat? = some (k : ℚ))
    (fits : Compact (k : ℚ)) (agrees : ctx.Agrees ρ)
    (isOpen : (Expr.binary .power attached base (.literal n written)).isClosed ctx = false) :
    (Expr.binary .power attached base (.literal n written)).HasMonomial ctx ρ := by
  have polynomial : (Expr.binary .power attached base (.literal n written)).Sound ctx :=
    .power basePolynomial exponent fits
  have none := yields_value_none polynomial isOpen
  obtain ⟨sound, value⟩ := sound_ofFactor (ρ := ρ) polynomial
  rw [HasMonomial, monomial.eq_def]
  cases base with
  | var name =>
    have free : ctx.isBound name = false := by
      rw [← isOpen]
      simp [isClosed, names, collectNames]
    have unbound : Calc.Yields ctx (Calc.look (·.isBound name)) false :=
      Calc.yields_look fun before same => by rw [same.isBound_eq, free]
    have exponentFits : AllCompact ((Expr.literal n written).subvalues ctx.valuation) := by
      rintro q rfl
      rwa [rationalValue_literal exponent]
    obtain ⟨m, known, mValue, -⟩ := yields_value (ρ := ρ)
      (.literal exponent (Nat.cast_nonneg k) fits) rfl agrees exponentFits
    rw [rationalValue_literal exponent] at mValue
    obtain ⟨sound, value⟩ := sound_ofPower (ρ := ρ) basePolynomial mValue fits
    refine ⟨.ofPower name m, ?_, sound, ?_⟩
    · exact none.bind (unbound.bind (known.bind (Calc.yields_pure _)))
    · rw [value, rationalValue_power exponent]
      rfl
  | _ => exact ⟨_, none.bind (Calc.yields_pure _), sound, value⟩

/-- A polynomial is read as a monomial of the same value. -/
theorem yields_monomial {e : Expr} (polynomial : e.Sound ctx) (agrees : ctx.Agrees ρ)
    (compact : AllCompact (e.monomialNumbers ctx)) : e.HasMonomial ctx ρ := by
  induction polynomial with
  | literal value nonnegative fits =>
    exact hasMonomial_of_open (.literal value nonnegative fits) agrees compact fun isOpen => by
      cases isOpen
  | var shape letter isNumber =>
    exact hasMonomial_of_open (.var shape letter isNumber) agrees compact
      (hasMonomial_var (.var shape letter isNumber))
  | unary inner ih =>
    refine hasMonomial_of_open inner.unary agrees compact fun isOpen => ?_
    rw [monomialNumbers, isOpen, if_neg Bool.false_ne_true] at compact
    exact hasMonomial_unary inner.unary isOpen (ih compact)
  | plus left right _ _ =>
    exact hasMonomial_of_open (left.plus right) agrees compact
      (hasMonomial_sum (Or.inl rfl) (left.plus right))
  | minus left right _ _ =>
    exact hasMonomial_of_open (left.minus right) agrees compact
      (hasMonomial_sum (Or.inr rfl) (left.minus right))
  | times left right leftIh rightIh =>
    refine hasMonomial_of_open (left.times right) agrees compact fun isOpen => ?_
    rw [monomialNumbers, isOpen, if_neg Bool.false_ne_true, if_pos rfl, allCompact_union,
      allCompact_union] at compact
    obtain ⟨⟨leftFits, rightFits⟩, products⟩ := compact
    exact hasMonomial_times (left.times right) isOpen (leftIh leftFits) (rightIh rightFits) products
  | power base exponent fits _ =>
    exact hasMonomial_of_open (base.power exponent fits) agrees compact
      (hasMonomial_power base exponent fits agrees)

/-! ## Products of sums -/

section Signs

variable {K : Type} [Ring K]

theorem signed_times (s t : Sign) (a : K) : signed (s.times t) a = signed s (signed t a) := by
  cases s <;> cases t <;> simp [Sign.times, signed]

theorem signed_opposite (s : Sign) (a : K) : signed s.opposite a = signed s (-a) := by
  cases s <;> simp [Sign.opposite, signed]

theorem signed_add (s : Sign) (a b : K) : signed s (a + b) = signed s a + signed s b := by
  cases s
  · rfl
  · exact neg_add a b

theorem signed_mul (s t : Sign) (a b : K) :
    signed (s.times t) (a * b) = signed t a * signed s b := by
  cases s <;> cases t <;> simp [Sign.times, signed]

end Signs

/-- The sum of terms with signs. -/
def signedTotal (ρ : String → ℚ) (ts : List (Sign × Expr)) : ℚ :=
  (ts.map fun (s, e) => signed s (e.rationalValue ρ)).sum

theorem signedTotal_append (ts ts' : List (Sign × Expr)) :
    signedTotal ρ (ts ++ ts') = signedTotal ρ ts + signedTotal ρ ts' := by
  rw [signedTotal, List.map_append, List.sum_append]
  rfl

/-- The terms of a sum are polynomials and add up to it. -/
theorem terms_value {e : Expr} (polynomial : e.Sound ctx) (sign : Sign) :
    (∀ t ∈ e.terms sign, t.2.Sound ctx) ∧
      signedTotal ρ (e.terms sign) = signed sign (e.rationalValue ρ) := by
  induction polynomial generalizing sign with
  | literal value nonnegative fits =>
    exact ⟨by simpa [terms] using .literal value nonnegative fits, by simp [terms, signedTotal]⟩
  | var shape letter isNumber =>
    exact ⟨by simpa [terms] using .var shape letter isNumber, by simp [terms, signedTotal]⟩
  | @unary s e inner ih =>
    obtain ⟨polynomials, value⟩ := ih (s.times sign)
    refine ⟨polynomials, value.trans ?_⟩
    rw [signed_times]
    cases s <;> cases sign <;> rfl
  | @plus attached l r left right leftIh rightIh =>
    obtain ⟨leftTerms, leftValue⟩ := leftIh sign
    obtain ⟨rightTerms, rightValue⟩ := rightIh sign
    refine ⟨?_, ?_⟩
    · intro t member
      rcases List.mem_append.1 member with inLeft | inRight
      · exact leftTerms t inLeft
      · exact rightTerms t inRight
    · rw [terms, signedTotal_append, leftValue, rightValue, ← signed_add]
      rfl
  | @minus attached l r left right leftIh rightIh =>
    obtain ⟨leftTerms, leftValue⟩ := leftIh sign
    obtain ⟨rightTerms, rightValue⟩ := rightIh sign.opposite
    refine ⟨?_, ?_⟩
    · intro t member
      rcases List.mem_append.1 member with inLeft | inRight
      · exact leftTerms t inLeft
      · exact rightTerms t inRight
    · rw [terms, signedTotal_append, leftValue, rightValue, signed_opposite, ← signed_add,
        ← sub_eq_add_neg]
      rfl
  | times left right _ _ =>
    exact ⟨by simpa [terms] using left.times right, by simp [terms, signedTotal]⟩
  | power base exponent fits _ =>
    exact ⟨by simpa [terms] using base.power exponent fits, by simp [terms, signedTotal]⟩

/-- The numbers that arise where terms are read as monomials. -/
def termNumbers (ctx : Context) (ts : List (Sign × Expr)) : Set ℚ :=
  {q | ∃ t ∈ ts, q ∈ t.2.monomialNumbers ctx}

/-- The numbers that arise where every term on the left is multiplied by every term on the
right. -/
def pairNumbers (ctx : Context) (left right : List (Sign × Expr)) : Set ℚ :=
  {q | ∃ s ∈ left, ∃ t ∈ right, ∃ a b, (s.2.monomial ctx).1 = .ok a ∧
    (t.2.monomial ctx).1 = .ok b ∧ q ∈ a.mulNumbers b}

open Monomial (total total_append)

/-- What trees and monomials stand for, in a ring in which products and signs of monomials are
computed. -/
structure Reading (ctx : Context) (K : Type) [CommRing K] where
  IsTree : Expr → Prop
  IsMonomial : Monomial → Prop
  tree : Expr → K
  monomial : Monomial → K
  reads : ∀ {e : Expr}, IsTree e → AllCompact (e.monomialNumbers ctx) →
    ∃ m, Calc.Yields ctx e.monomial m ∧ IsMonomial m ∧ monomial m = tree e
  mul : ∀ {a b : Monomial}, IsMonomial a → IsMonomial b → AllCompact (a.mulNumbers b) →
    ∃ m, a.mul b = .ok m ∧ IsMonomial m ∧ monomial m = monomial a * monomial b
  withSign : ∀ {m : Monomial}, IsMonomial m → ∀ sign : Sign,
    ∃ m', m.withSign sign = .ok m' ∧ IsMonomial m' ∧ monomial m' = signed sign (monomial m)

namespace Reading

variable {K : Type} [CommRing K] (reading : Reading ctx K)

/-- The computation gives monomials with this sum. -/
def Gives (act : Calc (List Monomial)) (sum : K) : Prop :=
  ∃ ms, Calc.Yields ctx act ms ∧ (∀ m ∈ ms, reading.IsMonomial m) ∧
    (ms.map reading.monomial).sum = sum

/-- The sum of terms with signs. -/
def signedSum (ts : List (Sign × Expr)) : K :=
  (ts.map fun (s, e) => signed s (reading.tree e)).sum

theorem signedSum_cons (s : Sign) (e : Expr) (ts : List (Sign × Expr)) :
    reading.signedSum ((s, e) :: ts) = signed s (reading.tree e) + reading.signedSum ts := by
  rw [signedSum, List.map_cons, List.sum_cons]
  rfl

theorem gives_signedTerm {e : Expr} (tree : reading.IsTree e) (sign : Sign)
    (compact : AllCompact (e.monomialNumbers ctx)) :
    reading.Gives (signedTerm sign e) (signed sign (reading.tree e)) := by
  obtain ⟨m, yields, isMonomial, value⟩ := reading.reads tree compact
  obtain ⟨m', signed, isMonomial', value'⟩ := reading.withSign isMonomial sign
  refine ⟨[m'], ?_, by simpa using isMonomial', by simp [value', value]⟩
  exact yields.bind ((Calc.yields_decimal signed).bind (Calc.yields_pure _))

variable {reading}

theorem gives_nil : reading.Gives (pure []) 0 :=
  ⟨[], Calc.yields_pure _, List.forall_mem_nil _, by simp⟩

theorem Gives.append {left right : Calc (List Monomial)} {a b : K} (first : reading.Gives left a)
    (second : reading.Gives right b) :
    reading.Gives (do return (← left) ++ (← right)) (a + b) := by
  obtain ⟨ms, yields, isMonomial, value⟩ := first
  obtain ⟨ms', yields', isMonomial', value'⟩ := second
  refine ⟨ms ++ ms', yields.bind (yields'.bind (Calc.yields_pure _)), ?_, ?_⟩
  · exact fun m member => (List.mem_append.1 member).elim (isMonomial m) (isMonomial' m)
  · rw [List.map_append, List.sum_append, value, value']

/-- One term times several. -/
theorem gives_productsWith {m : Monomial} (isMonomial : reading.IsMonomial m) (sign : Sign) :
    ∀ {right : List (Sign × Expr)}, (∀ t ∈ right, reading.IsTree t.2) →
    AllCompact (termNumbers ctx right) →
    (∀ t ∈ right, ∀ b, (t.2.monomial ctx).1 = .ok b → AllCompact (m.mulNumbers b)) →
    reading.Gives (productsWith sign m right)
      (signed sign (reading.monomial m) * reading.signedSum right)
  | [], _, _, _ => by
    rw [signedSum, List.map_nil, List.sum_nil, mul_zero]
    exact gives_nil
  | (s, e) :: rest, trees, numbers, pairs => by
    obtain ⟨tree, others⟩ := List.forall_mem_cons.1 trees
    obtain ⟨b, read, second, bValue⟩ :=
      reading.reads tree fun q member => numbers q ⟨(s, e), List.mem_cons_self, member⟩
    obtain ⟨p, multiplied, product, pValue⟩ := reading.mul isMonomial second
      (pairs (s, e) List.mem_cons_self b read.result)
    obtain ⟨p', signed, product', pValue'⟩ := reading.withSign product (s.times sign)
    obtain ⟨ms, products, all, value⟩ := gives_productsWith isMonomial sign others
      (by
        rintro q ⟨t, member, inTerm⟩
        exact numbers q ⟨t, List.mem_cons_of_mem _ member, inTerm⟩)
      (fun t member => pairs t (List.mem_cons_of_mem _ member))
    refine ⟨p' :: ms, ?_, List.forall_mem_cons.2 ⟨product', all⟩, ?_⟩
    · rw [productsWith]
      exact read.bind ((Calc.yields_decimal multiplied).bind
        ((Calc.yields_decimal signed).bind (products.bind (Calc.yields_pure _))))
    · rw [List.map_cons, List.sum_cons, signedSum_cons, pValue', pValue, bValue, value, signed_mul,
        mul_add]

variable (reading) in
/-- Every term on the left times every term on the right. -/
theorem gives_products {right : List (Sign × Expr)} (trees : ∀ t ∈ right, reading.IsTree t.2)
    (numbers : AllCompact (termNumbers ctx right)) : ∀ {left : List (Sign × Expr)},
    (∀ t ∈ left, reading.IsTree t.2) → AllCompact (termNumbers ctx left) →
    AllCompact (pairNumbers ctx left right) →
    reading.Gives (products right left) (reading.signedSum left * reading.signedSum right)
  | [], _, _, _ => by
    rw [signedSum, List.map_nil, List.sum_nil, zero_mul]
    exact gives_nil
  | (s, e) :: rest, leftTrees, leftNumbers, pairs => by
    obtain ⟨tree, others⟩ := List.forall_mem_cons.1 leftTrees
    obtain ⟨a, read, isMonomial, aValue⟩ :=
      reading.reads tree fun q member => leftNumbers q ⟨(s, e), List.mem_cons_self, member⟩
    have first := gives_productsWith isMonomial s trees numbers fun t member b done q inProduct =>
      pairs q ⟨(s, e), List.mem_cons_self, t, member, a, b, read.result, done, inProduct⟩
    have others := gives_products trees numbers others
      (by
        rintro q ⟨t, member, inTerm⟩
        exact leftNumbers q ⟨t, List.mem_cons_of_mem _ member, inTerm⟩)
      (by
        rintro q ⟨t, member, inPair⟩
        exact pairs q ⟨t, List.mem_cons_of_mem _ member, inPair⟩)
    obtain ⟨ms, yields, all, value⟩ := first.append others
    refine ⟨ms, ?_, all, ?_⟩
    · rw [Expr.products]
      exact read.bind yields
    · rw [value, signedSum_cons, aValue, add_mul]

end Reading

/-- Polynomials as their values. -/
def valueReading (agrees : ctx.Agrees ρ) : Reading ctx ℚ where
  IsTree := Sound ctx
  IsMonomial := Monomial.Sound ctx
  tree := rationalValue ρ
  monomial := Monomial.value ρ
  reads polynomial compact := yields_monomial polynomial agrees compact
  mul := Monomial.mul_value
  withSign := Monomial.withSign_value

/-- The terms of a sum are folded to monomials of this sum. -/
def GivesTerms (ctx : Context) (ρ : String → ℚ) (act : Calc (List Monomial)) (x : ℚ) : Prop :=
  ∃ ms, Calc.Yields ctx act ms ∧ (∀ m ∈ ms, m.Sound ctx) ∧ total ρ ms = x

theorem givesTerms_signedTerm {e : Expr} (polynomial : e.Sound ctx) (sign : Sign)
    (agrees : ctx.Agrees ρ) (compact : AllCompact (e.monomialNumbers ctx)) :
    GivesTerms ctx ρ (signedTerm sign e) (signed sign (e.rationalValue ρ)) :=
  (valueReading agrees).gives_signedTerm polynomial sign compact

theorem givesTerms_append (agrees : ctx.Agrees ρ) {left right : Calc (List Monomial)} {x y : ℚ}
    (first : GivesTerms ctx ρ left x) (second : GivesTerms ctx ρ right y) :
    GivesTerms ctx ρ (do return (← left) ++ (← right)) (x + y) := by
  have first : (valueReading agrees).Gives left x := first
  exact first.append second

theorem givesTerms_products {left right : List (Sign × Expr)} (agrees : ctx.Agrees ρ)
    (leftTerms : ∀ t ∈ left, t.2.Sound ctx) (leftNumbers : AllCompact (termNumbers ctx left))
    (rightTerms : ∀ t ∈ right, t.2.Sound ctx) (rightNumbers : AllCompact (termNumbers ctx right))
    (pairs : AllCompact (pairNumbers ctx left right)) :
    GivesTerms ctx ρ (products right left) (signedTotal ρ left * signedTotal ρ right) :=
  (valueReading agrees).gives_products rightTerms rightNumbers leftTerms leftNumbers pairs

/-! ## Expanding -/

/-- The computation gives a polynomial of this value. -/
def Gives (ctx : Context) (ρ : String → ℚ) (act : Calc Expr) (x : ℚ) : Prop :=
  ∃ e, Calc.Yields ctx act e ∧ e.Sound ctx ∧ e.rationalValue ρ = x

/-- A sum of monomials as a tree. -/
theorem gives_ofMonomials {ms : List Monomial} (sounds : ∀ m ∈ ms, m.Sound ctx)
    (compact : AllCompact (Monomial.collectNumbers [] ms)) :
    Gives ctx ρ (ofMonomials ms) (total ρ ms) := by
  obtain ⟨terms, collected, soundTerms, value⟩ := Monomial.collect_value (ρ := ρ) sounds compact
  obtain ⟨e, summed, polynomial, value'⟩ := Monomial.sum_value (ρ := ρ) soundTerms
  refine ⟨e, Calc.yields_decimal ?_, polynomial, by rw [value', value]⟩
  rw [collected]
  exact summed

/-- The numbers that arise where a product of two trees is multiplied out. -/
def productNumbers (ctx : Context) (l r : Expr) : Set ℚ :=
  if expansionLimit < (l.terms .positive).length * (r.terms .positive).length then ∅
  else termNumbers ctx (l.terms .positive) ∪ termNumbers ctx (r.terms .positive) ∪
    pairNumbers ctx (l.terms .positive) (r.terms .positive) ∪
    {q | ∃ ms, (products (r.terms .positive) (l.terms .positive) ctx).1 = .ok ms ∧
      q ∈ Monomial.collectNumbers [] ms}

/-- Up to the limit, every term is multiplied by every other. -/
theorem expandProduct_of_few (attached : Bool) {l r : Expr}
    (few : (l.terms .positive).length * (r.terms .positive).length ≤ expansionLimit) :
    expandProduct attached l r =
      (do ofMonomials (← products (r.terms .positive) (l.terms .positive))) := by
  have shape : expandProduct attached l r =
      (if expansionLimit < (l.terms .positive).length * (r.terms .positive).length then
        return .binary .times attached l r
      else do ofMonomials (← products (r.terms .positive) (l.terms .positive))) := rfl
  rw [shape, if_neg (Nat.not_lt.2 few)]

theorem compact_of_productNumbers {l r : Expr}
    (few : (l.terms .positive).length * (r.terms .positive).length ≤ expansionLimit)
    (compact : AllCompact (productNumbers ctx l r)) :
    AllCompact (termNumbers ctx (l.terms .positive)) ∧
    AllCompact (termNumbers ctx (r.terms .positive)) ∧
    AllCompact (pairNumbers ctx (l.terms .positive) (r.terms .positive)) ∧
    ∀ {ms}, (products (r.terms .positive) (l.terms .positive) ctx).1 = .ok ms →
      AllCompact (Monomial.collectNumbers [] ms) := by
  rw [productNumbers, if_neg (Nat.not_lt.2 few), allCompact_union, allCompact_union,
    allCompact_union] at compact
  obtain ⟨⟨⟨leftNumbers, rightNumbers⟩, pairs⟩, sums⟩ := compact
  exact ⟨leftNumbers, rightNumbers, pairs, fun done q member => sums q ⟨_, done, member⟩⟩

/-- A variable is squared: the numbers of its monomial arise, and those of one product. -/
theorem compact_productNumbers_var {name : String} {m p : Monomial}
    (factor : ((Expr.var name).monomial ctx).1 = .ok m)
    (multiplied : (products [(.positive, .var name)] [(.positive, .var name)] ctx).1 = .ok [p])
    (single : AllCompact ((Expr.var name).monomialNumbers ctx))
    (product : AllCompact (m.mulNumbers m)) :
    AllCompact (productNumbers ctx (.var name) (.var name)) := by
  have few : ¬ expansionLimit < ((Expr.var name).terms .positive).length *
      ((Expr.var name).terms .positive).length := (by decide : ¬ expansionLimit < 1 * 1)
  rw [productNumbers, if_neg few]
  rintro q (((⟨t, member, inTerm⟩ | ⟨t, member, inTerm⟩) |
    ⟨s, inLeft, t, inRight, a, b, first, second, inPair⟩) | ⟨ms, done, inSum⟩)
  · obtain rfl := List.mem_singleton.1 member
    exact single q inTerm
  · obtain rfl := List.mem_singleton.1 member
    exact single q inTerm
  · obtain rfl := List.mem_singleton.1 inLeft
    obtain rfl := List.mem_singleton.1 inRight
    obtain rfl := Except.ok.inj (factor.symm.trans first)
    obtain rfl := Except.ok.inj (factor.symm.trans second)
    exact product q inPair
  · obtain rfl := Except.ok.inj (multiplied.symm.trans done)
    rcases inSum with ⟨first, found, -⟩ | ⟨terms, -, none⟩
    · cases found
    · cases none

/-- The coefficients are multiplied and the exponents added, all of them one. -/
theorem compact_mulNumbers_var (name : String) :
    AllCompact ((Monomial.ofPower name 1).mulNumbers (.ofPower name 1)) := by
  have one : (1 : Decimal).toRat = (1 : Nat) := Decimal.toRat_of_toRat? (Decimal.toRat?_ofNat 1)
  have exponent : Monomial.exponentOf name [(name, 1)] = (1 : Decimal).toRat :=
    if_pos (beq_self_eq_true name)
  rintro q (rfl | rfl | ⟨powers, -, none⟩)
  · change Compact ((1 : Decimal).toRat * (1 : Decimal).toRat)
    rw [one, ← Nat.cast_mul]
    exact compact_nat (by decide)
  · change Compact (Monomial.exponentOf name [(name, 1)] + (1 : Decimal).toRat)
    rw [exponent, one, ← Nat.cast_add]
    exact compact_nat (by decide)
  · cases none

theorem gives_expandProduct (attached : Bool) {l r : Expr} (left : l.Sound ctx)
    (right : r.Sound ctx) (agrees : ctx.Agrees ρ)
    (compact : AllCompact (productNumbers ctx l r)) :
    Gives ctx ρ (expandProduct attached l r) (l.rationalValue ρ * r.rationalValue ρ) := by
  by_cases few : (l.terms .positive).length * (r.terms .positive).length ≤ expansionLimit
  · obtain ⟨leftNumbers, rightNumbers, pairs, sums⟩ := compact_of_productNumbers few compact
    obtain ⟨leftTerms, leftValue⟩ := terms_value (ρ := ρ) left .positive
    obtain ⟨rightTerms, rightValue⟩ := terms_value (ρ := ρ) right .positive
    obtain ⟨ms, products, sounds, value⟩ :=
      givesTerms_products agrees leftTerms leftNumbers rightTerms rightNumbers pairs
    obtain ⟨e, summed, polynomial, value'⟩ :=
      gives_ofMonomials (ρ := ρ) sounds (sums products.result)
    rw [expandProduct_of_few attached few]
    refine ⟨e, products.bind summed, polynomial, ?_⟩
    rw [value', value, leftValue, rightValue]
    rfl
  · have many : expandProduct attached l r = pure (.binary .times attached l r) :=
      if_pos (Nat.lt_of_not_le few)
    rw [many]
    exact ⟨_, Calc.yields_pure _, left.times right, rfl⟩

/-- The numbers that arise where a tree is expanded. -/
def expandNumbers (ctx : Context) : Expr → Set ℚ
  | .binary .times _ l r =>
    l.expandNumbers ctx ∪ r.expandNumbers ctx ∪
      {q | ∃ l' r', (l.expand ctx).1 = .ok l' ∧ (r.expand ctx).1 = .ok r' ∧
        q ∈ productNumbers ctx l' r'}
  | .binary _ _ l r => l.expandNumbers ctx ∪ r.expandNumbers ctx
  | .unary _ e => e.expandNumbers ctx
  | _ => ∅

/-- The operands of anything but a product are expanded one by one. -/
theorem yields_expand_binary {op : Operator} {attached : Bool} {l r l' r' : Expr}
    (other : op ≠ .times) (left : Calc.Yields ctx l.expand l')
    (right : Calc.Yields ctx r.expand r') :
    Calc.Yields ctx (Expr.binary op attached l r).expand (.binary op attached l' r') := by
  rw [expand]
  · exact left.bind (right.bind (Calc.yields_pure _))
  · exact other

theorem allCompact_expand_binary {op : Operator} {attached : Bool} {l r : Expr}
    (other : op ≠ .times) :
    AllCompact ((Expr.binary op attached l r).expandNumbers ctx) ↔
      AllCompact (l.expandNumbers ctx) ∧ AllCompact (r.expandNumbers ctx) := by
  rw [expandNumbers, allCompact_union]
  exact other

/-- Expanding a polynomial keeps its value. -/
theorem yields_expand {e : Expr} (polynomial : e.Sound ctx) (agrees : ctx.Agrees ρ)
    (compact : AllCompact (e.expandNumbers ctx)) :
    Gives ctx ρ e.expand (e.rationalValue ρ) := by
  induction polynomial with
  | literal value nonnegative fits =>
    exact ⟨_, Calc.yields_pure _, .literal value nonnegative fits, rfl⟩
  | var shape letter isNumber => exact ⟨_, Calc.yields_pure _, .var shape letter isNumber, rfl⟩
  | @unary sign e _ ih =>
    obtain ⟨e', yields, inner, value⟩ := ih compact
    refine ⟨.unary sign e', ?_, inner.unary, congrArg (signed sign) value⟩
    rw [expand]
    exact yields.bind (Calc.yields_pure _)
  | @plus attached l r _ _ left right =>
    rw [allCompact_expand_binary (by decide)] at compact
    obtain ⟨l', leftYields, leftPolynomial, leftValue⟩ := left compact.1
    obtain ⟨r', rightYields, rightPolynomial, rightValue⟩ := right compact.2
    exact ⟨_, yields_expand_binary (by decide) leftYields rightYields,
      leftPolynomial.plus rightPolynomial, congrArg₂ (· + ·) leftValue rightValue⟩
  | @minus attached l r _ _ left right =>
    rw [allCompact_expand_binary (by decide)] at compact
    obtain ⟨l', leftYields, leftPolynomial, leftValue⟩ := left compact.1
    obtain ⟨r', rightYields, rightPolynomial, rightValue⟩ := right compact.2
    exact ⟨_, yields_expand_binary (by decide) leftYields rightYields,
      leftPolynomial.minus rightPolynomial, congrArg₂ (· - ·) leftValue rightValue⟩
  | @times attached l r _ _ left right =>
    rw [expandNumbers, allCompact_union, allCompact_union] at compact
    obtain ⟨⟨leftNumbers, rightNumbers⟩, products⟩ := compact
    obtain ⟨l', leftYields, leftPolynomial, leftValue⟩ := left leftNumbers
    obtain ⟨r', rightYields, rightPolynomial, rightValue⟩ := right rightNumbers
    obtain ⟨e', yields, inner, value⟩ := gives_expandProduct attached leftPolynomial
      rightPolynomial agrees
      fun q member => products q ⟨l', r', leftYields.result, rightYields.result, member⟩
    refine ⟨e', ?_, inner, by rw [value, leftValue, rightValue]; rfl⟩
    rw [expand]
    exact leftYields.bind (rightYields.bind yields)
  | @power attached written base n k _ exponent fits ih =>
    rw [allCompact_expand_binary (by decide)] at compact
    obtain ⟨base', yields, inner, value⟩ := ih compact.1
    refine ⟨_, yields_expand_binary (by decide) yields (Calc.yields_pure _),
      inner.power exponent fits, ?_⟩
    rw [rationalValue_power exponent, rationalValue_power exponent, value]

/-! ## Folding -/

mutual

/-- The numbers that arise where the like terms of sums are added up. -/
def foldNumbers (ctx : Context) : Expr → Set ℚ
  | .binary .plus _ l r =>
    l.foldTermNumbers ctx ∪ r.foldTermNumbers ctx ∪
      {q | ∃ ms ms', (l.foldTerms .positive ctx).1 = .ok ms ∧
        (r.foldTerms .positive ctx).1 = .ok ms' ∧ q ∈ Monomial.collectNumbers [] (ms ++ ms')}
  | .binary .minus _ l r =>
    l.foldTermNumbers ctx ∪ r.foldTermNumbers ctx ∪
      {q | ∃ ms ms', (l.foldTerms .positive ctx).1 = .ok ms ∧
        (r.foldTerms .negative ctx).1 = .ok ms' ∧ q ∈ Monomial.collectNumbers [] (ms ++ ms')}
  | .unary sign e =>
    e.foldTermNumbers ctx ∪
      {q | ∃ ms, (e.foldTerms sign ctx).1 = .ok ms ∧ q ∈ Monomial.collectNumbers [] ms}
  | .binary _ _ l r => l.foldNumbers ctx ∪ r.foldNumbers ctx
  | _ => ∅

/-- The numbers that arise where the terms of a sum are folded and read as monomials. -/
def foldTermNumbers (ctx : Context) : Expr → Set ℚ
  | .binary .plus _ l r => l.foldTermNumbers ctx ∪ r.foldTermNumbers ctx
  | .binary .minus _ l r => l.foldTermNumbers ctx ∪ r.foldTermNumbers ctx
  | .unary _ e => e.foldTermNumbers ctx
  | .binary op attached l r =>
    l.foldNumbers ctx ∪ r.foldNumbers ctx ∪
      {q | ∃ l' r', (l.fold ctx).1 = .ok l' ∧ (r.fold ctx).1 = .ok r' ∧
        q ∈ (Expr.binary op attached l' r').monomialNumbers ctx}
  | e => e.monomialNumbers ctx

end

/-- What both passes over a tree give. -/
structure Folds (ctx : Context) (ρ : String → ℚ) (e : Expr) : Prop where
  fold : AllCompact (e.foldNumbers ctx) → Gives ctx ρ e.fold (e.rationalValue ρ)
  terms : ∀ sign, AllCompact (e.foldTermNumbers ctx) →
    GivesTerms ctx ρ (e.foldTerms sign) (signed sign (e.rationalValue ρ))

/-- A tree that is neither a sum nor signed is folded part by part and is one term. -/
theorem folds_binary {op : Operator} {attached : Bool} {l r : Expr} (noSum : op ≠ .plus)
    (noDifference : op ≠ .minus) (agrees : ctx.Agrees ρ)
    (parts : AllCompact (l.foldNumbers ctx) → AllCompact (r.foldNumbers ctx) →
      ∃ l' r', Calc.Yields ctx l.fold l' ∧ Calc.Yields ctx r.fold r' ∧
        (Expr.binary op attached l' r').Sound ctx ∧
        (Expr.binary op attached l' r').rationalValue ρ =
          (Expr.binary op attached l r).rationalValue ρ) :
    (Expr.binary op attached l r).Folds ctx ρ := by
  constructor
  · intro compact
    rw [foldNumbers, allCompact_union] at compact
    · obtain ⟨l', r', left, right, polynomial, value⟩ := parts compact.1 compact.2
      refine ⟨_, ?_, polynomial, value⟩
      rw [fold]
      · exact left.bind (right.bind (Calc.yields_pure _))
      · exact noSum
      · exact noDifference
    · exact noSum
    · exact noDifference
  · intro sign compact
    rw [foldTermNumbers, allCompact_union, allCompact_union] at compact
    · obtain ⟨⟨leftNumbers, rightNumbers⟩, numbers⟩ := compact
      obtain ⟨l', r', left, right, polynomial, value⟩ := parts leftNumbers rightNumbers
      obtain ⟨ms, yields, sounds, total⟩ := givesTerms_signedTerm polynomial sign agrees
        fun q member => numbers q ⟨l', r', left.result, right.result, member⟩
      refine ⟨ms, ?_, sounds, by rw [total, value]⟩
      rw [foldTerms]
      · exact left.bind (right.bind yields)
      · exact noSum
      · exact noDifference
    · exact noSum
    · exact noDifference

theorem folds_unary {sign : Sign} {e : Expr} (inner : e.Folds ctx ρ) :
    (Expr.unary sign e).Folds ctx ρ := by
  constructor
  · intro compact
    rw [foldNumbers, allCompact_union] at compact
    obtain ⟨ms, yields, sounds, value⟩ := inner.terms sign compact.1
    obtain ⟨e', summed, polynomial, value'⟩ := gives_ofMonomials (ρ := ρ) sounds
      fun q member => compact.2 q ⟨ms, yields.result, member⟩
    refine ⟨e', ?_, polynomial, value'.trans value⟩
    rw [fold]
    exact yields.bind summed
  · intro outer compact
    obtain ⟨ms, yields, sounds, value⟩ := inner.terms (sign.times outer) compact
    refine ⟨ms, ?_, sounds, ?_⟩
    · rw [foldTerms]
      exact yields
    · rw [value, signed_times]
      cases sign <;> cases outer <;> rfl

/-- Sums and differences, `right` being the sign of the right operand. -/
theorem folds_sum {l r : Expr} {act : Calc Expr} {right : Sign} {x : ℚ}
    (first : l.Folds ctx ρ) (second : r.Folds ctx ρ)
    (shape : act = do ofMonomials ((← l.foldTerms .positive) ++ (← r.foldTerms right)))
    (sum : x = l.rationalValue ρ + signed right (r.rationalValue ρ))
    (compact : AllCompact (l.foldTermNumbers ctx ∪ r.foldTermNumbers ctx ∪
      {q | ∃ ms ms', (l.foldTerms .positive ctx).1 = .ok ms ∧
        (r.foldTerms right ctx).1 = .ok ms' ∧ q ∈ Monomial.collectNumbers [] (ms ++ ms')})) :
    Gives ctx ρ act x := by
  rw [allCompact_union, allCompact_union] at compact
  obtain ⟨⟨leftNumbers, rightNumbers⟩, sums⟩ := compact
  obtain ⟨ms, yields, sounds, value⟩ := first.terms .positive leftNumbers
  obtain ⟨ms', yields', sounds', value'⟩ := second.terms right rightNumbers
  have all : ∀ m ∈ ms ++ ms', m.Sound ctx := by
    intro m member
    rcases List.mem_append.1 member with inFirst | inSecond
    · exact sounds m inFirst
    · exact sounds' m inSecond
  obtain ⟨e, summed, polynomial, total⟩ := gives_ofMonomials (ρ := ρ) all
    fun q member => sums q ⟨ms, ms', yields.result, yields'.result, member⟩
  refine ⟨e, ?_, polynomial, ?_⟩
  · rw [shape]
    exact yields.bind (yields'.bind summed)
  · rw [total, total_append, value, value', sum]
    rfl

/-- Folding a polynomial keeps its value. -/
theorem yields_fold {e : Expr} (polynomial : e.Sound ctx) (agrees : ctx.Agrees ρ) :
    e.Folds ctx ρ := by
  induction polynomial with
  | @literal n written q value nonnegative fits =>
    have self : (Expr.literal n written).Sound ctx := .literal value nonnegative fits
    exact ⟨fun _ => ⟨_, Calc.yields_pure _, self, rfl⟩,
      fun sign compact => givesTerms_signedTerm self sign agrees compact⟩
  | @var name c shape letter isNumber =>
    have self : (Expr.var name).Sound ctx := .var shape letter isNumber
    exact ⟨fun _ => ⟨_, Calc.yields_pure _, self, rfl⟩,
      fun sign compact => givesTerms_signedTerm self sign agrees compact⟩
  | unary _ ih => exact folds_unary ih
  | @plus attached l r _ _ left right =>
    constructor
    · exact folds_sum left right (by rw [fold]) rfl
    · intro sign compact
      rw [foldTermNumbers, allCompact_union] at compact
      rw [foldTerms]
      rw [show (Expr.binary .plus attached l r).rationalValue ρ =
        l.rationalValue ρ + r.rationalValue ρ from rfl, signed_add]
      exact givesTerms_append agrees (left.terms sign compact.1) (right.terms sign compact.2)
  | @minus attached l r _ _ left right =>
    constructor
    · exact folds_sum left right (by rw [fold]) (sub_eq_add_neg _ _)
    · intro sign compact
      rw [foldTermNumbers, allCompact_union] at compact
      rw [foldTerms]
      rw [show (Expr.binary .minus attached l r).rationalValue ρ =
        l.rationalValue ρ - r.rationalValue ρ from rfl, sub_eq_add_neg, signed_add,
        ← signed_opposite]
      exact givesTerms_append agrees (left.terms sign compact.1)
        (right.terms sign.opposite compact.2)
  | times _ _ left right =>
    refine folds_binary (by decide) (by decide) agrees fun leftNumbers rightNumbers => ?_
    obtain ⟨l', leftYields, leftPolynomial, leftValue⟩ := left.fold leftNumbers
    obtain ⟨r', rightYields, rightPolynomial, rightValue⟩ := right.fold rightNumbers
    exact ⟨l', r', leftYields, rightYields, leftPolynomial.times rightPolynomial,
      congrArg₂ (· * ·) leftValue rightValue⟩
  | power _ exponent fits ih =>
    refine folds_binary (by decide) (by decide) agrees fun baseNumbers _ => ?_
    obtain ⟨base', yields, polynomial, value⟩ := ih.fold baseNumbers
    refine ⟨base', _, yields, Calc.yields_pure _, polynomial.power exponent fits, ?_⟩
    rw [rationalValue_power exponent, rationalValue_power exponent, value]

/-- The numbers that arise where a tree is simplified. -/
def simplifyNumbers (ctx : Context) (e : Expr) : Set ℚ :=
  e.literals ∪ e.expandNumbers ctx ∪
    {q | ∃ e', (e.expand ctx).1 = .ok e' ∧ q ∈ e'.foldNumbers ctx}

theorem gives_simplify {e : Expr} (polynomial : e.IsPolynomial)
    (numbers : ∀ name, e.Occurs name → ctx.IsNumber name)
    (compact : AllCompact (e.simplifyNumbers ctx)) (agrees : ctx.Agrees ρ) :
    Gives ctx ρ e.simplify (e.rationalValue ρ) := by
  rw [simplifyNumbers, allCompact_union, allCompact_union] at compact
  obtain ⟨⟨literals, expanding⟩, folding⟩ := compact
  have sound : e.Sound ctx := polynomial.sound numbers literals
  obtain ⟨middle, expanded, sound', value⟩ := yields_expand sound agrees expanding
  obtain ⟨e', folded, sound'', value'⟩ := (yields_fold sound' agrees).fold
    fun q member => folding q ⟨middle, expanded.result, member⟩
  exact ⟨e', expanded.bind folded, sound'', value'.trans value⟩

/-- Simplifying a polynomial keeps its value under every assignment in agreement with the
context. -/
theorem simplify_value {e : Expr} (polynomial : e.IsPolynomial)
    (numbers : ∀ name, e.Occurs name → ctx.IsNumber name)
    (compact : AllCompact (e.simplifyNumbers ctx)) :
    ∃ e', (e.simplify ctx).1 = .ok e' ∧
      ∀ ρ, ctx.Agrees ρ → e'.rationalValue ρ = e.rationalValue ρ := by
  have simplified : ∀ ρ, ctx.Agrees ρ → Gives ctx ρ e.simplify (e.rationalValue ρ) :=
    fun ρ agrees => gives_simplify polynomial numbers compact agrees
  obtain ⟨e', yields, -, -⟩ := simplified ctx.valuation ctx.agrees_valuation
  refine ⟨e', yields.result, fun ρ agrees => ?_⟩
  obtain ⟨e'', yields', -, value⟩ := simplified ρ agrees
  obtain rfl := Except.ok.inj (yields.result.symm.trans yields'.result)
  exact value

theorem monomialNumbers_number {n : Decimal} {q : ℚ}
    (member : q ∈ (Expr.number n).monomialNumbers ctx) : q = n.toRat := by
  rw [monomialNumbers_closed rfl] at member
  exact member

theorem coefficient_number {n : Decimal} {m : Monomial}
    (done : ((Expr.number n).monomial ctx).1 = .ok m) : m = .ofNumber n :=
  (Except.ok.inj done).symm

/-- The variable `y` has the value 3. -/
def boundContext : Context :=
  Context.initial.bind "y" (.numeric 3)

/-- `x*(y+1)` -/
def scaledLetter : Expr :=
  .binary .times false (.var "x") (.binary .plus false (.var "y") (.number 1))

theorem lookupVariable_x : boundContext.lookupVariable "x" = none := by
  with_unfolding_all rfl

theorem lookupVariable_y : boundContext.lookupVariable "y" = some (.numeric 3) := by
  with_unfolding_all rfl

/-- The letter times the terms of the sum, and the two products added up. -/
theorem compact_productNumbers : AllCompact (productNumbers boundContext (.var "x")
    (.binary .plus false (.var "y") (.number 1))) := by
  have one : (1 : Decimal).toRat = (1 : Nat) := Decimal.toRat_of_toRat? (Decimal.toRat?_ofNat 1)
  have three : (3 : Decimal).toRat = (3 : Nat) := Decimal.toRat_of_toRat? (Decimal.toRat?_ofNat 3)
  have letter : ((Expr.var "x").monomial boundContext).1 = .ok (.ofPower "x" 1) := by
    with_unfolding_all rfl
  have bound : ((Expr.var "y").monomial boundContext).1 = .ok (.ofNumber 3) := by
    with_unfolding_all rfl
  have multiplied : (products [(.positive, .var "y"), (.positive, .number 1)]
      [(.positive, .var "x")] boundContext).1 =
        .ok [⟨3, [("x", 1)], []⟩, ⟨1, [("x", 1)], []⟩] := by
    with_unfolding_all rfl
  have added : Monomial.addTo ⟨3, [("x", 1)], []⟩ [] = .ok [⟨3, [("x", 1)], []⟩] := rfl
  have left : (Expr.var "x").terms .positive = [(.positive, .var "x")] := rfl
  have right : (Expr.binary .plus false (.var "y") (.number 1)).terms .positive =
      [(.positive, .var "y"), (.positive, .number 1)] := rfl
  rw [productNumbers, left, right, if_neg (by decide), allCompact_union, allCompact_union,
    allCompact_union]
  refine ⟨⟨⟨?_, ?_⟩, ?_⟩, ?_⟩
  · rintro q ⟨t, member, inTerm⟩
    obtain rfl := List.mem_singleton.1 member
    have isOpen : (Expr.var "x").isClosed boundContext = false := by
      with_unfolding_all rfl
    simp [monomialNumbers, isOpen] at inTerm
  · rintro q ⟨t, member, inTerm⟩
    rcases List.mem_pair.1 member with rfl | rfl
    · rw [monomialNumbers_closed (by with_unfolding_all rfl)] at inTerm
      obtain rfl := Set.mem_singleton_iff.1 inTerm
      rw [rationalValue, Expr.value, Context.valuation_of_numeric lookupVariable_y, three]
      exact compact_nat (by decide)
    · obtain rfl := monomialNumbers_number inTerm
      rw [one]
      exact compact_nat (by decide)
  · rintro q ⟨s, inLeft, t, inRight, a, b, first, second, inPair⟩
    obtain rfl := List.mem_singleton.1 inLeft
    obtain rfl := Except.ok.inj (letter.symm.trans first)
    rcases List.mem_pair.1 inRight with rfl | rfl
    · obtain rfl := Except.ok.inj (bound.symm.trans second)
      rcases inPair with rfl | none
      · change Compact ((1 : Decimal).toRat * (3 : Decimal).toRat)
        rw [one, three, ← Nat.cast_mul]
        exact compact_nat (by decide)
      · cases none
    · obtain rfl := coefficient_number second
      rcases inPair with rfl | none
      · change Compact ((1 : Decimal).toRat * (1 : Decimal).toRat)
        rw [one, ← Nat.cast_mul]
        exact compact_nat (by decide)
      · cases none
  · rintro q ⟨ms, done, inSum⟩
    obtain rfl := Except.ok.inj (multiplied.symm.trans done)
    rcases inSum with ⟨first, found, -⟩ | ⟨terms, first, inRest⟩
    · cases found
    obtain rfl := Except.ok.inj (added.symm.trans first)
    rcases inRest with ⟨first, found, rfl⟩ | ⟨terms, -, none⟩
    · obtain rfl := List.mem_singleton.1 (List.mem_of_find?_eq_some found)
      rw [three, one, ← Nat.cast_add]
      exact compact_nat (by decide)
    · cases none

/-- Three times a letter and the letter are four times the letter. -/
theorem simplify_scaledLetter : ∃ e', (scaledLetter.simplify boundContext).1 = .ok e' ∧
    ∀ ρ, boundContext.Agrees ρ → e'.rationalValue ρ = scaledLetter.rationalValue ρ := by
  have expanded : (scaledLetter.expand boundContext).1 =
      .ok (.juxtaposed (.number 4) (.var "x")) := by
    with_unfolding_all rfl
  refine simplify_value ?_ ?_ ?_
  · exact .times (.var (c := 'x') rfl (isNameChar_of_isAlpha rfl))
      (.plus (.var (c := 'y') rfl (isNameChar_of_isAlpha rfl))
        (.literal Decimal.toRat?_one zero_le_one))
  · rintro name (rfl | rfl | none)
    · intro t found
      cases lookupVariable_x.symm.trans found
    · intro t found
      cases lookupVariable_y.symm.trans found
      exact ⟨3, _, rfl, Decimal.toRat?_ofNat 3⟩
    · cases none
  · rw [simplifyNumbers, allCompact_union, allCompact_union]
    refine ⟨⟨?_, ?_⟩, ?_⟩
    · rintro q (none | none | rfl)
      · cases none
      · cases none
      · rw [Decimal.toRat_of_toRat? (Decimal.toRat?_ofNat 1)]
        exact compact_nat (by decide)
    · rintro q ((none | none | none) | ⟨l', r', left, right, inProduct⟩)
      · cases none
      · cases none
      · cases none
      · obtain rfl := Except.ok.inj left
        obtain rfl := Except.ok.inj right
        exact compact_productNumbers q inProduct
    · rintro q ⟨e', done, inFold⟩
      obtain rfl := Except.ok.inj (expanded.symm.trans done)
      rcases inFold with none | none <;> cases none

/-! ## Where the value is lost -/

theorem short_tens (e : ℤ) : HasDigits ambientDigits (10 ^ e) :=
  (hasDigits_tens e).mono (by decide)

theorem ne_ok_of_none {α : Type} {result : Except Fault α} {a : α}
    (failed : result.toOption.isSome = false) : result ≠ .ok a := by
  rintro rfl
  cases failed

/-- The largest power of ten times ten times zero. -/
def overflowing : Expr :=
  .binary .times false
    (.binary .times false (.number (.finite false 1 maxExponent)) (.number 10)) (.number 0)

theorem short_product {m n : Decimal} {j k : ℤ} {q : ℚ} (left : m.toRat = 10 ^ j)
    (right : n.toRat = 10 ^ k)
    (failed : (products [(.positive, .number n)] [(.positive, .number m)]
      Context.initial).1.toOption.isSome = false)
    (member : q ∈ productNumbers Context.initial (.number m) (.number n)) :
    HasDigits ambientDigits q := by
  have few : ¬ expansionLimit < ((Expr.number m).terms .positive).length *
      ((Expr.number n).terms .positive).length := (by decide : ¬ expansionLimit < 1 * 1)
  rw [productNumbers, if_neg few] at member
  rcases member with ((⟨t, inLeft, inTerm⟩ | ⟨t, inRight, inTerm⟩) |
    ⟨s, inLeft, t, inRight, a, b, first, second, inPair⟩) | ⟨ms, done, -⟩
  · obtain rfl := List.mem_singleton.1 inLeft
    rw [monomialNumbers_number inTerm, left]
    exact short_tens j
  · obtain rfl := List.mem_singleton.1 inRight
    rw [monomialNumbers_number inTerm, right]
    exact short_tens k
  · obtain rfl := List.mem_singleton.1 inLeft
    obtain rfl := List.mem_singleton.1 inRight
    obtain rfl := coefficient_number first
    obtain rfl := coefficient_number second
    rcases inPair with rfl | none
    · change HasDigits ambientDigits (m.toRat * n.toRat)
      rw [left, right, ← zpow_add₀ (by norm_num)]
      exact short_tens (j + k)
    · cases none
  · exact absurd done (ne_ok_of_none failed)

/-- The only numbers that arise are powers of ten and zero, but one of them is out of range. -/
theorem short_overflowing {q : ℚ} (arises : q ∈ overflowing.simplifyNumbers Context.initial) :
    HasDigits ambientDigits q := by
  have largest : (Decimal.finite false 1 maxExponent).toRat = 10 ^ maxExponent := by
    simp [Decimal.toRat, Decimal.toRat?]
  have ten : (10 : Decimal).toRat = 10 ^ (1 : ℤ) := by
    rw [Decimal.toRat_of_toRat? (Decimal.toRat?_ofNat 10)]
    norm_num
  have zero : (0 : Decimal).toRat = 0 := Decimal.toRat_of_toRat? Decimal.toRat?_zero
  rcases arises with (inLiterals | inExpand) | inFold
  · rcases inLiterals with (rfl | rfl) | rfl
    · rw [largest]
      exact short_tens _
    · rw [ten]
      exact short_tens _
    · rw [zero]
      exact (representable_zero _).short
  · rcases inExpand with (inInner | inZero) | ⟨l', r', expanded, -⟩
    · rcases inInner with (none | none) | ⟨l', r', left, right, inProduct⟩
      · cases none
      · cases none
      · obtain rfl := Except.ok.inj left
        obtain rfl := Except.ok.inj right
        exact short_product largest ten (by decide +kernel) inProduct
    · cases inZero
    · exact absurd expanded (ne_ok_of_none (by decide +kernel))
  · obtain ⟨e', expanded, -⟩ := inFold
    exact absurd expanded (ne_ok_of_none (by decide +kernel))

/-- The variable `x` stands for the text `-5`. -/
def textContext : Context :=
  Context.initial.bind "x" (.ofName "-5")

/-- `+(-x)^2` -/
def signedSquare : Expr :=
  .unary .positive (.binary .power false (.unary .negative (.var "x")) (.number 2))

/-- A single term adds nothing up. -/
theorem collectNumbers_signedTerm {sign : Sign} {e : Expr} {ms : List Monomial} {q : ℚ}
    (done : (signedTerm sign e ctx).1 = .ok ms) : q ∉ Monomial.collectNumbers [] ms := by
  obtain ⟨m, after, -, rest⟩ := Calc.exists_of_bind
    (show signedTerm sign e ctx = (.ok ms, (signedTerm sign e ctx).2) from Prod.ext done rfl)
  obtain ⟨m', after', -, rest⟩ := Calc.exists_of_bind rest
  obtain ⟨same, -⟩ := Prod.mk.inj rest
  obtain rfl := Except.ok.inj same
  rintro (⟨first, found, -⟩ | ⟨terms, -, none⟩)
  · cases found
  · cases none

theorem valuation_textContext : textContext.valuation "x" = 0 := by
  have text : textContext.lookupVariable "x" = some (.ofName "-5") := by
    with_unfolding_all rfl
  rw [Context.valuation, text]
  rfl

theorem short_signedSquare {q : ℚ} (arises : q ∈ signedSquare.simplifyNumbers textContext) :
    HasDigits ambientDigits q := by
  have zero : HasDigits ambientDigits 0 := (representable_zero _).short
  have two : HasDigits ambientDigits (2 : Decimal).toRat := by
    rw [Decimal.toRat_of_toRat? (Decimal.toRat?_ofNat 2)]
    exact ⟨2, 0, by norm_num, by norm_num [ambientDigits]⟩
  have folded : ((Expr.unary .negative (.var "x")).fold textContext).1 =
      .ok (.unary .negative (.var "x")) := by with_unfolding_all rfl
  have closed : (Expr.binary .power false (.unary .negative (.var "x")) (.number 2)).isClosed
      textContext = true := by decide +kernel
  rcases arises with (inLiterals | inExpand) | ⟨e', expanded, inFold⟩
  · rcases inLiterals with none | rfl
    · cases none
    · exact two
  · rcases inExpand with none | none <;> cases none
  obtain rfl := Except.ok.inj expanded
  rcases inFold with ((inBase | none) | ⟨l', r', left, right, inPower⟩) | ⟨ms, done, inSum⟩
  · rcases inBase with inVariable | ⟨ms, done, inSum⟩
    · change q ∈ (Expr.var "x").monomialNumbers textContext at inVariable
      rw [monomialNumbers_closed (by with_unfolding_all rfl)] at inVariable
      obtain rfl := Set.mem_singleton_iff.1 inVariable
      rw [rationalValue, Expr.value, valuation_textContext]
      exact zero
    · exact absurd inSum (collectNumbers_signedTerm done)
  · cases none
  · obtain rfl := Except.ok.inj (folded.symm.trans left)
    obtain rfl := Except.ok.inj right
    rw [monomialNumbers_closed closed] at inPower
    have base : (Expr.unary .negative (.var "x")).rationalValue textContext.valuation = 0 := by
      simp [rationalValue, Expr.value, signed, valuation_textContext]
    rcases inPower with rfl | (rfl | rfl) | rfl
    · rw [number, rationalValue_power (Decimal.toRat?_ofNat 2), base, zero_pow two_ne_zero]
      exact zero
    · rw [base]
      exact zero
    · rw [rationalValue, Expr.value, valuation_textContext]
      exact zero
    · exact two
  · obtain ⟨l', after, -, rest⟩ := Calc.exists_of_bind (Prod.ext done rfl)
    obtain ⟨r', after', -, rest⟩ := Calc.exists_of_bind rest
    exact absurd inSum (collectNumbers_signedTerm (congrArg Prod.fst rest))

/-- Whether the computation has given this number. -/
def givesNumber (n : Decimal) : Except Fault Expr → Bool
  | .ok (.literal m _) => m == n
  | _ => false

theorem exists_of_givesNumber {result : Except Fault Expr} {n : Decimal}
    (shape : givesNumber n result = true) : ∃ written, result = .ok (.literal n written) := by
  unfold givesNumber at shape
  split at shape
  next m written => exact ⟨written, by rw [eq_of_beq shape]⟩
  next => cases shape

/-- A power of ten that is too large makes the whole computation fail, and the text of a variable
can become a number that the assignment does not know of. -/
theorem simplify_value_lost :
    (overflowing.IsPolynomial ∧
      (∀ q ∈ overflowing.simplifyNumbers Context.initial, HasDigits ambientDigits q) ∧
      ¬ ∃ e', (overflowing.simplify Context.initial).1 = .ok e') ∧
    (signedSquare.IsPolynomial ∧
      (∀ q ∈ signedSquare.simplifyNumbers textContext, HasDigits ambientDigits q) ∧
      ∃ ρ, textContext.Agrees ρ ∧ ∃ e', (signedSquare.simplify textContext).1 = .ok e' ∧
        e'.rationalValue ρ ≠ signedSquare.rationalValue ρ) := by
  constructor
  · have largest : (Decimal.finite false 1 maxExponent).toRat? = some (10 ^ maxExponent) :=
      Decimal.toRat?_tens _
    refine ⟨?_, fun q => short_overflowing, ?_⟩
    · refine .times (.times (.literal largest ?_) (.literal (Decimal.toRat?_ofNat 10) ?_))
        (.literal Decimal.toRat?_zero le_rfl)
      · positivity
      · positivity
    · rintro ⟨e', done⟩
      exact absurd done (ne_ok_of_none (by decide +kernel))
  · have power :
        (Expr.binary .power false (.unary .negative (.var "x")) (.number 2)).IsPolynomial :=
      .power (.unary (.var (c := 'x') rfl (isNameChar_of_isAlpha rfl))) (Decimal.toRat?_ofNat 2)
    obtain ⟨written, simplified⟩ : ∃ written,
        (signedSquare.simplify textContext).1 = .ok (.literal 25 written) :=
      exists_of_givesNumber (by decide +kernel)
    refine ⟨.unary power, fun q => short_signedSquare, textContext.valuation,
      textContext.agrees_valuation, _, simplified, ?_⟩
    rw [rationalValue_literal (Decimal.toRat?_ofNat 25)]
    change ((25 : Nat) : ℚ) ≠ (Expr.binary .power false (.unary .negative (.var "x"))
      (.number 2)).rationalValue textContext.valuation
    rw [number, rationalValue_power (Decimal.toRat?_ofNat 2)]
    simp [rationalValue, Expr.value, signed, valuation_textContext]

end Expr

end Reckon
