import Reckon.Proofs.Expr.Meaning
import Reckon.Proofs.Frame.Simplify

/-!
# Combinations of atoms

A combination is built from constants and atoms with signs, sums, and products one factor of which
is a constant; so no two atoms are ever multiplied. If the atoms are a variable and powers of bases,
simplifying keeps it so: read as a monomial, such a tree has at most one factor that is no constant.

Results: `ensures_monomial_combination`, `ensures_expand_combination`, `ensures_fold_combination`.
-/

namespace Reckon

open Calc Context

namespace Expr

/-- Literals with signs and operators, and no variables. -/
def IsFixed : Expr → Prop
  | .literal .. => True
  | .unary _ e => e.IsFixed
  | .binary _ _ l r => l.IsFixed ∧ r.IsFixed
  | _ => False

theorem not_occurs_of_fixed {name : String} {e : Expr} (fixed : e.IsFixed) :
    ¬ e.Occurs name := by
  fun_induction IsFixed e with
  | case1 => exact id
  | case2 sign e ih => exact ih fixed
  | case3 op attached l r left right =>
    exact fun occurs => occurs.elim (left fixed.1) (right fixed.2)
  | case4 => exact fixed.elim

theorem compositional_fixed : Compositional fun (_ : Unit) e => IsFixed e where
  number _ _ := trivial
  unary := Iff.rfl
  binary := Iff.rfl
  call fixed := fixed.elim
  definition fixed := fixed.elim

/-- Constants and atoms, signs, sums, and products with a constant. -/
inductive IsCombination (Atom : Expr → Prop) : Expr → Prop
  | fixed {e : Expr} : e.IsFixed → IsCombination Atom e
  | atom {e : Expr} : Atom e → IsCombination Atom e
  | unary {sign : Sign} {e : Expr} : IsCombination Atom e → IsCombination Atom (.unary sign e)
  | plus {attached : Bool} {l r : Expr} :
      IsCombination Atom l → IsCombination Atom r → IsCombination Atom (.binary .plus attached l r)
  | minus {attached : Bool} {l r : Expr} :
      IsCombination Atom l → IsCombination Atom r → IsCombination Atom (.binary .minus attached l r)
  | scaled {attached : Bool} {l r : Expr} :
      IsCombination Atom l → IsCombination Atom r → l.IsFixed ∨ r.IsFixed →
      IsCombination Atom (.binary .times attached l r)

/-- A power of a base with a constant exponent. -/
def IsPowerOf (Base : Expr → Prop) (e : Expr) : Prop :=
  ∃ attached base exponent, e = .binary .power attached base exponent ∧ Base base ∧
    exponent.IsFixed

/-- The variable, or a power of a base. -/
def IsAtom (x : String) (Base : Expr → Prop) (e : Expr) : Prop :=
  e = .var x ∨ e.IsPowerOf Base

/-- No powers of anything with a variable. -/
abbrev IsLinear (x : String) : Expr → Prop :=
  IsCombination (IsAtom x fun _ => False)

end Expr

/-! ## Monomials -/

namespace Monomial

open Reckon.Expr

variable {x : String} {Base : Expr → Prop}

/-- At most one factor is no constant: a power of the variable, or one of the others. -/
structure Single (x : String) (Base : Expr → Prop) (m : Monomial) : Prop where
  others : ∀ e ∈ m.others, e.IsCombination (IsAtom x Base)
  single : m.others.Pairwise fun e e' => e.IsFixed ∨ e'.IsFixed
  powers : m.powers = [] ∨
    (∃ n, m.powers = [(x, n)] ∧ (Base (.var x) ∨ n = 1)) ∧ ∀ e ∈ m.others, e.IsFixed

theorem ignoresCoefficient_single : IgnoresCoefficient (Single x Base) :=
  fun _ _ single => ⟨single.others, single.single, single.powers⟩

theorem powers_eq_nil {m : Monomial} (fixed : m.Has IsFixed) : m.powers = [] :=
  List.eq_nil_iff_forall_not_mem.2 fun power member => fixed.1 power member

theorem pairwise_of_fixed {es : List Expr} (allFixed : ∀ e ∈ es, e.IsFixed) :
    es.Pairwise fun e e' => e.IsFixed ∨ e'.IsFixed :=
  List.pairwise_iff_forall_sublist.2 fun sublist =>
    Or.inl (allFixed _ (sublist.subset List.mem_cons_self))

theorem single_of_fixed {m : Monomial} (fixed : m.Has IsFixed) : m.Single x Base where
  others e member := .fixed (fixed.2 e member)
  single := pairwise_of_fixed fixed.2
  powers := Or.inl (powers_eq_nil fixed)

theorem single_ofNumber (n : Decimal) : (ofNumber n).Single x Base :=
  single_of_fixed (has_ofNumber IsFixed n)

theorem single_ofFactor {e : Expr} (combination : e.IsCombination (IsAtom x Base)) :
    (ofFactor e).Single x Base where
  others := List.forall_mem_singleton.2 combination
  single := List.pairwise_singleton _ _
  powers := Or.inl rfl

theorem single_ofPower {n : Decimal} (one : Base (.var x) ∨ n = 1) :
    (ofPower x n).Single x Base where
  others := fun _ none => absurd none List.not_mem_nil
  single := .nil
  powers := Or.inr ⟨⟨n, rfl, one⟩, fun _ none => absurd none List.not_mem_nil⟩

/-- A factor goes to the other monomial. -/
theorem Single.mul_fixed {a b m : Monomial} (left : a.Single x Base) (right : b.Has IsFixed)
    (done : a.mul b = .ok m) : m.Single x Base := by
  obtain ⟨powers, added, done⟩ := exists_of_ok_bind done
  obtain ⟨coefficient, -, done⟩ := exists_of_ok_bind done
  cases done
  rw [powers_eq_nil right] at added
  cases added
  refine ⟨?_, ?_, ?_⟩
  · exact fun e member => (List.mem_append.1 member).elim (left.others e)
      fun inRight => .fixed (right.2 e inRight)
  · exact List.pairwise_append.2 ⟨left.single, pairwise_of_fixed right.2,
      fun e _ e' member => Or.inr (right.2 e' member)⟩
  · refine left.powers.imp_right fun ⟨power, allFixed⟩ => ⟨power, fun e member => ?_⟩
    exact (List.mem_append.1 member).elim (allFixed e) (right.2 e)

theorem Single.fixed_mul {a b m : Monomial} (left : a.Has IsFixed) (right : b.Single x Base)
    (done : a.mul b = .ok m) : m.Single x Base := by
  obtain ⟨powers, added, done⟩ := exists_of_ok_bind done
  obtain ⟨coefficient, -, done⟩ := exists_of_ok_bind done
  cases done
  rw [powers_eq_nil left] at added
  refine ⟨?_, ?_, ?_⟩
  · exact fun e member => (List.mem_append.1 member).elim
      (fun inLeft => .fixed (left.2 e inLeft)) (right.others e)
  · exact List.pairwise_append.2 ⟨pairwise_of_fixed left.2, right.single,
      fun e member e' _ => Or.inl (left.2 e member)⟩
  · rcases right.powers with none | ⟨⟨n, shape, one⟩, allFixed⟩
    · rw [none] at added
      exact Or.inl (Except.ok.inj added).symm
    · right
      rw [shape, List.foldlM_cons] at added
      obtain ⟨powers', first, added⟩ := exists_of_ok_bind added
      cases added
      obtain ⟨sum, summed, first⟩ := exists_of_ok_bind first
      cases first
      refine ⟨⟨sum, rfl, one.imp_right ?_⟩, fun e member => ?_⟩
      · rintro rfl
        have one : ambient.add 0 1 = .ok 1 := by with_unfolding_all rfl
        exact Except.ok.inj (summed.symm.trans one)
      · exact (List.mem_append.1 member).elim (left.2 e) (allFixed e)

/-! ## Trees -/

/-- The factors of the tree of a monomial with one factor that is no constant. -/
theorem Single.factors {m : Monomial} {es : List Expr} (single : m.Single x Base)
    (done : powerFactors m.powers = .ok es) :
    (∀ e ∈ es ++ m.others, e.IsCombination (IsAtom x Base)) ∧
      (es ++ m.others).Pairwise fun e e' => e.IsFixed ∨ e'.IsFixed := by
  rcases single.powers with none | ⟨⟨n, shape, one⟩, allFixed⟩
  · rw [none] at done
    cases done
    exact ⟨single.others, single.single⟩
  · have few : ∀ e, es = [e] → e.IsCombination (IsAtom x Base) →
        (∀ e ∈ es ++ m.others, e.IsCombination (IsAtom x Base)) ∧
          (es ++ m.others).Pairwise fun e e' => e.IsFixed ∨ e'.IsFixed := by
      rintro e rfl combination
      exact ⟨List.forall_mem_cons.2 ⟨combination, single.others⟩,
        List.pairwise_cons.2 ⟨fun e' member => Or.inr (allFixed e' member), single.single⟩⟩
    rw [shape] at done
    unfold powerFactors at done
    split at done
    · cases done
      exact ⟨single.others, single.single⟩
    · split at done
      · cases done
        exact few _ rfl (.atom (Or.inl rfl))
      · next notOne =>
        obtain ⟨exponent, written, done⟩ := exists_of_ok_bind done
        cases done
        refine few _ rfl (.atom (Or.inr ⟨false, .var x, exponent, rfl, one.resolve_right ?_,
          has_literal compositional_fixed (d := ()) written⟩))
        rintro rfl
        exact notOne rfl

/-- A product with at most one factor that is no constant is a combination. -/
theorem combination_foldl {Atom : Expr → Prop} {es : List Expr} {e : Expr}
    (combinations : ∀ e' ∈ e :: es, e'.IsCombination Atom)
    (single : (e :: es).Pairwise fun e e' => e.IsFixed ∨ e'.IsFixed) :
    (es.foldl .juxtaposed e).IsCombination Atom := by
  induction es generalizing e with
  | nil => exact combinations e List.mem_cons_self
  | cons e' es ih =>
    obtain ⟨first, second, others⟩ : _ ∧ _ ∧ _ := by
      simpa only [List.forall_mem_cons] using combinations
    obtain ⟨⟨here, before⟩, after, rest⟩ : (_ ∧ _) ∧ _ ∧ _ := by
      simpa only [List.pairwise_cons, List.forall_mem_cons] using single
    refine ih (List.forall_mem_cons.2 ⟨first.scaled second here, others⟩)
      (List.pairwise_cons.2 ⟨fun e'' member => ?_, rest⟩)
    -- the product is a constant if both factors are
    rcases before e'' member with left | fixed
    · exact (after e'' member).imp_left fun right => ⟨left, right⟩
    · exact Or.inr fixed

theorem combination_product {Atom : Expr → Prop} {magnitude : Decimal} {es : List Expr}
    (combinations : ∀ e ∈ es, e.IsCombination Atom)
    (single : es.Pairwise fun e e' => e.IsFixed ∨ e'.IsFixed) :
    (product magnitude es).IsCombination Atom := by
  have number : (Expr.number magnitude).IsCombination Atom := .fixed trivial
  cases es with
  | nil => exact number
  | cons e es =>
    have whole := combination_foldl combinations single
    unfold product
    dsimp only
    split
    · exact whole
    · exact number.scaled whole (Or.inl trivial)

theorem Single.toExpr {m : Monomial} {e : Expr} (single : m.Single x Base)
    (done : m.toExpr = .ok e) : e.IsCombination (IsAtom x Base) := by
  obtain ⟨es, factors, done⟩ := exists_of_ok_bind done
  obtain ⟨magnitude, -, done⟩ := exists_of_ok_bind done
  obtain ⟨negative, -, done⟩ := exists_of_ok_bind done
  obtain ⟨combinations, few⟩ := single.factors factors
  have whole : (product magnitude (es ++ m.others)).IsCombination (IsAtom x Base) :=
    combination_product combinations few
  cases negative with
  | false =>
    cases done
    exact whole
  | true =>
    cases done
    exact whole.unary

theorem sums_single : Sums (Single x Base) (IsCombination (IsAtom x Base)) where
  ignores := ignoresCoefficient_single
  zero := .fixed trivial
  tree := Single.toExpr
  plus := .plus
  minus := .minus

end Monomial

/-! ## Reading and expanding -/

namespace Expr

open Monomial

variable {I : Context → Prop} [Stable I Advances] {x : String} {Base : Expr → Prop}

theorem ensures_monomial_fixed {e : Expr} (fixed : e.IsFixed) :
    Ensures I Advances e.monomial (Has IsFixed) :=
  ensures_monomial (compositional_fixed.handsDown ()) e fixed

theorem ensures_expand_fixed {e : Expr} (fixed : e.IsFixed) :
    Ensures I Advances e.expand IsFixed :=
  ensures_expand compositional_fixed (d := ()) e fixed

theorem ensures_fold_fixed {e : Expr} (fixed : e.IsFixed) :
    Ensures I Advances e.fold IsFixed :=
  ensures_fold compositional_fixed (d := ()) e fixed

section Reading

variable (letter : ∀ {name : String}, Base (.var name) → name = x)

/-- A number is a monomial of its own. -/
theorem ensures_orNumber {e : Expr} {act : Calc Monomial}
    (read : Ensures I Advances act (Single x Base)) :
    Ensures I Advances (do
      match ← e.value? with
      | some n => return .ofNumber n
      | none => act) (Single x Base) := by
  refine (keeps_value? e).ensures.bind fun value _ => ?_
  cases value with
  | some n => exact ensures_pure (single_ofNumber n)
  | none => exact read

include letter

theorem ensures_monomial_atom {e : Expr} (atom : e.IsAtom x Base) :
    Ensures I Advances e.monomial (Single x Base) := by
  rcases atom with rfl | ⟨attached, base, exponent, rfl, isBase, fixed⟩
  · rw [monomial]
    exact ensures_orNumber (ensures_pure (single_ofPower (Or.inr rfl)))
  · have whole : (Expr.binary .power attached base exponent).IsCombination (IsAtom x Base) :=
      .atom (Or.inr ⟨attached, base, exponent, rfl, isBase, fixed⟩)
    unfold monomial
    refine ensures_orNumber ?_
    split
    next equal => cases equal
    next name _ _ =>
      obtain rfl := letter isBase
      refine (keeps_look _).ensures.bind fun bound _ => ?_
      split
      · exact ensures_pure (single_ofFactor whole)
      · refine (keeps_value? _).ensures.bind fun value _ => ?_
        cases value with
        | some n => exact ensures_pure (single_ofPower (Or.inl isBase))
        | none => exact ensures_pure (single_ofFactor whole)
    next => exact ensures_pure (single_ofFactor whole)

/-- A combination is read as a monomial with at most one factor that is no constant. -/
theorem ensures_monomial_combination {e : Expr} (combination : e.IsCombination (IsAtom x Base)) :
    Ensures I Advances e.monomial (Single x Base) := by
  induction combination with
  | fixed fixed =>
    exact (ensures_monomial_fixed fixed).mono (fun _ known => known)
      (fun _ _ related => related) fun _ => single_of_fixed
  | atom atom => exact ensures_monomial_atom letter atom
  | unary _ ih =>
    rw [monomial]
    exact ensures_orNumber (ih.bind fun m here => ensures_decimal fun m' done =>
      ignoresCoefficient_single.withSign here done)
  | plus left right _ _ =>
    unfold monomial
    exact ensures_orNumber (ensures_pure (single_ofFactor (left.plus right)))
  | minus left right _ _ =>
    unfold monomial
    exact ensures_orNumber (ensures_pure (single_ofFactor (left.minus right)))
  | scaled _ _ fixed left right =>
    unfold monomial
    refine ensures_orNumber ?_
    rcases fixed with fixed | fixed
    · exact (ensures_monomial_fixed fixed).bind fun a here => right.bind fun b here' =>
        ensures_decimal fun m done => here'.fixed_mul here done
    · exact left.bind fun a here => (ensures_monomial_fixed fixed).bind fun b here' =>
        ensures_decimal fun m done => here.mul_fixed here' done

omit letter in
theorem forall_terms_combination {Atom : Expr → Prop} {sign : Sign} {e : Expr}
    (atoms : ∀ e, Atom e → ∀ sign, e.terms sign = [(sign, e)])
    (combination : e.IsCombination Atom) : ∀ t ∈ e.terms sign, t.2.IsCombination Atom := by
  induction combination generalizing sign with
  | fixed fixed =>
    exact fun t member => .fixed
      (forall_terms (compositional_fixed.handsDown ()) fixed t member)
  | atom atom =>
    rw [atoms _ atom]
    exact List.forall_mem_singleton.2 (.atom atom)
  | unary _ ih => exact ih
  | plus _ _ left right =>
    exact fun t member => (List.mem_append.1 member).elim (left t) (right t)
  | minus _ _ left right =>
    exact fun t member => (List.mem_append.1 member).elim (left t) (right t)
  | scaled left right fixed _ _ =>
    exact List.forall_mem_singleton.2 (left.scaled right fixed)

omit letter in
theorem terms_atom {sign : Sign} {e : Expr} (atom : e.IsAtom x Base) :
    e.terms sign = [(sign, e)] := by
  rcases atom with rfl | ⟨attached, base, exponent, rfl, -, -⟩ <;> rfl

/-- The product of a combination and a constant. -/
theorem ensures_expandProduct_combination (attached : Bool) {l r : Expr}
    (left : l.IsCombination (IsAtom x Base)) (right : r.IsCombination (IsAtom x Base))
    (fixed : l.IsFixed ∨ r.IsFixed) :
    Ensures I Advances (expandProduct attached l r) (IsCombination (IsAtom x Base)) := by
  have read : ∀ {e : Expr}, e.IsCombination (IsAtom x Base) → ∀ t ∈ e.terms .positive,
      Ensures I Advances t.2.monomial (Single x Base) := fun combination t member =>
    ensures_monomial_combination letter
      (forall_terms_combination (fun _ atom _ => terms_atom atom) combination t member)
  have readFixed : ∀ {e : Expr}, e.IsFixed → ∀ t ∈ e.terms .positive,
      Ensures I Advances t.2.monomial (Has IsFixed) := fun fixed t member =>
    ensures_monomial_fixed (forall_terms (compositional_fixed.handsDown ()) fixed t member)
  unfold expandProduct
  dsimp only
  split
  · exact ensures_pure (left.scaled right fixed)
  · refine Ensures.bind (P := AllHave (Single x Base)) ?_
      fun ms all => ensures_ofMonomials sums_single all
    rcases fixed with fixed | fixed
    · exact ensures_products (fun here here' => here'.fixed_mul here) ignoresCoefficient_single
        (readFixed fixed) (read right)
    · exact ensures_products Single.mul_fixed ignoresCoefficient_single (read left)
        (readFixed fixed)

/-- What atoms become when they are expanded, combinations of them become combinations of. -/
theorem ensures_expand_combination {Atom : Expr → Prop}
    (atoms : ∀ e, Atom e → Ensures I Advances e.expand (IsCombination (IsAtom x Base))) {e : Expr}
    (combination : e.IsCombination Atom) :
    Ensures I Advances e.expand (IsCombination (IsAtom x Base)) := by
  induction combination with
  | fixed fixed =>
    exact (ensures_expand_fixed fixed).mono (fun _ known => known)
      (fun _ _ related => related) fun _ => .fixed
  | atom atom => exact atoms _ atom
  | unary _ ih =>
    rw [expand]
    exact ih.bind fun e' here => ensures_pure here.unary
  | plus _ _ left right =>
    rw [expand]
    · exact left.bind fun l' here => right.bind fun r' here' => ensures_pure (here.plus here')
    · decide
  | minus _ _ left right =>
    rw [expand]
    · exact left.bind fun l' here => right.bind fun r' here' => ensures_pure (here.minus here')
    · decide
  | scaled _ _ fixed left right =>
    rw [expand]
    rcases fixed with fixed | fixed
    · exact (ensures_expand_fixed fixed).bind fun l' here => right.bind fun r' here' =>
        ensures_expandProduct_combination letter _ (.fixed here) here' (Or.inl here)
    · exact left.bind fun l' here => (ensures_expand_fixed fixed).bind fun r' here' =>
        ensures_expandProduct_combination letter _ here (.fixed here') (Or.inr here')

/-! ## Folding -/

/-- What both passes over a combination give. -/
structure FoldsSingle (I : Context → Prop) (x : String) (Base : Expr → Prop) (e : Expr) : Prop where
  fold : Ensures I Advances e.fold (IsCombination (IsAtom x Base))
  terms : ∀ sign, Ensures I Advances (e.foldTerms sign) (AllHave (Single x Base))

theorem ensures_signedTerm_combination (sign : Sign) {e : Expr}
    (combination : e.IsCombination (IsAtom x Base)) :
    Ensures I Advances (signedTerm sign e) (AllHave (Single x Base)) :=
  ensures_signedTerm ignoresCoefficient_single sign
    (ensures_monomial_combination letter combination)

omit letter in
theorem foldsSingle_fixed {e : Expr} (fixed : e.IsFixed) : e.FoldsSingle I x Base where
  fold := (ensures_fold_fixed fixed).mono (fun _ known => known) (fun _ _ related => related)
    fun _ => .fixed
  terms sign := (ensures_foldTerms compositional_fixed (d := ()) sign e fixed).mono
    (fun _ known => known) (fun _ _ related => related)
    fun _ all m member => single_of_fixed (all m member)

/-- An operation that is no sum is folded part by part and is one term. -/
theorem foldsSingle_binary {op : Operator} {attached : Bool} {l r : Expr} {P Q : Expr → Prop}
    (noSum : op ≠ .plus) (noDifference : op ≠ .minus) (left : Ensures I Advances l.fold P)
    (right : Ensures I Advances r.fold Q)
    (whole : ∀ {l' r'}, P l' → Q r' →
      (Expr.binary op attached l' r').IsCombination (IsAtom x Base)) :
    (Expr.binary op attached l r).FoldsSingle I x Base := by
  constructor
  · rw [fold]
    · exact left.bind fun l' here => right.bind fun r' here' => ensures_pure (whole here here')
    · exact noSum
    · exact noDifference
  · intro sign
    rw [foldTerms]
    · exact left.bind fun l' here => right.bind fun r' here' =>
        ensures_signedTerm_combination letter sign (whole here here')
    · exact noSum
    · exact noDifference

/-- Folding keeps a combination if it keeps the bases. -/
theorem ensures_fold_combination
    (bases : ∀ base, Base base → Ensures I Advances base.fold Base) {e : Expr}
    (combination : e.IsCombination (IsAtom x Base)) : e.FoldsSingle I x Base := by
  induction combination with
  | fixed fixed => exact foldsSingle_fixed fixed
  | atom atom =>
    rcases atom with rfl | ⟨attached, base, exponent, rfl, isBase, fixed⟩
    · have self : (Expr.var x).IsCombination (IsAtom x Base) := .atom (Or.inl rfl)
      exact ⟨ensures_pure self, fun sign => ensures_signedTerm_combination letter sign self⟩
    · exact foldsSingle_binary letter (by decide) (by decide)
        (bases base isBase) (ensures_fold_fixed fixed)
        fun here here' => .atom (Or.inr ⟨attached, _, _, rfl, here, here'⟩)
  | unary _ ih =>
    constructor
    · rw [fold]
      exact (ih.terms _).bind fun ms all => ensures_ofMonomials sums_single all
    · intro sign
      rw [foldTerms]
      exact ih.terms _
  | plus _ _ left right | minus _ _ left right =>
    constructor
    · rw [fold]
      exact (left.terms _).bind fun ms here => (right.terms _).bind fun ms' here' =>
        ensures_ofMonomials sums_single (here.append here')
    · intro sign
      rw [foldTerms]
      exact (left.terms _).bind fun ms here => (right.terms _).bind fun ms' here' =>
        ensures_pure (here.append here')
  | scaled _ _ fixed left right =>
    rcases fixed with fixed | fixed
    · exact foldsSingle_binary letter (by decide) (by decide)
        (ensures_fold_fixed fixed) right.fold
        fun here here' => .scaled (.fixed here) here' (Or.inl here)
    · exact foldsSingle_binary letter (by decide) (by decide)
        left.fold (ensures_fold_fixed fixed)
        fun here here' => .scaled here (.fixed here') (Or.inr here')

end Reading

/-! ## Linear trees -/

theorem eq_of_isLinear_var {name : String} (linear : IsLinear x (.var name)) : name = x := by
  rcases linear with fixed | (same | ⟨_, _, _, power, -⟩)
  · exact fixed.elim
  · exact Expr.var.inj same
  · cases power

theorem IsCombination.eq_of_occurs {Atom : Expr → Prop} {e : Expr} {name : String}
    (combination : e.IsCombination Atom) (atoms : ∀ a, Atom a → a.Occurs name → name = x)
    (occurs : e.Occurs name) : name = x := by
  induction combination with
  | fixed fixed => exact absurd occurs (not_occurs_of_fixed fixed)
  | atom atom => exact atoms _ atom occurs
  | unary _ ih => exact ih occurs
  | plus _ _ left right | minus _ _ left right | scaled _ _ _ left right =>
    exact occurs.elim left right

theorem eq_of_occurs_powerOf {e : Expr} {name : String} (power : e.IsPowerOf Base)
    (bases : ∀ base, Base base → base.Occurs name → name = x) (occurs : e.Occurs name) :
    name = x := by
  obtain ⟨_, base, exponent, rfl, isBase, fixed⟩ := power
  exact occurs.elim (bases base isBase) fun inExponent =>
    absurd inExponent (not_occurs_of_fixed fixed)

theorem eq_of_occurs_linear {e : Expr} {name : String} (linear : e.IsLinear x)
    (occurs : e.Occurs name) : name = x := by
  refine linear.eq_of_occurs (fun a atom inAtom => ?_) occurs
  rcases atom with rfl | power
  · exact inAtom.symm
  · exact eq_of_occurs_powerOf power (fun _ none => none.elim) inAtom

/-- Linear bases do not bring in another variable. -/
theorem eq_of_occurs_combination {e : Expr} {name : String}
    (combination : e.IsCombination (IsAtom x (IsLinear x))) (occurs : e.Occurs name) :
    name = x := by
  refine combination.eq_of_occurs (fun a atom inAtom => ?_) occurs
  rcases atom with rfl | power
  · exact inAtom.symm
  · exact eq_of_occurs_powerOf power (fun _ => eq_of_occurs_linear) inAtom

theorem ensures_expand_linear {e : Expr} (linear : e.IsLinear x) :
    Ensures I Advances e.expand (IsLinear x) := by
  refine ensures_expand_combination (fun none => none.elim) (fun e atom => ?_) linear
  rcases atom with rfl | ⟨_, _, _, -, none, -⟩
  · exact ensures_pure (.atom (Or.inl rfl))
  · exact none.elim

theorem ensures_fold_linear {e : Expr} (linear : e.IsLinear x) :
    Ensures I Advances e.fold (IsLinear x) :=
  (ensures_fold_combination (fun none => none.elim) (fun _ none => none.elim) linear).fold

end Expr

end Reckon
