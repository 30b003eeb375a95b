import Reckon.Proofs.Frame.Evaluate
import Reckon.Simplify

/-!
# What simplifying leaves as it was

Only trees without calls are evaluated while a tree is expanded and folded, so the precision goes up
at most. What holds of operations if and only if it holds of their operands is kept, whatever it is
(`Compositional.ensures_simplify`); so no definition is nested more deeply than before
(`ensures_simplify`).
-/

namespace Reckon

open Calc Context

/-- What each step of a fold keeps, the fold keeps. -/
theorem foldlM_invariant {ε α β : Type} {f : β → α → Except ε β} {P : β → Prop} {xs : List α}
    (step : ∀ x ∈ xs, ∀ b b', P b → f b x = .ok b' → P b') {b b' : β} (start : P b)
    (done : xs.foldlM f b = .ok b') : P b' := by
  induction xs generalizing b with
  | nil =>
    cases done
    exact start
  | cons x xs ih =>
    rw [List.foldlM_cons] at done
    obtain ⟨c, first, rest⟩ := exists_of_ok_bind done
    exact ih (fun x member => step x (.tail _ member)) (step x (.head _) b c start first) rest

/-! ## Properties of trees -/

namespace Expr

/-- The operands of a tree with the property have it too. -/
structure HandsDown (P : Expr → Prop) : Prop where
  unary : ∀ {sign e}, P (.unary sign e) → P e
  binary : ∀ {op attached l r}, P (.binary op attached l r) → P l ∧ P r

/-- Operations have the property if and only if their operands do, and the arguments of a call and
the body of a definition may be replaced by others that have it. For the body it may be another of
the family. -/
structure Compositional {D : Type} (P : D → Expr → Prop) : Prop where
  number : ∀ d n, P d (.number n)
  unary : ∀ {d sign e}, P d (.unary sign e) ↔ P d e
  binary : ∀ {d op attached l r}, P d (.binary op attached l r) ↔ P d l ∧ P d r
  call : ∀ {d name args}, P d (.call name args) →
    (∀ e ∈ args, P d e) ∧ ∀ {args'}, (∀ e ∈ args', P d e) → P d (.call name args')
  definition : ∀ {d name params body source}, P d (.definition name params body source) →
    ∃ d', P d' body ∧ ∀ {body'}, P d' body' → P d (.definition name params body' source)

theorem Compositional.handsDown {D : Type} {P : D → Expr → Prop} (compositional : Compositional P)
    (d : D) : HandsDown (P d) :=
  ⟨compositional.unary.1, compositional.binary.1⟩

end Expr

/-! ## Monomials -/

namespace Monomial

/-- Every variable and every other factor has the property. -/
def Has (P : Expr → Prop) (m : Monomial) : Prop :=
  (∀ power ∈ m.powers, P (.var power.1)) ∧ ∀ e ∈ m.others, P e

/-- All of several monomials have the property. -/
def AllHave (S : Monomial → Prop) (ms : List Monomial) : Prop :=
  ∀ m ∈ ms, S m

theorem AllHave.append {S : Monomial → Prop} {ms ms' : List Monomial} (first : AllHave S ms)
    (second : AllHave S ms') : AllHave S (ms ++ ms') :=
  fun m member => (List.mem_append.1 member).elim (first m) (second m)

theorem allHave_nil {S : Monomial → Prop} : AllHave S [] :=
  fun _ member => absurd member List.not_mem_nil

theorem allHave_cons {S : Monomial → Prop} {m : Monomial} {ms : List Monomial} (first : S m)
    (others : AllHave S ms) : AllHave S (m :: ms) :=
  List.forall_mem_cons.2 ⟨first, others⟩

theorem has_ofNumber (P : Expr → Prop) (n : Decimal) : (ofNumber n).Has P :=
  ⟨fun _ member => absurd member List.not_mem_nil, fun _ member => absurd member List.not_mem_nil⟩

theorem has_ofPower {P : Expr → Prop} {name : String} (holds : P (.var name)) (n : Decimal) :
    (ofPower name n).Has P :=
  ⟨List.forall_mem_singleton.2 holds, fun _ member => absurd member List.not_mem_nil⟩

theorem has_ofFactor {P : Expr → Prop} {e : Expr} (holds : P e) : (ofFactor e).Has P :=
  ⟨fun _ member => absurd member List.not_mem_nil, List.forall_mem_singleton.2 holds⟩

/-- Adding exponents changes no variables but the one. -/
theorem forall_addPower {P : String → Prop} {name : String} {n : Decimal}
    {powers powers' : List (String × Decimal)} (holds : P name)
    (all : ∀ power ∈ powers, P power.1) (done : addPower name n powers = .ok powers') :
    ∀ power ∈ powers', P power.1 := by
  induction powers generalizing powers' with
  | nil =>
    obtain ⟨sum, -, done⟩ := exists_of_ok_bind done
    cases done
    exact List.forall_mem_singleton.2 holds
  | cons power powers ih =>
    obtain ⟨here, others⟩ := List.forall_mem_cons.1 all
    unfold addPower at done
    split at done
    · obtain ⟨sum, -, done⟩ := exists_of_ok_bind done
      cases done
      exact List.forall_mem_cons.2 ⟨here, others⟩
    · obtain ⟨more, added, done⟩ := exists_of_ok_bind done
      cases done
      exact List.forall_mem_cons.2 ⟨here, ih others added⟩

theorem Has.mul {P : Expr → Prop} {a b m : Monomial} (left : a.Has P) (right : b.Has P)
    (done : a.mul b = .ok m) : m.Has P := by
  obtain ⟨powers, added, done⟩ := exists_of_ok_bind done
  obtain ⟨coefficient, -, done⟩ := exists_of_ok_bind done
  cases done
  constructor
  · exact foldlM_invariant (P := fun powers => ∀ power ∈ powers, P (.var power.1))
      (fun power member _ _ before step =>
        forall_addPower (P := fun name => P (.var name)) (right.1 power member) before step)
      left.1 added
  · exact fun e member => (List.mem_append.1 member).elim (left.2 e) (right.2 e)

/-- The property holds whatever the coefficient is. -/
def IgnoresCoefficient (S : Monomial → Prop) : Prop :=
  ∀ (m : Monomial) (c : Decimal), S m → S { m with coefficient := c }

theorem ignoresCoefficient_has (P : Expr → Prop) : IgnoresCoefficient (Has P) :=
  fun _ _ holds => holds

section Coefficient

variable {S : Monomial → Prop} (ignores : IgnoresCoefficient S)

include ignores

theorem IgnoresCoefficient.negate {m m' : Monomial} (holds : S m) (done : m.negate = .ok m') :
    S m' := by
  obtain ⟨coefficient, -, done⟩ := exists_of_ok_bind done
  cases done
  exact ignores m coefficient holds

theorem IgnoresCoefficient.withSign {m m' : Monomial} {sign : Sign} (holds : S m)
    (done : m.withSign sign = .ok m') : S m' := by
  cases sign with
  | positive =>
    cases done
    exact holds
  | negative => exact ignores.negate holds done

theorem AllHave.addTo {m : Monomial} {ms ms' : List Monomial} (all : AllHave S ms) (holds : S m)
    (done : addTo m ms = .ok ms') : AllHave S ms' := by
  induction ms generalizing ms' with
  | nil =>
    cases done
    exact List.forall_mem_singleton.2 holds
  | cons first rest ih =>
    obtain ⟨here, others⟩ := List.forall_mem_cons.1 all
    unfold Monomial.addTo at done
    split at done
    · obtain ⟨coefficient, -, done⟩ := exists_of_ok_bind done
      cases done
      exact allHave_cons (ignores first coefficient here) others
    · obtain ⟨more, added, done⟩ := exists_of_ok_bind done
      cases done
      exact allHave_cons here (ih others added)

theorem AllHave.collect {ms ms' : List Monomial} (all : AllHave S ms)
    (done : collect ms = .ok ms') : AllHave S ms' := by
  obtain ⟨terms, added, done⟩ := exists_of_ok_bind done
  cases done
  have every : AllHave S terms :=
    foldlM_invariant (fun m member _ _ before step => before.addTo ignores (all m member) step)
      allHave_nil added
  intro m member
  simp only [List.mem_append, List.mem_filter] at member
  rcases member with ⟨⟨inside, -⟩, -⟩ | ⟨⟨inside, -⟩, -⟩ <;> exact every m inside

end Coefficient

/-- Monomials of a kind, whose sums and differences are trees of a kind. -/
structure Sums (S : Monomial → Prop) (P : Expr → Prop) : Prop where
  ignores : IgnoresCoefficient S
  zero : P (.number 0)
  tree : ∀ {m e}, S m → m.toExpr = .ok e → P e
  plus : ∀ {l r}, P l → P r → P (.binary .plus false l r)
  minus : ∀ {l r}, P l → P r → P (.binary .minus false l r)

theorem Sums.sum {S : Monomial → Prop} {P : Expr → Prop} (sums : Sums S P) {ms : List Monomial}
    {e : Expr} (all : AllHave S ms) (done : sum ms = .ok e) : P e := by
  cases ms with
  | nil =>
    cases done
    exact sums.zero
  | cons first rest =>
    obtain ⟨here, others⟩ := List.forall_mem_cons.1 all
    obtain ⟨e', firstDone, done⟩ := exists_of_ok_bind done
    refine foldlM_invariant (P := P) (fun m member e e' before step => ?_)
      (sums.tree here firstDone) done
    obtain ⟨negative, -, step⟩ := exists_of_ok_bind step
    cases negative with
    | false =>
      obtain ⟨right, rightDone, step⟩ := exists_of_ok_bind step
      cases step
      exact sums.plus before (sums.tree (others m member) rightDone)
    | true =>
      obtain ⟨negated, negatedDone, step⟩ := exists_of_ok_bind step
      obtain ⟨right, rightDone, step⟩ := exists_of_ok_bind step
      cases step
      exact sums.minus before
        (sums.tree (sums.ignores.negate (others m member) negatedDone) rightDone)

section Tree

variable {D : Type} {P : D → Expr → Prop} (compositional : Expr.Compositional P) {d : D}

include compositional

theorem has_literal {n : Decimal} {e : Expr} (done : literal n = .ok e) : P d e := by
  obtain ⟨negative, -, done⟩ := exists_of_ok_bind done
  cases negative with
  | false =>
    cases done
    exact compositional.number d n
  | true =>
    obtain ⟨magnitude, -, done⟩ := exists_of_ok_bind done
    cases done
    exact compositional.unary.2 (compositional.number d magnitude)

theorem has_powerFactors {powers : List (String × Decimal)} {es : List Expr}
    (all : ∀ power ∈ powers, P d (.var power.1)) (done : powerFactors powers = .ok es) :
    ∀ e ∈ es, P d e := by
  induction powers generalizing es with
  | nil =>
    cases done
    exact fun _ member => absurd member List.not_mem_nil
  | cons power powers ih =>
    obtain ⟨name, n⟩ := power
    obtain ⟨here, others⟩ := List.forall_mem_cons.1 all
    unfold powerFactors at done
    split at done
    · exact ih others done
    · split at done
      · obtain ⟨factors, rest, done⟩ := exists_of_ok_bind done
        cases done
        exact List.forall_mem_cons.2 ⟨here, ih others rest⟩
      · obtain ⟨exponent, first, done⟩ := exists_of_ok_bind done
        obtain ⟨factors, rest, done⟩ := exists_of_ok_bind done
        cases done
        refine List.forall_mem_cons.2 ⟨compositional.binary.2 ⟨here, ?_⟩, ih others rest⟩
        exact has_literal compositional first

theorem has_product {magnitude : Decimal} {factors : List Expr} (all : ∀ e ∈ factors, P d e) :
    P d (product magnitude factors) := by
  have joined : ∀ (es : List Expr) (e : Expr), P d e → (∀ e ∈ es, P d e) →
      P d (es.foldl .juxtaposed e) := by
    intro es
    induction es with
    | nil => exact fun e first _ => first
    | cons e' es ih =>
      intro e first others
      obtain ⟨second, others⟩ := List.forall_mem_cons.1 others
      exact ih _ (compositional.binary.2 ⟨first, second⟩) others
  cases factors with
  | nil => exact compositional.number d magnitude
  | cons factor factors =>
    obtain ⟨first, others⟩ := List.forall_mem_cons.1 all
    have whole := joined factors factor first others
    unfold product
    dsimp only
    split
    · exact whole
    · exact compositional.binary.2 ⟨compositional.number d magnitude, whole⟩

theorem Has.toExpr {m : Monomial} {e : Expr} (holds : m.Has (P d)) (done : m.toExpr = .ok e) :
    P d e := by
  obtain ⟨powers, powersDone, done⟩ := exists_of_ok_bind done
  obtain ⟨magnitude, -, done⟩ := exists_of_ok_bind done
  obtain ⟨negative, -, done⟩ := exists_of_ok_bind done
  have whole : P d (product magnitude (powers ++ m.others)) := by
    refine has_product compositional fun e member => ?_
    exact (List.mem_append.1 member).elim (has_powerFactors compositional holds.1 powersDone e)
      (holds.2 e)
  cases negative with
  | false =>
    cases done
    exact whole
  | true =>
    cases done
    exact compositional.unary.2 whole

theorem sums_has : Sums (Has (P d)) (P d) where
  ignores := ignoresCoefficient_has (P d)
  zero := compositional.number d 0
  tree := Has.toExpr compositional
  plus left right := compositional.binary.2 ⟨left, right⟩
  minus left right := compositional.binary.2 ⟨left, right⟩

end Tree

end Monomial

/-! ## Trees -/

namespace Expr

open Monomial

section Arithmetic

variable {R : Context → Context → Prop} [RaisingFrame R]

/-- Without calls only the precision changes. -/
theorem keeps_evalWith_of_isArithmetic (call : Caller) (digits : Nat) {e : Expr}
    (arithmetic : e.isArithmetic = true) : Keeps R (e.evalWith call digits) := by
  induction e using isArithmetic.induct with
  | case1 sign e ih =>
    rw [isArithmetic] at arithmetic
    rw [evalWith]
    refine (ih arithmetic).bind fun t _ => ?_
    cases sign with
    | negative => exact keeps_lift _
    | positive => exact keeps_pure _
  | case2 op attached l r left right =>
    rw [isArithmetic, Bool.and_eq_true] at arithmetic
    rw [evalWith]
    exact (left arithmetic.1).bind fun _ _ => (right arithmetic.2).bind fun _ _ =>
      (keeps_look _).bind fun _ _ => keeps_lift _
  | case3 | case4 | case5 | case6 => cases arithmetic
  | case7 n written =>
    rw [evalWith]
    cases written with
    | false => exact keeps_pure _
    | true => exact (keeps_raisePrecision n).bind fun _ _ => keeps_pure _
  | case8 name =>
    rw [evalWith]
    exact (keeps_look _).bind fun _ _ => keeps_pure _
  | case9 =>
    rw [evalWith]
    exact keeps_pure _

theorem keeps_eval_of_isArithmetic {e : Expr} (arithmetic : e.isArithmetic = true) :
    Keeps R e.eval :=
  keeps_evalWith_of_isArithmetic _ _ arithmetic

/-- Only a tree without calls is evaluated. -/
theorem keeps_value? (e : Expr) : Keeps R e.value? := by
  unfold value?
  cases arithmetic : e.isArithmetic with
  | false => exact ensures_pure trivial
  | true =>
    refine (keeps_look _).bind fun bound _ => ?_
    cases bound with
    | false => exact ensures_pure trivial
    | true =>
      exact (keeps_eval_of_isArithmetic arithmetic).bind fun t _ => ensures_pure trivial

end Arithmetic

section Factors

variable {I : Context → Prop} {R : Context → Context → Prop} [RaisingFrame R] [Stable I R]
  {P : Expr → Prop} (handsDown : HandsDown P)

/-- A number, or else the tree as a factor. -/
theorem ensures_factor {e : Expr} (holds : P e) :
    Ensures I R (do
      match ← e.value? with
      | some n => return .ofNumber n
      | none => return .ofFactor e) (Has P) := by
  refine (keeps_value? e).ensures.bind fun value _ => ?_
  cases value with
  | some n => exact ensures_pure (has_ofNumber P n)
  | none => exact ensures_pure (has_ofFactor holds)

include handsDown

/-- What is handed down to operands holds of the variables and factors of a monomial. -/
theorem ensures_monomial : ∀ e : Expr, P e → Ensures I R e.monomial (Has P)
  | .var name, holds => by
    rw [monomial]
    refine (keeps_value? _).ensures.bind fun value _ => ?_
    cases value with
    | some n => exact ensures_pure (has_ofNumber P n)
    | none => exact ensures_pure (has_ofPower holds 1)
  | .unary sign e, holds => by
    rw [monomial]
    refine (keeps_value? _).ensures.bind fun value _ => ?_
    cases value with
    | some n => exact ensures_pure (has_ofNumber P n)
    | none =>
      exact (ensures_monomial e (handsDown.unary holds)).bind fun m here =>
        ensures_decimal fun m' done =>
          (ignoresCoefficient_has P).withSign here done
  | .binary op attached l r, holds => by
    have left := ensures_monomial l (handsDown.binary holds).1
    have right := ensures_monomial r (handsDown.binary holds).2
    unfold monomial
    refine (keeps_value? _).ensures.bind fun value _ => ?_
    cases value with
    | some n => exact ensures_pure (has_ofNumber P n)
    | none =>
      dsimp only
      split
      · exact left.bind fun a here => right.bind fun b here' =>
          ensures_decimal fun m done => here.mul here' done
      · refine (keeps_look _).ensures.bind fun bound _ => ?_
        split
        · exact ensures_pure (has_ofFactor holds)
        · refine (keeps_value? _).ensures.bind fun exponent _ => ?_
          cases exponent with
          | some n => exact ensures_pure (has_ofPower (handsDown.binary holds).1 n)
          | none => exact ensures_pure (has_ofFactor holds)
      · exact ensures_pure (has_ofFactor holds)
  | .literal .., holds => ensures_factor holds
  | .call .., holds => ensures_factor holds
  | .definition .., holds => ensures_factor holds
  | .vector _, holds => ensures_factor holds
  | .matrix _, holds => ensures_factor holds
  | .empty, holds => ensures_factor holds

omit [RaisingFrame R] [Stable I R] in
theorem forall_terms {sign : Sign} {e : Expr} (holds : P e) : ∀ t ∈ e.terms sign, P t.2 := by
  fun_induction terms sign e with
  | case1 sign attached l r left right =>
    obtain ⟨here, here'⟩ := handsDown.binary holds
    exact fun t member => (List.mem_append.1 member).elim (left here t) (right here' t)
  | case2 sign attached l r left right =>
    obtain ⟨here, here'⟩ := handsDown.binary holds
    exact fun t member => (List.mem_append.1 member).elim (left here t) (right here' t)
  | case3 sign s e ih => exact ih (handsDown.unary holds)
  | case4 sign e =>
    intro t member
    cases List.mem_singleton.1 member
    exact holds

end Factors

/-! ## Products and sums of monomials -/

section Products

variable {I : Context → Prop} {R : Context → Context → Prop} [Frame R] [Stable I R]
  {S S' T : Monomial → Prop}

section

variable (mul : ∀ {a b m : Monomial}, S a → S' b → a.mul b = .ok m → T m)
  (ignores : IgnoresCoefficient T)

include mul ignores

theorem ensures_productsWith (sign : Sign) {m : Monomial} (factor : S m)
    (right : List (Sign × Expr)) (read : ∀ t ∈ right, Ensures I R t.2.monomial S') :
    Ensures I R (productsWith sign m right) (AllHave T) := by
  induction right with
  | nil => exact ensures_pure allHave_nil
  | cons term right ih =>
    obtain ⟨s, e⟩ := term
    obtain ⟨here, others⟩ := List.forall_mem_cons.1 read
    unfold productsWith
    refine here.bind fun b second => ?_
    refine (ensures_decimal fun _ done => mul factor second done).bind fun p product => ?_
    refine (ensures_decimal fun _ done => ignores.withSign product done).bind fun p' signed => ?_
    exact (ih others).bind fun ms rest => ensures_pure (allHave_cons signed rest)

/-- The products of monomials of one kind with those of another. -/
theorem ensures_products {left right : List (Sign × Expr)}
    (readLeft : ∀ t ∈ left, Ensures I R t.2.monomial S)
    (readRight : ∀ t ∈ right, Ensures I R t.2.monomial S') :
    Ensures I R (products right left) (AllHave T) := by
  induction left with
  | nil => exact ensures_pure allHave_nil
  | cons term left ih =>
    obtain ⟨sign, e⟩ := term
    obtain ⟨here, others⟩ := List.forall_mem_cons.1 readLeft
    unfold products
    refine here.bind fun m factor => ?_
    refine (ensures_productsWith mul ignores sign factor right readRight).bind fun first here => ?_
    exact (ih others).bind fun ms rest => ensures_pure (here.append rest)

end

theorem ensures_signedTerm (ignores : IgnoresCoefficient S) (sign : Sign) {e : Expr}
    (read : Ensures I R e.monomial S) :
    Ensures I R (signedTerm sign e) (AllHave S) := by
  unfold signedTerm
  refine read.bind fun m here => ?_
  refine (ensures_decimal fun _ done => ignores.withSign here done).bind fun m' signed => ?_
  exact ensures_pure (allHave_cons signed allHave_nil)

omit [Stable I R] in
theorem ensures_ofMonomials {P : Expr → Prop} (sums : Sums S P) {ms : List Monomial}
    (all : AllHave S ms) : Ensures I R (ofMonomials ms) P := by
  refine ensures_decimal fun e done => ?_
  obtain ⟨terms, collected, summed⟩ := exists_of_ok_bind done
  exact sums.sum (all.collect sums.ignores collected) summed

end Products

section Compositional

variable {I : Context → Prop} {R : Context → Context → Prop} [RaisingFrame R] [Stable I R]
  {D : Type} {P : D → Expr → Prop}

theorem ensures_expandProduct (compositional : Compositional P) (attached : Bool) {d : D}
    {l r : Expr} (left : P d l) (right : P d r) :
    Ensures I R (expandProduct attached l r) (P d) := by
  have handsDown := compositional.handsDown d
  unfold expandProduct
  dsimp only
  split
  · exact ensures_pure (compositional.binary.2 ⟨left, right⟩)
  · have read : ∀ {e}, P d e → ∀ t ∈ e.terms .positive,
        Ensures I R t.2.monomial (Has (P d)) :=
      fun holds t member => ensures_monomial handsDown _ (forall_terms handsDown holds t member)
    exact (ensures_products Has.mul (ignoresCoefficient_has _) (read left) (read right)).bind
      fun ms all => ensures_ofMonomials (sums_has compositional) all

mutual

theorem ensures_expand (compositional : Compositional P) {d : D} :
    ∀ e : Expr, P d e → Ensures I R e.expand (P d)
  | .binary op attached l r, holds => by
    have left := ensures_expand compositional l (compositional.binary.1 holds).1
    have right := ensures_expand compositional r (compositional.binary.1 holds).2
    cases op
    case times =>
      rw [expand]
      exact left.bind fun l' here => right.bind fun r' here' =>
        ensures_expandProduct compositional attached here here'
    -- the operands of every other operator are expanded on their own
    all_goals
      rw [expand]
      · exact left.bind fun l' here => right.bind fun r' here' =>
          ensures_pure (compositional.binary.2 ⟨here, here'⟩)
      · exact fun equal => nomatch equal
  | .unary sign e, holds => by
    rw [expand]
    exact (ensures_expand compositional e (compositional.unary.1 holds)).bind fun e' here =>
      ensures_pure (compositional.unary.2 here)
  | .call name args, holds => by
    obtain ⟨all, rebuild⟩ := compositional.call holds
    rw [expand]
    exact (ensures_expandAll compositional args all).bind fun es here => ensures_pure (rebuild here)
  | .definition name params body source, holds => by
    obtain ⟨d', inner, rebuild⟩ := compositional.definition holds
    rw [expand]
    exact (ensures_expand compositional body inner).bind fun body' here =>
      ensures_pure (rebuild here)
  | .literal .., holds => ensures_pure holds
  | .var _, holds => ensures_pure holds
  | .vector _, holds => ensures_pure holds
  | .matrix _, holds => ensures_pure holds
  | .empty, holds => ensures_pure holds

theorem ensures_expandAll (compositional : Compositional P) {d : D} :
    ∀ es : List Expr, (∀ e ∈ es, P d e) →
      Ensures I R (expandAll es) fun es' => ∀ e ∈ es', P d e
  | [], all => ensures_pure all
  | e :: es, all => by
    obtain ⟨here, others⟩ := List.forall_mem_cons.1 all
    rw [expandAll]
    exact (ensures_expand compositional e here).bind fun e' first =>
      (ensures_expandAll compositional es others).bind fun es' rest =>
      ensures_pure (List.forall_mem_cons.2 ⟨first, rest⟩)

end

theorem Compositional.ensures_signedTerm (compositional : Compositional P) {d : D} (sign : Sign)
    {e : Expr} (holds : P d e) :
    Ensures I R (signedTerm sign e) (AllHave (Has (P d))) :=
  Expr.ensures_signedTerm (ignoresCoefficient_has _) sign
    (ensures_monomial (compositional.handsDown d) e holds)

mutual

theorem ensures_fold (compositional : Compositional P) {d : D} :
    ∀ e : Expr, P d e → Ensures I R e.fold (P d)
  | .binary op attached l r, holds => by
    obtain ⟨left, right⟩ := compositional.binary.1 holds
    have foldLeft := ensures_fold compositional l left
    have foldRight := ensures_fold compositional r right
    cases op
    case plus | minus =>
      rw [fold]
      exact (ensures_foldTerms compositional .positive l left).bind fun ms here =>
        (ensures_foldTerms compositional _ r right).bind fun ms' here' =>
        ensures_ofMonomials (sums_has compositional) (here.append here')
    all_goals
      rw [fold]
      · exact foldLeft.bind fun l' here => foldRight.bind fun r' here' =>
          ensures_pure (compositional.binary.2 ⟨here, here'⟩)
      · exact fun equal => nomatch equal
      · exact fun equal => nomatch equal
  | .unary sign e, holds => by
    rw [fold]
    exact (ensures_foldTerms compositional sign e (compositional.unary.1 holds)).bind fun ms here =>
      ensures_ofMonomials (sums_has compositional) here
  | .call name args, holds => by
    obtain ⟨all, rebuild⟩ := compositional.call holds
    rw [fold]
    exact (ensures_foldAll compositional args all).bind fun es here => ensures_pure (rebuild here)
  | .definition name params body source, holds => by
    obtain ⟨d', inner, rebuild⟩ := compositional.definition holds
    rw [fold]
    exact (ensures_fold compositional body inner).bind fun body' here => ensures_pure (rebuild here)
  | .literal .., holds => ensures_pure holds
  | .var _, holds => ensures_pure holds
  | .vector _, holds => ensures_pure holds
  | .matrix _, holds => ensures_pure holds
  | .empty, holds => ensures_pure holds

theorem ensures_foldTerms (compositional : Compositional P) {d : D} (sign : Sign) :
    ∀ e : Expr, P d e → Ensures I R (e.foldTerms sign) (AllHave (Has (P d)))
  | .binary op attached l r, holds => by
    obtain ⟨left, right⟩ := compositional.binary.1 holds
    have foldLeft := ensures_fold compositional l left
    have foldRight := ensures_fold compositional r right
    cases op
    case plus | minus =>
      rw [foldTerms]
      exact (ensures_foldTerms compositional sign l left).bind fun ms here =>
        (ensures_foldTerms compositional _ r right).bind fun ms' here' =>
        ensures_pure (here.append here')
    all_goals
      rw [foldTerms]
      · exact foldLeft.bind fun l' here => foldRight.bind fun r' here' =>
          compositional.ensures_signedTerm sign (compositional.binary.2 ⟨here, here'⟩)
      · exact fun equal => nomatch equal
      · exact fun equal => nomatch equal
  | .unary s e, holds => by
    rw [foldTerms]
    exact ensures_foldTerms compositional (s.times sign) e (compositional.unary.1 holds)
  | .call name args, holds => by
    obtain ⟨all, rebuild⟩ := compositional.call holds
    rw [foldTerms]
    exact (ensures_foldAll compositional args all).bind fun es here =>
      compositional.ensures_signedTerm sign (rebuild here)
  | .definition name params body source, holds => by
    obtain ⟨d', inner, rebuild⟩ := compositional.definition holds
    rw [foldTerms]
    exact (ensures_fold compositional body inner).bind fun body' here =>
      compositional.ensures_signedTerm sign (rebuild here)
  | .literal .., holds => compositional.ensures_signedTerm sign holds
  | .var _, holds => compositional.ensures_signedTerm sign holds
  | .vector _, holds => compositional.ensures_signedTerm sign holds
  | .matrix _, holds => compositional.ensures_signedTerm sign holds
  | .empty, holds => compositional.ensures_signedTerm sign holds

theorem ensures_foldAll (compositional : Compositional P) {d : D} :
    ∀ es : List Expr, (∀ e ∈ es, P d e) →
      Ensures I R (foldAll es) fun es' => ∀ e ∈ es', P d e
  | [], all => ensures_pure all
  | e :: es, all => by
    obtain ⟨here, others⟩ := List.forall_mem_cons.1 all
    rw [foldAll]
    exact (ensures_fold compositional e here).bind fun e' first =>
      (ensures_foldAll compositional es others).bind fun es' rest =>
      ensures_pure (List.forall_mem_cons.2 ⟨first, rest⟩)

end

/-- Simplifying keeps what holds of operations if and only if it holds of their operands. -/
theorem Compositional.ensures_simplify (compositional : Compositional P) {d : D} {e : Expr}
    (holds : P d e) : Ensures I R e.simplify (P d) :=
  (ensures_expand compositional e holds).bind fun e' here => ensures_fold compositional e' here

end Compositional

/-- A definition takes one level of what is allowed around it. -/
theorem compositional_nesting : Compositional fun d e => nesting e ≤ d where
  number d _ := Nat.zero_le d
  unary := Iff.rfl
  binary := Nat.max_le
  call shallow := ⟨nestingAll_le.1 shallow, nestingAll_le.2⟩
  definition {_ _ _ body _} shallow :=
    ⟨body.nesting, Nat.le_refl _, fun small => Nat.le_trans (Nat.succ_le_succ small) shallow⟩

/-- No definition is nested more deeply than before. -/
theorem ensures_simplify {I : Context → Prop} {R : Context → Context → Prop} [RaisingFrame R]
    [Stable I R] {d : Nat} {e : Expr} (shallow : e.nesting ≤ d) :
    Ensures I R e.simplify (nesting · ≤ d) :=
  compositional_nesting.ensures_simplify shallow

end Expr

end Reckon
