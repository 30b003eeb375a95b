import Reckon.Calculus.Antiderivative
import Reckon.Calculus.Roots
import Reckon.Proofs.Frame.Simplify

/-!
# What deriving, integrating and searching roots leave as they were

Inlining does not touch the context (`ensures_inline`), and only the exponents of powers are
evaluated while a tree is derived or integrated, so the precision goes up at most. The result is
put together from parts of the tree, of the bodies of functions and of the formulas of natives:
it has every property that these have and that building keeps (`Expr.Hereditary`). The search for
roots samples functions that it defines in a scope of its own (`Roots.layered_find`).
-/

namespace Reckon

open Calc Context

/-- A property that trees have if their parts have it. -/
class Expr.Hereditary (P : Expr → Prop) : Prop where
  literal : ∀ n written, P (.literal n written)
  var : ∀ name, P (.var name)
  unary : ∀ {sign e}, P (.unary sign e) ↔ P e
  binary : ∀ {op attached l r}, P (.binary op attached l r) ↔ P l ∧ P r
  call : ∀ {name args}, P (.call name args) ↔ ∀ e ∈ args, P e
  substitute : ∀ {e} {bindings : Bindings}, P e → (∀ entry ∈ bindings, P entry.2) →
    P (e.substitute bindings)
  /-- Formulas have it. -/
  formula : ∀ {formula : String} {v e}, '=' ∉ formula.toList → parse v formula = .ok e → P e

/-- In contexts with `I` the bodies of functions and the derivatives of natives have it. -/
class Expr.Supply (I : Context → Prop) (P : Expr → Prop) : Prop extends Hereditary P where
  body : ∀ {ctx name f}, I ctx → ctx.lookupFunction name = some f → P f.body
  derivative : ∀ {ctx name} {n : Native} {formula v e}, I ctx → ctx.native? name = some n →
    n.derivative = some formula → parse v formula = .ok e → P e

instance : Expr.Supply (fun _ => True) (fun _ => True) where
  literal _ _ := trivial
  var _ := trivial
  unary := Iff.rfl
  binary := ⟨fun _ => ⟨trivial, trivial⟩, fun _ => trivial⟩
  call := ⟨fun _ _ _ => trivial, fun _ => trivial⟩
  substitute _ _ := trivial
  formula _ _ := trivial
  body _ _ := trivial
  derivative _ _ _ _ := trivial

namespace Expr

/-! ## Building -/

section Build

variable {P : Expr → Prop} [Hereditary P] {a b : Expr}

theorem build_number (n : Decimal) : P (.number n) :=
  Hereditary.literal n false

theorem build_sum (left : P a) (right : P b) : P (buildSum a b) := by
  unfold buildSum
  split
  · exact right
  split
  · exact left
  · exact Hereditary.binary.2 ⟨left, right⟩

theorem build_negation (holds : P a) : P (buildNegation a) := by
  unfold buildNegation
  split
  · exact holds
  split
  · exact Hereditary.unary.1 holds
  · exact Hereditary.unary.2 holds

theorem build_difference (left : P a) (right : P b) : P (buildDifference a b) := by
  unfold buildDifference
  split
  · exact left
  split
  · exact build_negation right
  · exact Hereditary.binary.2 ⟨left, right⟩

theorem build_product (left : P a) (right : P b) : P (buildProduct a b) := by
  unfold buildProduct
  split
  · exact build_number 0
  split
  · exact right
  split
  · exact left
  · exact Hereditary.binary.2 ⟨left, right⟩

theorem build_quotient (left : P a) (right : P b) : P (buildQuotient a b) := by
  unfold buildQuotient
  split
  · exact left
  split
  · exact left
  · exact Hereditary.binary.2 ⟨left, right⟩

theorem build_power (left : P a) (right : P b) : P (buildPower a b) := by
  unfold buildPower
  split
  · exact left
  · exact Hereditary.binary.2 ⟨left, right⟩

theorem build_call (name : String) (holds : P a) : P (.call name [a]) :=
  Hereditary.call.2 (List.forall_mem_singleton.2 holds)

theorem build_literal {n : Decimal} {e : Expr} (done : Monomial.literal n = .ok e) : P e := by
  obtain ⟨negative, -, done⟩ := exists_of_ok_bind done
  cases negative with
  | false =>
    cases done
    exact build_number n
  | true =>
    obtain ⟨magnitude, -, done⟩ := exists_of_ok_bind done
    cases done
    exact Hereditary.unary.2 (build_number magnitude)

end Build

/-! ## Inlining -/

variable {I : Context → Prop} {P : Expr → Prop}

section Inline

variable {R : Context → Context → Prop} [Frame R] [Stable I R] {again : Expr → Calc Expr}

mutual

theorem ensures_inlineWith [Supply I P] (next : ∀ e, P e → Ensures I R (again e) P) :
    ∀ e : Expr, P e → Ensures I R (e.inlineWith again) P
  | .call name args, holds => by
    rw [inlineWith]
    refine (ensures_inlineAllWith next args (Hereditary.call.1 holds)).bind
      fun args' arguments => ?_
    refine (ensures_look (P := fun found => ∀ f, found = some f → P f.body)
      fun ctx known f found => Supply.body known found).bind fun found bodies => ?_
    cases found with
    | none => exact ensures_pure (Hereditary.call.2 arguments)
    | some f =>
      refine (keeps_lift _).ensures.bind fun _ _ => next _ ?_
      refine Hereditary.substitute (bodies f rfl) fun entry member => ?_
      exact arguments _ (List.of_mem_zip member).2
  | .binary op attached l r, holds => by
    obtain ⟨left, right⟩ := Hereditary.binary.1 holds
    rw [inlineWith]
    exact (ensures_inlineWith next l left).bind fun l' here =>
      (ensures_inlineWith next r right).bind fun r' here' =>
      ensures_pure (Hereditary.binary.2 ⟨here, here'⟩)
  | .unary sign e, holds => by
    rw [inlineWith]
    exact (ensures_inlineWith next e (Hereditary.unary.1 holds)).bind fun e' here =>
      ensures_pure (Hereditary.unary.2 here)
  | .literal .., holds => ensures_pure holds
  | .var _, holds => ensures_pure holds
  | .definition .., holds => ensures_pure holds
  | .vector _, holds => ensures_pure holds
  | .matrix _, holds => ensures_pure holds
  | .empty, holds => ensures_pure holds

theorem ensures_inlineAllWith [Supply I P] (next : ∀ e, P e → Ensures I R (again e) P) :
    ∀ es : List Expr, (∀ e ∈ es, P e) →
      Ensures I R (inlineAllWith again es) fun es' => ∀ e ∈ es', P e
  | [], _ => ensures_pure fun _ member => absurd member List.not_mem_nil
  | e :: es, all => by
    obtain ⟨first, others⟩ := List.forall_mem_cons.1 all
    rw [inlineAllWith]
    exact (ensures_inlineWith next e first).bind fun e' here =>
      (ensures_inlineAllWith next es others).bind fun es' rest =>
      ensures_pure (List.forall_mem_cons.2 ⟨here, rest⟩)

end

theorem ensures_inlineWithin [Supply I P] (fuel : Nat) (e : Expr) (holds : P e) :
    Ensures I R (inlineWithin fuel e) P := by
  induction fuel generalizing e with
  | zero => exact ensures_fail _
  | succ fuel ih => exact ensures_inlineWith ih e holds

theorem ensures_inline [Supply I P] {e : Expr} (holds : P e) : Ensures I R e.inline P :=
  ensures_inlineWithin _ e holds

end Inline

/-! ## Deriving -/

variable {R : Context → Context → Prop} [RaisingFrame R] [Stable I R]

theorem ensures_buildLog [Hereditary P] {a : Expr} (holds : P a) :
    Ensures I R (buildLog a) P := by
  unfold buildLog
  split
  · refine (keeps_look _).ensures.bind fun constant _ => ?_
    split
    · exact ensures_pure (build_number 1)
    · exact ensures_pure (build_call "ln" holds)
  · exact ensures_pure (build_call "ln" holds)

/-- A formula with a tree in place of `x`. -/
theorem ensures_ofFormula [Hereditary P] {formula : String} {x : Expr}
    (reads : ∀ v e, parse v formula = .ok e → P e) (holds : P x) :
    Ensures I R (ofFormula formula x) P := by
  unfold ofFormula
  refine (ensures_tree (P := P) fun ctx e _ done => ?_).bind fun e here => ensures_pure ?_
  · unfold Context.read at done
    split at done
    next read =>
      cases done
      exact reads _ e read
    next => cases done
  · exact Hereditary.substitute here (List.forall_mem_singleton.2 holds)

theorem ensures_derivePower [Hereditary P] {base exponent : Expr} {dBase dExponent : Calc Expr}
    (left : P base) (right : P exponent) (dLeft : Ensures I R dBase P)
    (dRight : Ensures I R dExponent P) (baseVaries exponentVaries : Bool) :
    Ensures I R (derivePower base exponent dBase dExponent baseVaries exponentVaries) P := by
  unfold derivePower
  refine ensures_join dLeft (ensures_pure (build_number 0)) fun d varies => ?_
  cases exponentVaries with
  | false =>
    -- the one place where something is evaluated
    refine (keeps_value? exponent).ensures.bind fun value _ => ?_
    cases value with
    | some n =>
      refine (keeps_decimal _).ensures.bind fun reduced _ => ?_
      have literal : ∀ m, Ensures I R (Calc.decimal (Monomial.literal m)) P :=
        fun m => ensures_decimal fun e done => build_literal done
      have power := (literal reduced).map fun e here => build_power left here
      refine ensures_join (ensures_pure (build_number 1)) power fun p raised => ?_
      exact (literal n).bind fun factor here =>
        ensures_pure (build_product (build_product here raised) varies)
    | none =>
      have reduced : P (.binary .minus false exponent (.number 1)) :=
        Hereditary.binary.2 ⟨right, build_number 1⟩
      exact ensures_pure
        (build_product (build_product right (build_power left reduced)) varies)
  | true =>
    have power : P (buildPower base exponent) := build_power left right
    refine dRight.bind fun dExponent here => (ensures_buildLog left).bind fun log there => ?_
    split
    · exact ensures_pure (build_product (build_product power there) here)
    · exact ensures_pure (build_product power
        (build_sum (build_product here there) (build_product right (build_quotient varies left))))

theorem ensures_deriveBinary [Hereditary P] (wrt : String) (op : Operator) {l r : Expr}
    {dLeft dRight : Calc Expr} (left : P l) (right : P r) (first : Ensures I R dLeft P)
    (second : Ensures I R dRight P) :
    Ensures I R (deriveBinary wrt op l r dLeft dRight) P := by
  unfold deriveBinary
  split
  · exact first.bind fun a here => second.bind fun b there => ensures_pure (build_sum here there)
  split
  · exact first.bind fun a here => second.bind fun b there =>
      ensures_pure (build_difference here there)
  split
  · exact ensures_fail _
  dsimp only
  split
  · exact ensures_pure (build_number 0)
  split
  · split
    · exact second.bind fun b there => ensures_pure (build_product left there)
    split
    · exact first.bind fun a here => ensures_pure (build_product here right)
    · exact first.bind fun a here => second.bind fun b there =>
        ensures_pure (build_sum (build_product here right) (build_product left there))
  · split
    · exact first.bind fun a here => ensures_pure (build_quotient here right)
    · exact first.bind fun a here => second.bind fun b there => ensures_pure (build_quotient
        (build_difference (build_product here right) (build_product left there))
        (build_power right (build_number 2)))
  · exact ensures_derivePower left right first second _ _

theorem ensures_deriveCall [Supply I P] (wrt name : String) {args : List Expr} {dArg : Calc Expr}
    (arguments : ∀ e ∈ args, P e) (inner : Ensures I R dArg P) :
    Ensures I R (deriveCall wrt name args dArg) P := by
  unfold deriveCall
  refine (ensures_look (P := fun found => ∀ n formula, found = some n →
    n.derivative = some formula → ∀ v e, parse v formula = .ok e → P e)
    fun ctx known n formula found rule v e => Supply.derivative known found rule).bind
    fun found formulas => ?_
  cases found with
  | none => exact ensures_fail _
  | some n =>
    refine (keeps_lift _).ensures.bind fun _ _ => ?_
    split
    · exact ensures_pure (build_number 0)
    split
    next _ formula arg _ rule _ =>
      refine (ensures_ofFormula (formulas n formula rfl rule) (arguments arg (.head _))).bind
        fun outer here => ?_
      exact inner.bind fun d there => ensures_pure (build_product here there)
    next => exact ensures_fail _

theorem ensures_deriveWith [Supply I P] {onCall : Expr → Calc Expr} (wrt : String)
    (calls : ∀ e, P e → Ensures I R (onCall e) P) :
    ∀ e : Expr, P e → Ensures I R (e.deriveWith onCall wrt) P
  | .literal .., _ => ensures_pure (build_number 0)
  | .empty, _ => ensures_pure (build_number 0)
  | .var _, _ => ensures_pure (build_number _)
  | .unary sign e, holds => by
    rw [deriveWith]
    refine (ensures_deriveWith wrt calls e (Hereditary.unary.1 holds)).bind fun d here => ?_
    cases sign with
    | negative => exact ensures_pure (build_negation here)
    | positive => exact ensures_pure here
  | .binary op _ l r, holds => by
    obtain ⟨left, right⟩ := Hereditary.binary.1 holds
    rw [deriveWith]
    exact ensures_deriveBinary wrt op left right (ensures_deriveWith wrt calls l left)
      (ensures_deriveWith wrt calls r right)
  | .call name args, holds => by
    have arguments := Hereditary.call.1 holds
    have first : Ensures I R (deriveFirst onCall wrt args) P := by
      cases args with
      | nil => exact ensures_pure (build_number 0)
      | cons e es => exact ensures_deriveWith wrt calls e (arguments e (.head _))
    rw [deriveWith]
    refine (keeps_look _).ensures.bind fun found _ => ?_
    split
    · exact calls _ holds
    · exact ensures_deriveCall wrt name arguments first
  | .definition .., _ => ensures_fail _
  | .vector _, _ => ensures_fail _
  | .matrix _, _ => ensures_fail _

theorem ensures_derivative [Supply I P] (wrt : String) {e : Expr} (holds : P e) :
    Ensures I R (e.derivative wrt) P :=
  ensures_deriveWith wrt (fun _ here => (ensures_inline here).bind fun e' inlined =>
    ensures_deriveWith wrt (fun _ _ => ensures_fail _) e' inlined) e holds

/-! ## Integrating -/

theorem ensures_integratePower [Hereditary P] (wrt text : String) {base exponent : Expr}
    (left : P base) (right : P exponent) :
    Ensures I R (integratePower wrt base exponent text) P := by
  have itself : P (.var wrt) := Hereditary.var wrt
  unfold integratePower
  dsimp only
  split
  · refine (keeps_value? exponent).ensures.bind fun value _ => ?_
    cases value with
    | some n =>
      dsimp only
      split
      · exact ensures_pure (build_call "ln" (build_call "abs" itself))
      · refine (keeps_decimal _).ensures.bind fun raised _ => ?_
        refine (ensures_decimal fun e done => build_literal (P := P) done).bind
          fun literal here => ?_
        exact ensures_pure (build_quotient (build_power itself here) here)
    | none =>
      have raised : P (.binary .plus false exponent (.number 1)) :=
        Hereditary.binary.2 ⟨right, build_number 1⟩
      exact ensures_pure (build_quotient (build_power itself raised) raised)
  split
  · exact (ensures_buildLog left).bind fun log here =>
      ensures_pure (build_quotient (build_power left itself) here)
  · exact ensures_fail _

theorem noEquals_integrals : ∀ entry ∈ integrals, '=' ∉ entry.2.toList := by
  decide

/-- The antiderivative of what does not vary and of a call of a native. -/
theorem ensures_antiderivative_other [Hereditary P] (wrt : String) {e : Expr} (holds : P e) :
    Ensures I R (do
      if !e.mentions wrt then return buildProduct e (.var wrt)
      else match e with
        | .call name [arg] =>
          match integrals.lookup name with
          | some formula =>
            if arg.isVar wrt && (← Calc.look (·.isNative name)) then ofFormula formula (.var wrt)
            else Calc.fail (.calculus (.integrate e.text))
          | none => Calc.fail (.calculus (.integrate e.text))
        | e => Calc.fail (.calculus (.integrate e.text))) P := by
  split
  · exact ensures_pure (build_product holds (Hereditary.var wrt))
  split
  · split
    next formula found =>
      have reads : ∀ v e, parse v formula = .ok e → P e := by
        obtain ⟨front, back, shape, -⟩ := List.lookup_eq_some_iff.1 found
        exact fun v e => Hereditary.formula
          (noEquals_integrals _ (shape ▸ List.mem_append_right front (.head back)))
      refine (keeps_look _).ensures.bind fun native _ => ?_
      split
      · exact ensures_ofFormula reads (Hereditary.var wrt)
      · exact ensures_fail _
    next => exact ensures_fail _
  · exact ensures_fail _

theorem ensures_antiderivative [Hereditary P] (wrt : String) : ∀ e : Expr, P e →
    Ensures I R (e.antiderivative wrt) P
  | .var name, holds => by
    rw [antiderivative]
    split
    · exact ensures_pure
        (build_quotient (build_power (Hereditary.var wrt) (build_number 2)) (build_number 2))
    · exact ensures_pure (build_product holds (Hereditary.var wrt))
  | .unary sign e, holds => by
    rw [antiderivative]
    split
    · exact ensures_pure (build_product holds (Hereditary.var wrt))
    · refine (ensures_antiderivative wrt e (Hereditary.unary.1 holds)).bind fun inner here => ?_
      cases sign with
      | negative => exact ensures_pure (build_negation here)
      | positive => exact ensures_pure here
  | .binary op attached l r, holds => by
    obtain ⟨left, right⟩ := Hereditary.binary.1 holds
    have first := ensures_antiderivative wrt l left
    have second := ensures_antiderivative wrt r right
    unfold antiderivative
    dsimp only
    split
    · exact ensures_pure (build_product holds (Hereditary.var wrt))
    split
    · exact first.bind fun a here => second.bind fun b there =>
        ensures_pure (build_sum here there)
    · exact first.bind fun a here => second.bind fun b there =>
        ensures_pure (build_difference here there)
    · split
      · exact second.bind fun b there => ensures_pure (build_product left there)
      split
      · exact first.bind fun a here => ensures_pure (build_product here right)
      · exact ensures_fail _
    · split
      · exact first.bind fun a here => ensures_pure (build_quotient here right)
      split
      · exact ensures_pure (build_product left
          (build_call "ln" (build_call "abs" (Hereditary.var wrt))))
      · exact ensures_fail _
    · exact ensures_integratePower wrt _ left right
    · exact ensures_fail _
  | .literal .., holds => ensures_antiderivative_other wrt holds
  | .call .., holds => ensures_antiderivative_other wrt holds
  | .definition .., holds => ensures_antiderivative_other wrt holds
  | .vector _, holds => ensures_antiderivative_other wrt holds
  | .matrix _, holds => ensures_antiderivative_other wrt holds
  | .empty, holds => ensures_antiderivative_other wrt holds

end Expr

/-! ## Roots -/

namespace Roots

section Closed

variable {T : ∀ {α : Type}, Calc α → Prop}

theorem closed_bracketFrom (closed : Closed T) (values : ∀ f x, T (valueAt f x)) (f : Function)
    (fuel : Nat) (a : Decimal) : T (bracketFrom f fuel a) := by
  induction fuel generalizing a with
  | zero => exact closed.pure _
  | succ fuel ih =>
    unfold bracketFrom
    refine closed.bind (closed.attempt skipsBracket ?_) fun ends => ?_
    · exact closed.bind (closed.decimal _) fun low => closed.bind (values f low) fun _ =>
        closed.bind (values f a) fun _ => closed.pure _
    -- what follows, whether the two ends have different signs or not
    have rest : ∀ found : Bool, T (do
        if found then return some (← Calc.decimal (ambient.neg a), a)
        else bracketFrom f fuel (← Calc.decimal (ambient.mul a 2))) := by
      intro found
      split
      · exact closed.bind (closed.decimal _) fun _ => closed.pure _
      · exact closed.bind (closed.decimal _) fun a' => ih a'
    split
    · exact closed.bind (closed.pure _) rest
    split
    · exact closed.bind (closed.pure _) rest
    · exact closed.bind (closed.decimal _) fun _ => closed.bind (closed.decimal _) fun _ =>
        closed.bind (closed.pure _) rest

theorem closed_newton (closed : Closed T) (values : ∀ f x, T (valueAt f x)) (s : Search)
    (known : List Decimal) (shortStep : Decimal) (fuel : Nat) (x : Decimal) :
    T (newton s known shortStep fuel x) := by
  induction fuel generalizing x with
  | zero => exact closed.pure _
  | succ fuel ih =>
    unfold newton
    refine closed.bind (closed.attempt endsIteration ?_) fun sampled => ?_
    · refine closed.bind (values s.function x) fun y => ?_
      split
      · exact closed.pure _
      · exact closed.bind (values s.derivative x) fun _ => closed.bind (closed.look _) fun _ =>
          closed.bind (closed.decimal _) fun _ => closed.pure _
    split
    · exact closed.pure _
    · exact closed.pure _
    refine closed.bind (closed.look _) fun params => ?_
    dsimp only
    split
    · refine closed.bind (closed.decimal _) fun small => ?_
      split <;> exact closed.pure _
    have rest : ∀ (next : Decimal) (settled : Bool), T (do
        if settled then return some next
        else if ← Calc.decimal (do divergenceLimit.less (← ambient.abs next)) then return none
        else newton s known shortStep fuel next) := by
      intro next settled
      split
      · exact closed.pure _
      refine closed.bind (closed.decimal _) fun beyond => ?_
      split
      · exact closed.pure _
      · exact ih next
    refine closed.bind (closed.decimal _) fun step => closed.bind (closed.decimal _) fun next =>
      closed.bind (closed.decimal _) fun small => ?_
    split
    · exact closed.bind (closed.decimal _) (rest next)
    · exact closed.bind (closed.pure _) (rest next)

theorem closed_nextRoot (closed : Closed T) (values : ∀ f x, T (valueAt f x)) (s : Search)
    (known seen tried starts : List Decimal) : T (nextRoot s known seen tried starts) := by
  induction starts generalizing tried with
  | nil => exact closed.pure _
  | cons start starts ih =>
    unfold nextRoot
    split
    · exact ih tried
    refine closed.bind (closed.look _) fun params => closed.bind (closed.decimal _) fun shortStep =>
      closed.bind (closed_newton closed values s known shortStep _ start) fun found => ?_
    cases found with
    | none => exact ih _
    | some root =>
      refine closed.bind (closed.decimal _) fun rounded => ?_
      split
      · exact ih _
      · exact closed.pure _

theorem closed_gather (closed : Closed T) (values : ∀ f x, T (valueAt f x)) (s : Search)
    (starts : List Decimal) (fuel : Nat) (known roots : List Decimal) :
    T (gather s starts fuel known roots) := by
  induction fuel generalizing known roots with
  | zero => exact closed.pure _
  | succ fuel ih =>
    unfold gather
    refine closed.bind (closed.look _) fun places => closed.bind (closed.decimal _) fun opposites =>
      closed.bind (closed.decimal _) fun seen =>
      closed.bind (closed_nextRoot closed values s known seen [] _) fun found => ?_
    cases found with
    | none => exact closed.pure _
    | some root => exact closed.bind (closed.decimal _) fun rounded => ih _ _

end Closed

/-- The helpers of the search are defined in a scope of their own. -/
theorem layered_find {T S : ∀ {α : Type}, Calc α → Prop} (layers : Layered T S) (e : Expr)
    (name : String) : T (find e name) := by
  have closed := layers.outer
  have simplify : ∀ e : Expr, T e.simplify := fun e => closed.raising
    (Expr.ensures_simplify (I := fun _ => True) (Nat.le_refl e.nesting)).keeps
  have values : ∀ f x, S (valueAt f x) := closed_sample layers.inner
    (fun _ _ _ => layers.inside (layered_callFunction layers depthLimit _ _ _)) ambientDigits
  unfold find
  refine closed.bind (closed.raising (Expr.ensures_inline (P := fun _ => True) trivial))
    fun inlined => closed.bind (closed.look _) fun body => closed.bind (simplify _) fun body' => ?_
  dsimp only
  split
  · exact closed.fail_bind _ _
  refine closed.bind (closed.look _) fun others => ?_
  split
  · exact closed.fail_bind _ _
  refine closed.bind (closed.lift _) fun degree => closed.bind
    (closed.raising (Expr.ensures_derivative (P := fun _ => True) name trivial)) fun slope =>
    closed.bind (simplify _) fun slope' => closed.bind (layers.withScope ?_) fun roots => ?_
  · have inner := layers.inner
    exact inner.bind (layered_synthesize layers _ _) fun function =>
      inner.bind (layered_synthesize layers _ _) fun derivative =>
      inner.bind (inner.look _) fun doublings =>
      inner.bind (closed_bracketFrom inner values function doublings 1) fun ends =>
      closed_gather inner values _ _ _ _ _
  · split
    · exact closed.fail_bind _ _
    · exact closed.pure _

variable {R : Context → Context → Prop} [WideFrame R]

theorem keeps_valueAt (f : Function) (x : Decimal) : Keeps R (valueAt f x) :=
  keeps_sample (keeps_callFunction depthLimit) ambientDigits f x

theorem keeps_find (e : Expr) (name : String) : Keeps R (find e name) :=
  Keeps.widen (layered_find layered_advances e name)

end Roots

end Reckon
