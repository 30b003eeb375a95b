import Reckon.Proofs.Frame.Request

/-!
# What requests leave of the settings

Every request but two runs on a copy of the settings from its first step on and so leaves them as
they were, whether it succeeds or fails. `differentiate` and `integrate` derive before they make
the copy, and the exponents of powers are evaluated on the way: the precision may go up and stay
up (`settings_after_requests`).
-/

namespace Reckon

open Calc Context

theorem sameParams_evaluateTree (e : Expr) : Keeps SameParams (evaluateTree e) :=
  sameParams_withParams _

theorem sameParams_bindAll (bindings : List (String × Supplied)) :
    Keeps SameParams (bindAll bindings) := by
  induction bindings with
  | nil => exact ensures_pure trivial
  | cons binding bindings ih =>
    obtain ⟨name, value⟩ := binding
    have bound : ∀ t, Keeps SameParams (Calc.update (·.bind name t)) := by
      intro t
      refine keeps_of_rel fun ctx => ?_
      show (ctx.bind name t).params = ctx.params
      unfold Context.bind Context.updateCurrent
      split <;> rfl
    unfold bindAll
    cases value with
    | term t => exact (keeps_pure t).bind fun t _ => (bound t).bind fun _ _ => ih
    | expression source =>
      exact (sameParams_withParams _).bind fun t _ => (bound t).bind fun _ _ => ih

theorem sameParams_evaluateWith (bindings : List (String × Supplied)) (source : String) :
    Keeps SameParams (evaluateWith bindings source) := by
  unfold evaluateWith
  split
  · exact sameParams_withParams _
  · exact sameParams_withScope ((sameParams_bindAll bindings).bind fun _ _ =>
      sameParams_withParams _)

theorem sameParams_simplify (source : String) : Keeps SameParams (simplify source) :=
  (ensures_tree (P := fun _ => True) fun _ _ _ _ => trivial).bind fun _ _ =>
    sameParams_withParams _

theorem sameParams_findRoots (source : String) (given : List String) :
    Keeps SameParams (findRoots source given) := by
  unfold findRoots
  refine (ensures_tree fun _ _ _ _ => trivial).bind fun e _ =>
    (keeps_unknowns e given).bind fun names _ => ?_
  split
  · exact sameParams_withParams _
  · exact ensures_fail _

theorem sameParams_readMatrix (source : String) : Keeps SameParams (readMatrix source) := by
  unfold readMatrix
  refine (ensures_tree fun _ _ _ _ => trivial).bind fun e _ => ?_
  split
  · refine Ensures.bind (P := fun _ => True) (keeps_mapM fun row _ => ?_)
      fun _ _ => ensures_pure trivial
    exact keeps_mapM fun entry _ => keeps_matrixEntry (sameParams_evaluateTree entry)
  · exact ensures_fail _

/-- What is derived before the copy of the settings is made, and then evaluated on it. -/
theorem raisesPrecision_derived {source : String} {derive : Expr → Calc Expr}
    (advances : ∀ e, Keeps Advances (derive e)) : Keeps RaisesPrecision (do
      let e ← (← Calc.tree source []).inline
      evaluateTree (← derive e)) := by
  refine (ensures_tree (P := fun _ => True) fun _ _ _ _ => trivial).bind fun e _ =>
    (Expr.ensures_inline (P := fun _ => True) trivial).bind fun e' _ =>
    Ensures.bind (P := fun _ => True) ?_ fun e'' _ => ?_
  · exact (advances e').mono (fun _ known => known) (fun _ _ related => related.params)
      fun _ _ => trivial
  · exact (sameParams_evaluateTree e'').mono (fun _ known => known)
      (fun _ _ same => same.raisesPrecision) fun _ _ => trivial

/-- All settings are the same after a request, also after one that fails; only the precision may
be higher after `differentiate` and `integrate`. -/
theorem settings_after_requests (ctx : Context) :
    (∀ bindings source, (evaluateWith bindings source ctx).2.params = ctx.params) ∧
    (∀ source, (simplify source ctx).2.params = ctx.params) ∧
    (∀ source given, (findRoots source given ctx).2.params = ctx.params) ∧
    (∀ source, (readMatrix source ctx).2.params = ctx.params) ∧
    (∀ source wrt, ctx.RaisesPrecision (differentiate source wrt ctx).2) ∧
    (∀ source wrt, ctx.RaisesPrecision (integrate source wrt ctx).2) := by
  refine ⟨fun bindings source => (sameParams_evaluateWith bindings source).rel ctx,
    fun source => (sameParams_simplify source).rel ctx,
    fun source given => (sameParams_findRoots source given).rel ctx,
    fun source => (sameParams_readMatrix source).rel ctx, fun source wrt => ?_,
    fun source wrt => ?_⟩
  · exact (raisesPrecision_derived fun e =>
      (Expr.ensures_derivative (P := fun _ => True) wrt trivial)).rel ctx
  · exact (raisesPrecision_derived fun e =>
      (Expr.ensures_antiderivative (P := fun _ => True) wrt e trivial)).rel ctx

/-- The exponent has fourteen digits, and so has every later result. -/
theorem precision_after_differentiate :
    (evaluate "1/3" Context.initial).1.toOption.map Term.text = some "0.3333333333" ∧
    (evaluate "1/3" (differentiate "x^12345678901234" "x" Context.initial).2).1.toOption.map
      Term.text = some "0.33333333333333" := by
  decide +kernel

end Reckon
