import Reckon.Proofs.Operation

/-!
# The names that a computation generates

`Calc.Asks act ctx asked` lists the contexts in which a computation generates a name, in order:
a series generates one for its terms, the search for roots two. What it generates in scopes of its
own, on a copy of the settings and before it fails is listed too. A computation is a function, which
can be built in several ways, so several lists are possible; what is shown of them is shown of all.
Every sequence of operations has a list in every context (`Operation.traced_actAll`).
-/

namespace Reckon

open Context

namespace Calc

variable {α β : Type} {act : Calc α}

/-- Run in the context, the computation generates a name in each of the listed contexts, one after
the other. A generated name moves the counter on, so a computation that leaves the counter where it
was has generated none. -/
inductive Asks : {α : Type} → Calc α → Context → List Context → Prop where
  | freshName (ctx : Context) : Asks freshName ctx [ctx]
  | quiet {α : Type} {act : Calc α} {ctx : Context} (same : ctx.SameCounter (act ctx).2) :
      Asks act ctx []
  | bind {α β : Type} {act : Calc α} {next : α → Calc β} {ctx ctx' : Context} {a : α}
      {asked asked' : List Context} (done : act ctx = (.ok a, ctx')) (first : Asks act ctx asked)
      (second : Asks (next a) ctx' asked') : Asks (act >>= next) ctx (asked ++ asked')
  | stop {α β : Type} {act : Calc α} {next : α → Calc β} {ctx ctx' : Context} {fault : Fault}
      {asked : List Context} (failed : act ctx = (.error fault, ctx'))
      (first : Asks act ctx asked) : Asks (act >>= next) ctx asked
  | attempt {α : Type} {act : Calc α} {ctx : Context} {asked : List Context}
      (caught : Fault → Bool) (inside : Asks act ctx asked) : Asks (attempt caught act) ctx asked
  | withScope {α : Type} {act : Calc α} {ctx : Context} {asked : List Context}
      (inside : Asks act ctx.push asked) : Asks (withScope act) ctx asked
  | withParams {α : Type} {act : Calc α} {ctx : Context} {asked : List Context}
      (inside : Asks act ctx asked) : Asks (withParams act) ctx asked

/-- In every context it is known where the computation generates names. -/
def Traced (act : Calc α) : Prop :=
  ∀ ctx, ∃ asked, Asks act ctx asked

theorem Keeps.traced (keeps : Keeps SameCounter act) : Traced act :=
  fun ctx => ⟨[], .quiet (keeps.rel ctx)⟩

theorem Traced.bind {next : α → Calc β} (first : Traced act) (second : ∀ a, Traced (next a)) :
    Traced (act >>= next) := by
  intro ctx
  obtain ⟨asked, first⟩ := first ctx
  rcases run : act ctx with ⟨outcome, ctx'⟩
  cases outcome with
  | ok a =>
    obtain ⟨asked', second⟩ := second a ctx'
    exact ⟨asked ++ asked', .bind run first second⟩
  | error fault => exact ⟨asked, .stop run first⟩

theorem Traced.attempt (caught : Fault → Bool) (traced : Traced act) :
    Traced (attempt caught act) :=
  fun ctx => (traced ctx).imp fun _ => .attempt caught

theorem Traced.withScope (traced : Traced act) : Traced (withScope act) :=
  fun ctx => (traced ctx.push).imp fun _ => .withScope

theorem Traced.withParams (traced : Traced act) : Traced (withParams act) :=
  fun ctx => (traced ctx).imp fun _ => .withParams

theorem traced_freshName : Traced freshName :=
  fun ctx => ⟨[ctx], .freshName ctx⟩

theorem closed_traced : Closed fun {α : Type} (act : Calc α) => Traced act where
  raising := fun keeps => Keeps.traced keeps
  bind := Traced.bind
  attempt := Traced.attempt

end Calc

open Calc

/-! ## What generates no names -/

namespace Context

theorem sameCounter_updateCurrent (ctx : Context) (f : Scope → Scope) :
    ctx.SameCounter (ctx.updateCurrent f) := by
  unfold SameCounter updateCurrent
  split <;> rfl

theorem sameCounter_bindAll (bindings : List (String × Term)) (ctx : Context) :
    ctx.SameCounter (bindings.foldl (fun ctx (name, t) => ctx.bind name t) ctx) := by
  induction bindings generalizing ctx with
  | nil => exact Frame.refl ctx
  | cons binding bindings ih =>
    exact Frame.trans (sameCounter_updateCurrent ctx _) (ih (ctx.bind binding.1 binding.2))

theorem sameCounter_remove {ctx ctx' : Context} {name : String} {f : Function}
    (done : ctx.remove name = .ok (f, ctx')) : ctx.SameCounter ctx' := by
  unfold Context.remove at done
  split at done
  · cases done
  · split at done <;>
    · cases done
      rfl

end Context

theorem sameCounter_define (f : Function) : Keeps SameCounter (Calc.define f) := by
  refine keeps_of_rel fun ctx => ?_
  unfold Calc.define
  split
  next done =>
    obtain ⟨-, -, -, rfl⟩ := define_eq_ok.1 done
    exact sameCounter_updateCurrent ctx _
  next => exact Frame.refl ctx

theorem sameCounter_bind (name : String) (t : Term) :
    Keeps SameCounter (Calc.update (·.bind name t)) :=
  keeps_of_rel fun ctx => sameCounter_updateCurrent ctx _

theorem sameCounter_removeFunction (name : String) :
    Keeps SameCounter (removeFunction name) := by
  refine keeps_of_rel fun ctx => ?_
  unfold removeFunction
  split
  next done => exact sameCounter_remove done
  next => exact Frame.refl ctx

theorem sameCounter_popScope : Keeps SameCounter popScope := by
  refine keeps_of_rel fun ctx => ?_
  unfold popScope
  split
  next done =>
    obtain ⟨scope, outer, -, rfl⟩ := pop_eq_ok.1 done
    rfl
  next => exact Frame.refl ctx

/-! ## Requests -/

theorem layered_traced : Layered (fun {α : Type} (act : Calc α) => Traced act)
    fun {α : Type} (act : Calc α) => Traced act where
  outer := closed_traced
  inner := closed_traced
  inside := id
  withScope := Traced.withScope
  freshName := traced_freshName
  define := fun f => (sameCounter_define f).traced
  bind := fun bindings => Keeps.traced (keeps_of_rel (sameCounter_bindAll bindings))

theorem traced_tree (source : String) (names : List String) : Traced (tree source names) :=
  closed_traced.raising (ensures_tree fun _ _ _ _ => trivial)

theorem traced_callFunction (fuel digits : Nat) (name : String) (inputs : List Term) :
    Traced (callFunction fuel digits name inputs) :=
  layered_callFunction layered_traced fuel digits name inputs

theorem traced_applyToExpressions (n : Native) (args : List Expr) :
    Traced (applyToExpressions (callFunction depthLimit) n args) :=
  layered_applyToExpressions layered_traced (traced_callFunction depthLimit) n args

theorem traced_eval (e : Expr) : Traced e.eval :=
  closed_evalWith closed_traced (traced_callFunction depthLimit) traced_applyToExpressions
    (fun f _ => (sameCounter_define f).traced) ambientDigits e (Nat.le_refl _)

theorem traced_answer (e : Expr) : Traced e.answer := by
  unfold Expr.answer
  split
  · exact closed_traced.pure _
  · exact (ensures_prepare (Nat.le_refl _)).keeps.traced.bind fun e' =>
      (traced_eval e').bind fun t => (keeps_settle t).traced

theorem traced_evaluateTree (e : Expr) : Traced (evaluateTree e) :=
  (traced_answer e).withParams

theorem traced_evaluate (source : String) : Traced (evaluate source) :=
  ((traced_tree source []).bind traced_answer).withParams

theorem traced_bindAll (bindings : List (String × Supplied)) : Traced (bindAll bindings) := by
  induction bindings with
  | nil => exact closed_traced.pure ()
  | cons binding bindings ih =>
    obtain ⟨name, value⟩ := binding
    have rest : ∀ t, Traced (Calc.update (·.bind name t) >>= fun _ => bindAll bindings) :=
      fun t => (sameCounter_bind name t).traced.bind fun _ => ih
    unfold bindAll
    cases value with
    | term t => exact (closed_traced.pure t).bind rest
    | expression source => exact (traced_evaluate source).bind rest

theorem traced_evaluateWith (bindings : List (String × Supplied)) (source : String) :
    Traced (evaluateWith bindings source) := by
  unfold evaluateWith
  split
  · exact traced_evaluate source
  · exact ((traced_bindAll bindings).bind fun _ => traced_evaluate source).withScope

theorem traced_simplify (source : String) : Traced (simplify source) :=
  (traced_tree source []).bind fun e => Traced.withParams
    (Expr.ensures_simplify (I := fun _ => True) (Nat.le_refl e.nesting)).keeps.traced

theorem traced_inline (e : Expr) : Traced e.inline :=
  Keeps.traced (Expr.ensures_inline (P := fun _ => True) trivial)

theorem traced_differentiate (source wrt : String) : Traced (differentiate source wrt) :=
  (traced_tree source []).bind fun e => (traced_inline e).bind fun _ =>
    (Keeps.traced (Expr.ensures_derivative (P := fun _ => True) wrt trivial)).bind
      traced_evaluateTree

theorem traced_integrate (source wrt : String) : Traced (integrate source wrt) :=
  (traced_tree source []).bind fun e => (traced_inline e).bind fun e' =>
    (Keeps.traced (Expr.ensures_antiderivative (P := fun _ => True) wrt e' trivial)).bind
      traced_evaluateTree

theorem traced_findRoots (source : String) (given : List String) :
    Traced (findRoots source given) := by
  unfold findRoots
  refine (traced_tree source []).bind fun e => (keeps_unknowns e given).traced.bind fun names => ?_
  split
  · exact (Roots.layered_find layered_traced e _).withParams
  · exact closed_traced.fail _

theorem traced_defineFunction (source : String) : Traced (defineFunction source) := by
  unfold defineFunction
  refine (traced_tree source []).bind fun e => ?_
  split
  · exact (sameCounter_define _).traced.bind fun _ => closed_traced.pure _
  · exact closed_traced.fail _

theorem traced_mapM {α β : Type} {f : α → Calc β} (each : ∀ a, Traced (f a)) (xs : List α) :
    Traced (xs.mapM f) := by
  induction xs with
  | nil =>
    rw [List.mapM_nil]
    exact closed_traced.pure []
  | cons x xs ih =>
    rw [List.mapM_cons]
    exact (each x).bind fun _ => ih.bind fun _ => closed_traced.pure _

theorem traced_readMatrix (source : String) : Traced (readMatrix source) := by
  unfold readMatrix
  refine (traced_tree source []).bind fun e => ?_
  split
  · refine (traced_mapM (traced_mapM fun entry => ?_) _).bind fun _ => closed_traced.pure _
    refine (traced_evaluateTree entry).bind fun t => ?_
    split
    · exact closed_traced.pure _
    · exact closed_traced.fail _
  · exact closed_traced.fail _

theorem traced_callNative (name : String) (inputs : List Term) :
    Traced (callNative name inputs) := by
  unfold callNative
  refine (closed_traced.look _).bind fun found => ?_
  split
  · split
    · exact closed_refuseTerms closed_traced _ inputs
    · exact closed_applyToValues closed_traced _ inputs
  · exact closed_traced.fail _

theorem traced_callNativeOn (name : String) (args : List Expr) :
    Traced (callNativeOn name args) := by
  unfold callNativeOn
  refine (closed_traced.look _).bind fun found => ?_
  split
  · split
    · exact traced_applyToExpressions _ args
    · exact closed_refuseExpressions closed_traced _ args
  · exact closed_traced.fail _

/-! ## Operations -/

namespace Operation

theorem traced_discard {α : Type} {act : Calc α} (traced : Traced act) : Traced (discard act) := by
  change Traced ((fun _ => ()) <$> act)
  rw [map_eq_pure_bind]
  exact traced.bind fun _ => closed_traced.pure ()

mutual

theorem traced_act : ∀ op : Operation, Traced op.act
  | .define f => (sameCounter_define f).traced
  | .defineFunction source => traced_discard (traced_defineFunction source)
  | .removeFunction name => traced_discard (sameCounter_removeFunction name).traced
  | .bind name t => (sameCounter_bind name t).traced
  | .pushScope => Keeps.traced (keeps_of_rel fun _ => rfl)
  | .popScope => sameCounter_popScope.traced
  | .freshName => traced_discard traced_freshName
  | .setParams _ => Keeps.traced (keeps_of_rel fun _ => rfl)
  | .eval e => traced_discard (traced_eval e)
  | .evaluateTree e => traced_discard (traced_evaluateTree e)
  | .evaluate bindings source => traced_discard (traced_evaluateWith bindings source)
  | .simplify source => traced_discard (traced_simplify source)
  | .differentiate source wrt => traced_discard (traced_differentiate source wrt)
  | .integrate source wrt => traced_discard (traced_integrate source wrt)
  | .findRoots source given => traced_discard (traced_findRoots source given)
  | .readMatrix source => traced_discard (traced_readMatrix source)
  | .call name inputs => traced_discard (traced_callFunction depthLimit _ name inputs)
  | .callNative name inputs => traced_discard (traced_callNative name inputs)
  | .callNativeOn name args => traced_discard (traced_callNativeOn name args)
  | .withScope steps => (traced_actAll steps).withScope
  | .withParams steps => (traced_actAll steps).withParams

theorem traced_actAll : ∀ ops : List Operation, Traced (actAll ops)
  | [] => closed_traced.pure ()
  | op :: ops => ((traced_act op).attempt _).bind fun _ => traced_actAll ops

end

end Operation

end Reckon
