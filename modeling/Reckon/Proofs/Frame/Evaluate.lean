import Reckon.Proofs.Expr.Nesting
import Reckon.Proofs.Frame

/-!
# What an evaluation leaves as it was

An evaluation has every closed property that the definitions and calls in its tree have
(`closed_evalWith`). A call of a function runs in its own scope, and so does a series
(`layered_callFunction`), so they advance the context at most (`keeps_callFunction`). A tree does
the same as long as nothing in it is a definition; in general it keeps every relation that the
definitions in it keep (`keeps_evalWith`).
-/

namespace Reckon

open Calc Context

variable {R : Context → Context → Prop}

theorem keeps_raisePrecision [RaisingFrame R] (n : Decimal) : Keeps R (raisePrecision n) := by
  refine keeps_of_rel fun ctx => ?_
  rw [raisePrecision, update_apply]
  dsimp only
  split
  next longer => exact RaisingFrame.raises ⟨rfl, rfl⟩ ⟨_, Nat.le_of_lt longer, rfl⟩ rfl
  next => exact Frame.refl ctx

/-! ## Loops and trees -/

section Closed

variable {T : ∀ {α : Type}, Calc α → Prop}

/-- A sum has what its terms have. -/
theorem closed_sumFrom (closed : Closed T) {term : Decimal → Calc Decimal}
    (terms : ∀ x, T (term x)) (p : Precision) (epsilon : Decimal) (fuel n : Nat)
    (total : Decimal) : T (sumFrom term p epsilon fuel n total) := by
  induction fuel generalizing n total with
  | zero => exact closed.pure _
  | succ fuel ih =>
    unfold sumFrom
    refine closed.bind (terms _) fun y => closed.bind (closed.decimal _) fun next => ?_
    split
    · refine closed.bind (closed.decimal _) fun change =>
        closed.bind (closed.decimal _) fun settled => ?_
      split
      · exact closed.pure _
      · exact ih _ _
    · exact ih _ _

theorem closed_applyToValues (closed : Closed T) (n : Native) (inputs : List Term) :
    T (applyToValues n inputs) :=
  closed.bind (closed.look _) fun _ => closed.lift _

theorem closed_refuseTerms (closed : Closed T) (n : Native) (inputs : List Term) :
    T (refuseTerms n inputs) := by
  unfold refuseTerms
  refine closed.bind (closed.lift _) fun _ => ?_
  split <;> exact closed.fail _

theorem closed_refuseExpressions (closed : Closed T) (n : Native) (args : List Expr) :
    T (refuseExpressions n args) := by
  unfold refuseExpressions
  refine closed.bind (closed.lift _) fun _ => ?_
  split <;> exact closed.fail _

variable {call : Caller} {d : Nat}

mutual

/-- A tree whose definitions are nested at most `d` deep has what those definitions and the calls
in it have. -/
theorem closed_evalWith (closed : Closed T)
    (calls : ∀ digits name inputs, T (call digits name inputs))
    (natives : ∀ n args, T (applyToExpressions call n args))
    (defines : ∀ f : Function, f.body.nesting < d → T (define f)) (digits : Nat) :
    ∀ e : Expr, e.nesting ≤ d → T (e.evalWith call digits)
  | .literal n written, _ => by
    rw [Expr.evalWith]
    cases written with
    | false => exact closed.pure _
    | true => exact closed.bind (closed.raising (keeps_raisePrecision n)) fun _ => closed.pure _
  | .var name, _ => by
    rw [Expr.evalWith]
    exact closed.bind (closed.look _) fun _ => closed.pure _
  | .unary sign e, shallow => by
    rw [Expr.evalWith]
    refine closed.bind (closed_evalWith closed calls natives defines digits e shallow) fun t => ?_
    cases sign with
    | negative => exact closed.lift _
    | positive => exact closed.pure _
  | .binary op attached l r, shallow => by
    obtain ⟨left, right⟩ := Nat.max_le.1 shallow
    rw [Expr.evalWith]
    exact closed.bind (closed_evalWith closed calls natives defines digits l left) fun _ =>
      closed.bind (closed_evalWith closed calls natives defines digits r right) fun _ =>
      closed.bind (closed.look _) fun _ => closed.lift _
  | .call name args, shallow => by
    have arguments := closed_evalAllWith closed calls natives defines digits args shallow
    rw [Expr.evalWith]
    refine closed.bind (closed.look _) fun f => ?_
    split
    · exact closed.bind arguments fun _ => calls _ _ _
    · refine closed.bind (closed.look _) fun native => ?_
      cases native with
      | none => exact closed.fail _
      | some n =>
        dsimp only
        split
        · exact natives n args
        · exact closed.bind arguments fun _ => closed_applyToValues closed n _
  | .definition name params body source, shallow => by
    rw [Expr.evalWith]
    exact closed.bind (defines ⟨name, params, body, source⟩ shallow) fun _ => closed.pure _
  | .vector _, _ => by
    rw [Expr.evalWith]
    exact closed.fail _
  | .matrix _, _ => by
    rw [Expr.evalWith]
    exact closed.fail _
  | .empty, _ => by
    rw [Expr.evalWith]
    exact closed.pure _

theorem closed_evalAllWith (closed : Closed T)
    (calls : ∀ digits name inputs, T (call digits name inputs))
    (natives : ∀ n args, T (applyToExpressions call n args))
    (defines : ∀ f : Function, f.body.nesting < d → T (define f)) (digits : Nat) :
    ∀ es : List Expr, Expr.nestingAll es ≤ d → T (Expr.evalAllWith call digits es)
  | [], _ => by
    rw [Expr.evalAllWith]
    exact closed.pure _
  | e :: es, shallow => by
    obtain ⟨first, others⟩ := Nat.max_le.1 shallow
    rw [Expr.evalAllWith]
    exact closed.bind (closed_evalWith closed calls natives defines digits e first) fun _ =>
      closed.bind (closed_evalAllWith closed calls natives defines digits es others) fun _ =>
      closed.pure _

end

theorem closed_sample (closed : Closed T)
    (calls : ∀ digits name inputs, T (call digits name inputs)) (digits : Nat) (f : Function)
    (x : Decimal) : T (sample call digits f x) := by
  unfold sample
  refine closed.bind (calls _ _ _) fun t => ?_
  cases t with
  | numeric y => exact closed.pure _
  | symbolic s b => exact closed.fail _

end Closed

/-! ## Series and calls -/

section Layered

variable {T S : ∀ {α : Type}, Calc α → Prop} {call : Caller}

theorem layered_synthesize (layers : Layered T S) (params : List String) (body : Expr) :
    S (synthesize params body) := by
  unfold synthesize
  exact layers.inner.bind layers.freshName fun _ =>
    layers.inner.bind (layers.define _) fun _ => layers.inner.pure _

theorem layered_seriesSum (layers : Layered T S)
    (calls : ∀ digits name inputs, T (call digits name inputs)) (e : Expr) :
    T (seriesSum call e) := by
  have closed := layers.outer
  unfold seriesSum
  refine closed.bind (closed.look _) fun params => closed.bind (closed.look _) fun body =>
    closed.bind (closed.look _) fun names => ?_
  dsimp only
  split
  · exact closed.fail_bind _ _
  · refine closed.bind (layers.withScope ?_) fun total => ?_
    · exact layers.inner.bind (layered_synthesize layers _ _) fun f =>
        closed_sumFrom layers.inner
          (closed_sample layers.inner (fun _ _ _ => layers.inside (calls _ _ _)) _ f) _ _ _ _ _
    · cases total with
      | none => exact closed.fail _
      | some total => exact closed.pure _

theorem layered_applyToExpressions (layers : Layered T S)
    (calls : ∀ digits name inputs, T (call digits name inputs)) (n : Native) (args : List Expr) :
    T (applyToExpressions call n args) := by
  unfold applyToExpressions
  refine layers.outer.bind (layers.outer.lift _) fun _ => ?_
  split
  · exact layered_seriesSum layers calls _
  · exact layers.outer.fail _

/-- A call binds its arguments, and may define functions, in its own scope only. -/
theorem layered_callFunction (layers : Layered T S) (fuel : Nat) :
    ∀ digits name inputs, T (callFunction fuel digits name inputs) := by
  induction fuel with
  | zero => exact fun _ _ _ => layers.outer.fail _
  | succ fuel ih =>
    intro digits name inputs
    unfold callFunction
    refine layers.outer.bind (layers.outer.look _) fun found => ?_
    cases found with
    | none => exact layers.outer.fail _
    | some f =>
      refine layers.outer.bind (layers.outer.lift _) fun _ => layers.withScope ?_
      -- in its own scope the body may define what it likes
      exact layers.inner.bind (layers.bind _) fun _ =>
        closed_evalWith layers.inner (fun _ _ _ => layers.inside (ih _ _ _))
          (fun n args => layers.inside (layered_applyToExpressions layers ih n args))
          (fun f _ => layers.define f) digits f.body (Nat.le_refl _)

end Layered

/-- The value of a native on expressions is a number. -/
theorem isNumeric_applyToExpressions {call : Caller} {n : Native} {args : List Expr} {t : Term}
    {ctx ctx' : Context} (done : applyToExpressions call n args ctx = (.ok t, ctx')) :
    t.isNumeric = true := by
  obtain ⟨_, _, -, done⟩ := exists_of_bind done
  split at done
  · obtain ⟨params, _, -, done⟩ := exists_of_bind done
    obtain ⟨body, _, -, done⟩ := exists_of_bind done
    obtain ⟨names, _, -, done⟩ := exists_of_bind done
    dsimp only at done
    split at done
    · obtain ⟨_, _, failed, -⟩ := exists_of_bind done
      cases failed
    · obtain ⟨total, _, -, done⟩ := exists_of_bind done
      cases total with
      | none => cases done
      | some total =>
        cases done
        rfl
  · cases done

/-! ## What is kept -/

section Kept

variable [WideFrame R] {call : Caller}

theorem keeps_synthesize (params : List String) (body : Expr) :
    Keeps Confined (synthesize params body) :=
  layered_synthesize layered_advances params body

/-- Calls advance the context at most. -/
def Caller.Advances (call : Caller) : Prop :=
  ∀ digits name inputs, Keeps Context.Advances (call digits name inputs)

theorem keeps_sample (calls : call.Advances) (digits : Nat) (f : Function) (x : Decimal) :
    Keeps R (sample call digits f x) :=
  Keeps.widen (closed_sample closed_keeps calls digits f x)

theorem keeps_sumFrom {term : Decimal → Calc Decimal} (terms : ∀ x, Keeps R (term x))
    (p : Precision) (epsilon : Decimal) (fuel n : Nat) (total : Decimal) :
    Keeps R (sumFrom term p epsilon fuel n total) :=
  closed_sumFrom closed_keeps terms p epsilon fuel n total

theorem keeps_applyToExpressions (calls : call.Advances) (n : Native) (args : List Expr) :
    Keeps R (applyToExpressions call n args) :=
  Keeps.widen (layered_applyToExpressions layered_advances calls n args)

/-- A tree whose definitions are nested at most `d` deep keeps what those definitions keep. -/
theorem keeps_evalWith {d : Nat} (calls : call.Advances)
    (defines : ∀ f : Function, f.body.nesting < d → Keeps R (define f)) (digits : Nat) (e : Expr)
    (shallow : e.nesting ≤ d) : Keeps R (e.evalWith call digits) :=
  closed_evalWith closed_keeps (fun _ _ _ => (calls _ _ _).widen)
    (fun n args => keeps_applyToExpressions calls n args) defines digits e shallow

theorem keeps_callFunction (fuel : Nat) : Caller.Advances (callFunction fuel) :=
  layered_callFunction layered_advances fuel

theorem keeps_eval {d : Nat} (defines : ∀ f : Function, f.body.nesting < d → Keeps R (define f))
    {e : Expr} (shallow : e.nesting ≤ d) : Keeps R e.eval :=
  keeps_evalWith (keeps_callFunction depthLimit) defines ambientDigits e shallow

end Kept

end Reckon
