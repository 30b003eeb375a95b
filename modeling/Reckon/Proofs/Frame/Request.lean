import Reckon.Proofs.Frame.Calculus
import Reckon.Request

/-!
# What requests leave as it was

A request that evaluates a tree keeps what the definitions in the tree keep
(`keeps_evaluateTree`). With bindings it runs in its own scope, so it advances the context at most
(`keeps_evaluateWith`), and so do the requests that never evaluate a definition.
-/

namespace Reckon

open Calc Context

/-- A text is read as a definition without definitions in its body, or as a tree without any. -/
theorem Context.nesting_read {ctx : Context} {source : String} {names : List String} {e : Expr}
    (done : ctx.read source names = .ok e) :
    (∃ name params body text, e = .definition name params body text ∧ body.nesting = 0) ∨
      e.nesting = 0 := by
  unfold Context.read at done
  split at done
  next read =>
    cases done
    exact nesting_parse read
  next => cases done

theorem Context.nesting_read_le_one {ctx : Context} {source : String} {names : List String}
    {e : Expr} (done : ctx.read source names = .ok e) : e.nesting ≤ 1 := by
  rcases nesting_read done with ⟨name, params, body, text, rfl, plain⟩ | plain
  · exact Nat.le_of_eq (congrArg (· + 1) plain)
  · rw [plain]
    exact Nat.zero_le 1

theorem Context.nesting_replaceConstants (ctx : Context) (e : Expr) :
    (ctx.replaceConstants e).nesting ≤ e.nesting := by
  refine Expr.nesting_substitute (d := 0) (fun entry member => ?_) e
  obtain ⟨c, -, found⟩ := List.mem_filterMap.1 member
  split at found
  · cases found
  · cases found
    exact Nat.le_refl 0

variable {R : Context → Context → Prop}

/-! ## Evaluating -/

theorem keeps_settle [Frame R] (t : Term) : Keeps R t.settle := by
  cases t with
  | numeric n =>
    unfold Term.settle
    refine (keeps_look _).bind fun params _ => (keeps_decimal _).bind fun small _ => ?_
    split
    · exact ensures_pure trivial
    · exact keeps_lift _
  | symbolic s b => exact ensures_pure trivial

theorem ensures_prepare [RaisingFrame R] {d : Nat} {e : Expr} (shallow : e.nesting ≤ d) :
    Ensures (fun _ => True) R e.prepare (Expr.nesting · ≤ d) := by
  unfold Expr.prepare
  refine (keeps_look _).bind fun params _ => ?_
  refine ensures_join (P := fun e : Expr => e.nesting ≤ d) (ensures_look fun ctx _ => ?_)
    (ensures_pure shallow) fun e' small => ?_
  · exact Nat.le_trans (ctx.nesting_replaceConstants e) shallow
  dsimp only
  split
  · exact ensures_pure small
  split
  · exact Expr.ensures_simplify small
  · exact ensures_pure small

variable [WideFrame R]

section Tree

variable {d : Nat} (defines : ∀ f : Function, f.body.nesting < d → Keeps R (define f))

include defines

theorem keeps_answer {e : Expr} (shallow : e.nesting ≤ d) : Keeps R e.answer := by
  unfold Expr.answer
  split
  · exact ensures_pure trivial
  · exact (ensures_prepare shallow).bind fun e' small => (keeps_eval defines small).bind fun t _ =>
      keeps_settle t

/-- The definitions of a tree are all that an evaluation leaves behind. -/
theorem keeps_evaluateTree {e : Expr} (shallow : e.nesting ≤ d) : Keeps R (evaluateTree e) :=
  keeps_withParams (keeps_answer defines shallow)

end Tree

/-- No definition is evaluated where there is none. -/
theorem advances_evaluateTree {e : Expr} (plain : e.nesting = 0) :
    Keeps Advances (evaluateTree e) :=
  keeps_evaluateTree (d := 0) (fun _ deep => nomatch deep) (Nat.le_of_eq plain)

theorem keeps_evaluate (defines : ∀ f : Function, f.body.nesting = 0 → Keeps R (define f))
    (source : String) : Keeps R (evaluate source) := by
  refine keeps_withParams ?_
  refine (ensures_tree fun ctx e _ done => nesting_read_le_one done).bind fun e shallow => ?_
  exact keeps_answer (fun f plain => defines f (Nat.lt_one_iff.1 plain)) shallow

/-- Values are bound, and functions defined for them, in the current scope only. -/
theorem keeps_bindAll (bindings : List (String × Supplied)) :
    Keeps Confined (bindAll bindings) := by
  induction bindings with
  | nil => exact ensures_pure trivial
  | cons binding bindings ih =>
    obtain ⟨name, value⟩ := binding
    have rest : ∀ t, Keeps Confined (Calc.update (·.bind name t) >>= fun _ => bindAll bindings) :=
      fun t => (keeps_of_rel fun ctx => confined_updateCurrent ctx (·.insert name (.value t))).bind
        fun _ _ => ih
    unfold bindAll
    cases value with
    | term t => exact (keeps_pure t).bind fun t _ => rest t
    | expression source =>
      exact (keeps_evaluate (fun f _ => keeps_define f) source).bind fun t _ => rest t

theorem keeps_evaluateWith {bindings : List (String × Supplied)} (some : bindings ≠ [])
    (source : String) : Keeps R (evaluateWith bindings source) := by
  unfold evaluateWith
  rw [if_neg (by simpa using some)]
  exact keeps_withScope ((keeps_bindAll bindings).bind fun _ _ =>
    keeps_evaluate (fun f _ => keeps_define f) source)

/-! ## Trees -/

theorem keeps_simplify (source : String) : Keeps R (simplify source) := by
  refine (ensures_tree fun _ _ _ _ => trivial).bind fun e _ => keeps_withParams (Keeps.widen ?_)
  exact (Expr.ensures_simplify (I := fun _ => True) (Nat.le_refl _)).keeps

section Calculus

variable (defines : ∀ f : Function, Keeps R (define f))

include defines

theorem keeps_differentiate (source wrt : String) : Keeps R (differentiate source wrt) :=
  (ensures_tree (P := fun _ => True) fun _ _ _ _ => trivial).bind fun _ _ =>
    (Expr.ensures_inline (P := fun _ => True) trivial).bind fun _ _ =>
    (Expr.ensures_derivative (P := fun _ => True) wrt trivial).widen.bind fun _ _ =>
    keeps_evaluateTree (fun f _ => defines f) (Nat.le_refl _)

theorem keeps_integrate (source wrt : String) : Keeps R (integrate source wrt) :=
  (ensures_tree (P := fun _ => True) fun _ _ _ _ => trivial).bind fun _ _ =>
    (Expr.ensures_inline (P := fun _ => True) trivial).bind fun e' _ =>
    (Expr.ensures_antiderivative (P := fun _ => True) wrt e' trivial).widen.bind fun _ _ =>
    keeps_evaluateTree (fun f _ => defines f) (Nat.le_refl _)

end Calculus

theorem keeps_unknowns {R : Context → Context → Prop} [Frame R] (e : Expr) (given : List String) :
    Keeps R (unknowns e given) := by
  unfold unknowns
  split
  · exact (Expr.ensures_inline (P := fun _ => True) trivial).bind fun e' _ => keeps_look _
  · exact ensures_pure trivial

theorem keeps_findRoots (source : String) (given : List String) :
    Keeps R (findRoots source given) := by
  unfold findRoots
  refine (ensures_tree fun _ _ _ _ => trivial).bind fun e _ =>
    (keeps_unknowns e given).bind fun names _ => ?_
  split
  · exact keeps_withParams (Roots.keeps_find e _)
  · exact ensures_fail _

/-! ## Matrices -/

theorem keeps_mapM {α β : Type} {R : Context → Context → Prop} [Frame R] {f : α → Calc β}
    {xs : List α} (each : ∀ x ∈ xs, Keeps R (f x)) : Keeps R (xs.mapM f) := by
  induction xs with
  | nil =>
    rw [List.mapM_nil]
    exact ensures_pure trivial
  | cons x xs ih =>
    rw [List.mapM_cons]
    exact (each x (.head _)).bind fun _ _ =>
      (ih fun x member => each x (.tail _ member)).bind fun _ _ => ensures_pure trivial

theorem keeps_matrixEntry {R : Context → Context → Prop} [Frame R] {e : Expr}
    (keeps : Keeps R (evaluateTree e)) : Keeps R (matrixEntry e) := by
  unfold matrixEntry
  refine keeps.bind fun t _ => ?_
  split
  · exact ensures_pure trivial
  · exact ensures_fail _

theorem nesting_matrixRows? {e : Expr} {rows : List (List Expr)}
    (found : e.matrixRows? = some rows) : ∀ row ∈ rows, Expr.nestingAll row ≤ e.nesting := by
  unfold Expr.matrixRows? at found
  split at found
  · cases found
    exact List.forall_mem_singleton.2 (Nat.le_refl _)
  · cases found
    intro row member
    obtain ⟨e, inside, rfl⟩ := List.mem_map.1 member
    exact Nat.le_trans e.nesting_elements_le (Expr.nestingAll_le.1 (Nat.le_refl _) e inside)
  · cases found

theorem keeps_readMatrix (source : String) : Keeps R (readMatrix source) := by
  unfold readMatrix
  refine (ensures_tree (P := fun e => e.matrixRows?.isSome → e.nesting = 0)
    fun ctx e _ done => ?_).bind fun e plain => ?_
  · rcases nesting_read done with ⟨_, _, _, _, rfl, -⟩ | shallow
    · exact fun isMatrix => nomatch isMatrix
    · exact fun _ => shallow
  split
  next rows found =>
    have zero := plain (by rw [found]; rfl)
    refine Ensures.bind (P := fun _ => True) (keeps_mapM fun row member => ?_)
      fun _ _ => ensures_pure trivial
    refine keeps_mapM fun entry inside => (keeps_matrixEntry (advances_evaluateTree ?_)).widen
    have shallow := Nat.le_trans (nesting_matrixRows? found row member) (Nat.le_of_eq zero)
    exact Nat.le_zero.1 (Expr.nestingAll_le.1 shallow entry inside)
  next => exact ensures_fail _

/-! ## Calling -/

theorem keeps_call (name : String) (inputs : List Term) : Keeps R (call name inputs) :=
  (keeps_callFunction depthLimit _ _ _).widen

theorem keeps_callNative (name : String) (inputs : List Term) :
    Keeps R (callNative name inputs) := by
  unfold callNative
  refine (keeps_look _).bind fun found _ => ?_
  split
  · split
    · exact closed_refuseTerms closed_keeps _ inputs
    · exact closed_applyToValues closed_keeps _ inputs
  · exact ensures_fail _

theorem keeps_callNativeOn (name : String) (args : List Expr) :
    Keeps R (callNativeOn name args) := by
  unfold callNativeOn
  refine (keeps_look _).bind fun found _ => ?_
  split
  · split
    · exact keeps_applyToExpressions (keeps_callFunction depthLimit) _ args
    · exact closed_refuseExpressions closed_keeps _ args
  · exact ensures_fail _

end Reckon
