import Reckon.Evaluate
import Reckon.Proofs.Calc

/-!
# Evaluating, step by step

What an expression evaluates to, from what its operands evaluate to: one lemma for each kind of
tree. Only literals change the context, and only its precision.

Results: `eval_literal`, `eval_var`, `eval_unary`, `eval_binary`.
-/

namespace Reckon

namespace Expr

/-- A literal is left as it is and at most raises the precision. -/
theorem eval_literal (n : Decimal) (written : Bool) (ctx : Context) :
    ∃ after, ctx.SameNames after ∧ ctx.params.precision ≤ after.params.precision ∧
      (Expr.literal n written).eval ctx = (.ok (.numeric n), after) := by
  rw [eval, evalWith]
  cases written with
  | false => exact ⟨ctx, ⟨rfl, rfl⟩, Nat.le_refl _, rfl⟩
  | true =>
    refine ⟨_, ?_, ?_, rfl⟩
    · dsimp only
      split <;> exact ⟨rfl, rfl⟩
    · dsimp only
      split
      next less => exact Nat.le_of_lt less
      next => exact Nat.le_refl _

theorem eval_var (name : String) (ctx : Context) : (Expr.var name).eval ctx =
    (.ok ((ctx.lookupVariable name).getD (.ofName name)), ctx) := by
  rw [eval, evalWith]
  rfl

theorem eval_unary {sign : Sign} {e : Expr} {t : Term} {ctx after : Context}
    (operand : e.eval ctx = (.ok t, after)) : (Expr.unary sign e).eval ctx =
      (match sign with
        | .negative => t.negate ambientDigits
        | .positive => .ok t, after) := by
  rw [eval, evalWith]
  refine (Calc.bind_ok operand).trans ?_
  cases sign <;> rfl

theorem eval_binary {op : Operator} {attached : Bool} {l r : Expr} {a b : Term}
    {ctx middle after : Context} (left : l.eval ctx = (.ok a, middle))
    (right : r.eval middle = (.ok b, after)) : (Expr.binary op attached l r).eval ctx =
      (Term.combine ambientDigits op (some after.params.precision) a b, after) := by
  rw [eval, evalWith]
  exact (Calc.bind_ok left).trans (Calc.bind_ok right)

end Expr

end Reckon
