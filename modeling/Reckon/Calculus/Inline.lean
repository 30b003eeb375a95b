import Reckon.Calculus.Build

/-!
# Inlining functions

Every call of a function is replaced by the body of the function, with the arguments in place of
the parameters, until no call of a function is left. Natives stay.
-/

namespace Reckon

namespace Expr

/-- How deeply calls may be nested when they are inlined. -/
def inlineLimit : Nat := 64

mutual

/-- The tree with calls of functions replaced; `again` takes the body with its arguments. -/
def inlineWith (again : Expr → Calc Expr) : Expr → Calc Expr
  | .call name args => do
    let args ← inlineAllWith again args
    match ← Calc.look (·.lookupFunction name) with
    | none => return .call name args
    | some f =>
      Calc.lift (checkArity f.signature f.params.length args.length)
      again (f.body.substitute (f.params.zip args))
  | .binary op attached l r =>
    return .binary op attached (← l.inlineWith again) (← r.inlineWith again)
  | .unary sign e => return .unary sign (← e.inlineWith again)
  | e => return e

/-- `inlineWith` on several trees. -/
def inlineAllWith (again : Expr → Calc Expr) : List Expr → Calc (List Expr)
  | [] => return []
  | e :: es => return (← e.inlineWith again) :: (← inlineAllWith again es)

end

/-- Inlines bodies within bodies as deep as `fuel`. -/
def inlineWithin : (fuel : Nat) → Expr → Calc Expr
  | 0, _ => Calc.fail (.depth .inlining)
  | fuel + 1, e => e.inlineWith (inlineWithin fuel)

/-- The tree without calls of functions. -/
def inline (e : Expr) : Calc Expr :=
  inlineWithin (inlineLimit + 1) e

end Expr

end Reckon
