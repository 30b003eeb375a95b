import Reckon.Calculus.Build

/-!
# The degree of a polynomial tree

The largest literal exponent of anything that is not a literal. A tree with variables and no such
exponent has degree one.
-/

namespace Reckon

namespace Expr

/-- The integer part of a literal exponent. -/
def exponentValue (n : Decimal) : Except Fault Int :=
  match n with
  | .infinity _ => .error (.range .infinityToInteger)
  | .nan .. => .error (.domain .nanToInteger)
  | n => .ok (n.truncated?.getD 0)

mutual

/-- The largest literal exponent, and at least `least`. -/
def largestExponent (least : Int) : Expr → Except Fault Int
  | .binary op _ l r => do
    let here ← match op, l, r with
      | .power, .literal .., _ => pure least
      | .power, _, .literal n _ => max least <$> exponentValue n
      | _, _, _ => pure least
    r.largestExponent (← l.largestExponent here)
  | .unary _ e => e.largestExponent least
  | .call _ args => largestExponents least args
  | .definition _ _ body _ => body.largestExponent least
  | .vector es => largestExponents least es
  | .matrix rows => largestExponents least rows
  | .literal .. => return least
  | .var _ => return least
  | .empty => return least

/-- `largestExponent` over several trees. -/
def largestExponents (least : Int) : List Expr → Except Fault Int
  | [] => return least
  | e :: es => do largestExponents (← e.largestExponent least) es

end

/-- The degree of a tree that is a polynomial. -/
def degree (e : Expr) : Except Fault Int := do
  let n ← e.largestExponent 0
  return if n = 0 && !e.names.isEmpty then 1 else n

end Expr

end Reckon
