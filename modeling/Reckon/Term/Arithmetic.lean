import Reckon.Term
import Reckon.Decimal.Power

/-!
# Arithmetic on numbers

Sums, products and powers with a whole exponent keep a thousand digits. Quotients and other
powers are rounded to the precision and five digits more, so that rounding a result hides the
rounding on the way. A comparison is one or zero.
-/

namespace Reckon

/-- The digits that a quotient has beyond the precision. -/
def guardDigits : Nat := 5

/-- The precision where none is asked for. -/
def defaultPrecision : Nat := 10

/-- The working precision of sums and products. -/
def exactPrecision : Precision := .halfUp Decimal.exactDigits

/-- The working precision of quotients and roots. -/
def quotientPrecision (precision : Nat) : Precision := .halfUp (precision + guardDigits)

namespace Arithmetic

/-- One if the condition holds, zero otherwise. -/
def truth (holds : Bool) : Decimal :=
  if holds then 1 else 0

/-- The power with a whole exponent `n`. -/
def wholePower (precision : Nat) (base : Decimal) (n : Int) : Except Fault Decimal :=
  if n = 0 then .ok 1
  else if 0 < n then liftSignal (exactPrecision.powNat base n.toNat)
  else if base.isZero then .error (.division .zeroToNegativePower)
  else do
    let power ← liftSignal (exactPrecision.powNat base n.natAbs)
    liftSignal ((quotientPrecision precision).div 1 power)

/-- The power `base ^ exponent`. -/
def power (precision : Nat) (base exponent : Decimal) : Except Fault Decimal := do
  if exponent.isSignaling then throw (.signal .invalidOperation)
  if exponent.isWhole then
    match exponent.truncated? with
    | some n => wholePower precision base n
    | none => throw (.range .infinityToInteger)
  else if ← liftSignal (base.less 0) then
    throw (.domain (.negativeBase base.scientific exponent.scientific))
  else if base.isZero then return 0
  else liftSignal ((quotientPrecision precision).powReal base exponent)

/-- The value of an operator on two numbers. -/
def apply (op : Operator) (precision : Nat) (a b : Decimal) : Except Fault Decimal :=
  match op with
  | .plus | .increase => liftSignal (exactPrecision.add a b)
  | .minus => liftSignal (exactPrecision.sub a b)
  | .times => liftSignal (exactPrecision.mul a b)
  | .divide =>
    if b.isZero then .error (.division .byZero)
    else liftSignal ((quotientPrecision precision).div a b)
  | .power => power precision a b
  | .greater => truth <$> liftSignal (b.less a)
  | .less => truth <$> liftSignal (a.less b)
  | .greaterEqual => truth <$> liftSignal (b.atMost a)
  | .lessEqual => truth <$> liftSignal (a.atMost b)
  | .notEqual => (truth ∘ not) <$> liftSignal (a.equal b)
  | .equal => truth <$> liftSignal (a.equal b)

end Arithmetic

end Reckon
