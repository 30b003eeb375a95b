import Reckon.Decimal.Elementary

/-!
# Powers of decimals

A power with a whole exponent is found by squaring and multiplying, with a few digits more than
the precision. A power with another exponent is the exponential of a multiple of a logarithm, and
always has as many digits as the precision.
-/

namespace Reckon

namespace Precision

/-- The power `base ^ n` for a positive `n`, each product rounded. -/
def powerBySquaring (p : Precision) (base : Decimal) (n : Nat) : Except Signal Decimal :=
  if n ≤ 1 then .ok base
  else do
    let root ← powerBySquaring p base (n / 2)
    let square ← p.mul root root
    if n % 2 = 1 then p.mul square base else .ok square
termination_by n

/-- The digits beyond the precision that a power with exponent `n` is computed with. -/
def powerGuard (n : Nat) : Nat :=
  digitCount n + 2

/-- One with `min shift (digits - 1)` places. -/
def paddedOne (p : Precision) (negative : Bool) (shift : Nat) : Decimal :=
  let places := min shift (p.digits - 1)
  .finite negative (tens places) (-(places : Int))

/-- The power `base ^ n` for a positive `n`. -/
def powNat (p : Precision) (base : Decimal) (n : Nat) : Except Signal Decimal :=
  let negative := base.signed && n % 2 == 1
  match base with
  | .finite s c e =>
    if c = 0 then .ok (.finite negative 0 0)
    else if Decimal.same (.finite false c e) 1 then .ok (p.paddedOne negative (n * e.natAbs))
    else do
      match ← powerBySquaring (.halfEven (p.digits + powerGuard n)) (.finite s c e) n with
      | .finite _ m k => p.finish negative m k
      | r => .ok r
  | .infinity _ => .ok (.infinity negative)
  | a => a.usable

/-- The digits beyond the precision that logarithm and exponential are computed with. -/
def realGuard : Nat := 23

/-- The power `base ^ exponent` of a positive finite number other than one: `d` digits are kept on
the way. A product beyond `10 ^ 8` is out of any range. -/
def powRealFinite (p : Precision) (c : Nat) (e : Int) (exponent : Decimal) :
    Except Signal Decimal := do
  let d := max (digitCount c) p.digits + realGuard
  let inner := Precision.halfEven d
  match ← inner.mul (Decimal.lnDigits d c e) exponent with
  | .finite s m k =>
    if k + digitCount m > 9 then
      if s then p.finish false 1 (p.tiny - 1) else .error .overflow
    else
      let (m, k) := Decimal.expDigits d s m k
      p.finish false m k
  | r => .ok r

/-- The power `base ^ exponent` of a positive number with a finite exponent that is not whole. -/
def powReal (p : Precision) (base exponent : Decimal) : Except Signal Decimal :=
  (propagated base exponent).getD <|
    match base with
    | .finite s c e =>
      if c = 0 then .ok 0
      else if s then .error .invalidOperation
      else if base.same 1 then .ok (p.paddedOne false (p.digits - 1))
      else p.powRealFinite c e exponent
    | _ => .ok (if exponent.signed then 0 else .infinity false)

end Precision

end Reckon
