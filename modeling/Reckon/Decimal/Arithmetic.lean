import Reckon.Decimal.Rounding

/-!
# Decimal arithmetic

Each operation takes the working precision first. Exact results keep the exponent that the
operands suggest (the smaller one for a sum, the sum for a product), so that trailing zeros are
as written.
-/

namespace Reckon

namespace Precision

/-- The NaN that an operation on `a` and `b` hands on, if there is one. -/
def propagated (a b : Decimal) : Option (Except Signal Decimal) :=
  if a.isSignaling || b.isSignaling then some (.error .invalidOperation)
  else if a.isNaN then some (.ok a)
  else if b.isNaN then some (.ok b)
  else none

/-- The sum of two operands that are no NaNs. -/
def addNumbers (p : Precision) : Decimal → Decimal → Except Signal Decimal
  | .finite s c e, .finite t d f =>
    let low := min e f
    let sum := Decimal.aligned s c e low + Decimal.aligned t d f low
    p.finish (if sum = 0 then s && t else decide (sum < 0)) sum.natAbs low
  | .infinity s, .infinity t => if s == t then .ok (.infinity s) else .error .invalidOperation
  | .infinity s, _ => .ok (.infinity s)
  | _, b => .ok b

def add (p : Precision) (a b : Decimal) : Except Signal Decimal :=
  (propagated a b).getD (p.addNumbers a b)

def sub (p : Precision) (a b : Decimal) : Except Signal Decimal :=
  (propagated a b).getD (p.addNumbers a b.flip)

def mul (p : Precision) (a b : Decimal) : Except Signal Decimal :=
  (propagated a b).getD <|
    match a, b with
    | .finite s c e, .finite t d f => p.finish (s != t) (c * d) (e + f)
    | _, _ =>
      if a.isZero || b.isZero then .error .invalidOperation
      else .ok (.infinity (a.signed != b.signed))

/-- A coefficient without trailing zeros, as far as its exponent stays below `ideal`. -/
def stripZeros (c : Nat) (e ideal : Int) : Nat × Int :=
  if h : c ≠ 0 ∧ c % 10 = 0 ∧ e < ideal then stripZeros (c / 10) (e + 1) ideal else (c, e)
termination_by c
decreasing_by omega

/-- The quotient of two finite numbers, the divisor not zero: one digit more than the precision
and a mark for a remainder decide the rounding; an exact quotient comes as close to the
difference of the exponents as it can. -/
def divFinite (p : Precision) (negative : Bool) (c : Nat) (e : Int) (d : Nat) (f : Int) :
    Except Signal Decimal :=
  if c = 0 then p.finish negative 0 (e - f)
  else
    let shift : Int := digitCount d - digitCount c + p.digits + 1
    let n := c * tens shift.toNat
    let m := d * tens (-shift).toNat
    let q := n / m
    if n % m = 0 then
      let (q, low) := stripZeros q (e - f - shift) (e - f)
      p.finish negative q low
    else
      p.finish negative (if q % 5 = 0 then q + 1 else q) (e - f - shift)

def div (p : Precision) (a b : Decimal) : Except Signal Decimal :=
  (propagated a b).getD <|
    match a, b with
    | .infinity _, .infinity _ => .error .invalidOperation
    | .infinity s, b => .ok (.infinity (s != b.signed))
    | a, .infinity t => .ok (.finite (a.signed != t) 0 p.tiny)
    | .finite s c e, .finite t d f =>
      if d = 0 then .error (if c = 0 then .divisionUndefined else .divisionByZero)
      else p.divFinite (s != t) c e d f
    | _, b => .ok b

/-- The number with its sign changed, rounded; no zero is negative. -/
def neg (p : Precision) (a : Decimal) : Except Signal Decimal :=
  match a with
  | .nan .. => a.usable
  | a => p.round a.flip

/-- The magnitude, rounded. -/
def abs (p : Precision) (a : Decimal) : Except Signal Decimal :=
  match a with
  | .finite _ c e => p.finish false c e
  | .infinity _ => .ok (.infinity false)
  | a => a.usable

/-- The integer quotient toward zero and the remainder of finite numbers, the divisor not zero;
refused if the quotient needs more digits than the precision. -/
def divMod (p : Precision) (s : Bool) (c : Nat) (e : Int) (t : Bool) (d : Nat) (f : Int) :
    Except Signal (Decimal × Decimal) :=
  let low := min e f
  let gap := (e + digitCount c) - (f + digitCount d)
  if c = 0 then .ok (.finite (s != t) 0 0, .finite s 0 low)
  else if gap < -1 then .ok (.finite (s != t) 0 0, .finite s (c * tens (e - low).toNat) low)
  else if (p.digits : Int) < gap then .error .divisionImpossible
  else
    let n := c * tens (e - low).toNat
    let m := d * tens (f - low).toNat
    if tens p.digits ≤ n / m then .error .divisionImpossible
    else .ok (.finite (s != t) (n / m) 0, .finite s (n % m) low)

/-- The remainder of the division toward zero, with the sign of `a`. -/
def rem (p : Precision) (a b : Decimal) : Except Signal Decimal :=
  (propagated a b).getD <|
    match a, b with
    | .finite s c e, .finite t d f =>
      if d = 0 then .error (if c = 0 then .divisionUndefined else .invalidOperation)
      else do
        match (← p.divMod s c e t d f).2 with
        | .finite s r low => p.finish s r low
        | r => .ok r
    | .finite s c e, _ => p.finish s c e
    | _, _ => .error .invalidOperation

/-- The integer quotient toward zero. -/
def quot (p : Precision) (a b : Decimal) : Except Signal Decimal :=
  (propagated a b).getD <|
    match a, b with
    | .finite s c e, .finite t d f =>
      if d = 0 then .error (if c = 0 then .divisionUndefined else .divisionByZero)
      else Prod.fst <$> p.divMod s c e t d f
    | .finite s _ _, b => .ok (.finite (s != b.signed) 0 0)
    | .infinity _, .infinity _ => .error .invalidOperation
    | a, b => .ok (.infinity (a.signed != b.signed))

/-- The number rounded to a multiple of `10 ^ exponent`, refused if that needs more digits than
the precision. -/
def quantize (p : Precision) (a : Decimal) (exponent : Int) : Except Signal Decimal :=
  match a with
  | .finite s c e =>
    if exponent < p.tiny || maxExponent < exponent then .error .invalidOperation
    else
      let rescaled :=
        if exponent ≤ e then
          if c = 0 then 0 else c * tens (e - exponent).toNat
        else p.rounding.drop c (exponent - e).toNat
      if p.digits < digitCount rescaled || maxExponent < exponent + digitCount rescaled - 1 then
        .error .invalidOperation
      else .ok (.finite s rescaled exponent)
  | .infinity _ => .error .invalidOperation
  | a => a.usable

/-- The power `10 ^ n`. -/
def powerOfTen (p : Precision) (n : Int) : Except Signal Decimal :=
  if 2 * (maxExponent + p.digits) < n.natAbs then .error .invalidOperation
  else p.finish false 1 n

end Precision

end Reckon
