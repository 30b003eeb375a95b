import Reckon.Decimal.DigitCount

/-!
# Decimal numbers

A decimal is a sign, a coefficient and a power of ten; besides there are the two infinities and
the values that are no number. Equal numbers may have different exponents: `2.50` is not `2.5`,
and a text shows which one it is.
-/

namespace Reckon

/-- A decimal number `± coefficient · 10 ^ exponent`, an infinity, or not a number. -/
inductive Decimal where
  | finite (negative : Bool) (coefficient : Nat) (exponent : Int)
  | infinity (negative : Bool)
  | nan (negative signaling : Bool) (payload : Nat)
deriving DecidableEq, Repr

/-- Why an operation on decimals has no result. -/
inductive Signal where
  /-- The operation is not defined for these operands. -/
  | invalidOperation
  /-- A text is no decimal number. -/
  | conversion
  /-- An integer quotient has more digits than the precision. -/
  | divisionImpossible
  /-- Zero divided by zero. -/
  | divisionUndefined
  /-- A non-zero number divided by zero. -/
  | divisionByZero
  /-- The result is too large for the exponent range. -/
  | overflow
deriving DecidableEq, Repr

namespace Decimal

/-- The integer `n` with exponent zero. -/
def ofInt (n : Int) : Decimal :=
  .finite (n < 0) n.natAbs 0

instance (n : Nat) : OfNat Decimal n := ⟨.finite false n 0⟩

instance : Inhabited Decimal := ⟨0⟩

/-- The exponent of the leading digit. -/
def adjusted : Decimal → Int
  | .finite _ c e => e + digitCount c - 1
  | _ => 0

def isZero : Decimal → Bool
  | .finite _ c _ => c == 0
  | _ => false

def isNaN : Decimal → Bool
  | .nan .. => true
  | _ => false

/-- Some operand is a NaN that must not be used. -/
def isSignaling : Decimal → Bool
  | .nan _ signaling _ => signaling
  | _ => false

/-- The sign, which zeros and NaNs have too. -/
def signed : Decimal → Bool
  | .finite s _ _ => s
  | .infinity s => s
  | .nan s _ _ => s

/-- The same number with the other sign. -/
def flip : Decimal → Decimal
  | .finite s c e => .finite (!s) c e
  | .infinity s => .infinity (!s)
  | .nan s q p => .nan (!s) q p

/-- The coefficient with its sign. -/
def signedCoefficient (negative : Bool) (c : Nat) : Int :=
  if negative then -(c : Int) else c

/-- The signed coefficient of `± c · 10 ^ e` when written with the exponent `low ≤ e`. -/
def aligned (negative : Bool) (c : Nat) (e low : Int) : Int :=
  signedCoefficient negative (if c == 0 then 0 else c * tens (e - low).toNat)

/-- The order of two numbers; none if one is not a number. -/
def order? : Decimal → Decimal → Option Ordering
  | .nan .., _ => none
  | _, .nan .. => none
  | .infinity s, .infinity t =>
    some (if s == t then .eq else if s then .lt else .gt)
  | .infinity s, .finite .. => some (if s then .lt else .gt)
  | .finite .., .infinity t => some (if t then .gt else .lt)
  | .finite s c e, .finite t d f =>
    let low := min e f
    some (compare (aligned s c e low) (aligned t d f low))

/-- Equality as numbers; a NaN equals nothing. -/
def same (a b : Decimal) : Bool :=
  order? a b == some .eq

/-- The order of two operands that both have to be numbers. -/
def compared (a b : Decimal) : Except Signal Ordering :=
  match order? a b with
  | some o => .ok o
  | none => .error .invalidOperation

def less (a b : Decimal) : Except Signal Bool :=
  (· == .lt) <$> compared a b

def atMost (a b : Decimal) : Except Signal Bool :=
  (· != .gt) <$> compared a b

/-- Equality as numbers, refused for a signaling NaN. -/
def equal (a b : Decimal) : Except Signal Bool :=
  if a.isSignaling || b.isSignaling then .error .invalidOperation else .ok (same a b)

/-- The number is below zero. -/
def isNegative (a : Decimal) : Bool :=
  order? a 0 == some .lt

/-- The integer part; none for infinities and NaNs. -/
def truncated? : Decimal → Option Int
  | .finite s c e =>
    some (signedCoefficient s (if 0 ≤ e then c * tens e.toNat else c / tens (-e).toNat))
  | _ => none

/-- The value is a whole number; an infinity counts as one. -/
def isWhole : Decimal → Bool
  | .finite _ c e => c == 0 || 0 ≤ e || c % tens (-e).toNat == 0
  | .infinity _ => true
  | .nan .. => false

end Decimal

end Reckon
