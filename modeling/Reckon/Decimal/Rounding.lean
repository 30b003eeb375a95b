import Reckon.Decimal.Basic

/-!
# Rounding to a precision

Every operation computes its exact result and brings it into the working precision once, by
`Precision.finish`. The exponent of the leading digit is kept between `minExponent` and
`maxExponent`: a larger result is an overflow, a smaller one loses digits.
-/

namespace Reckon

/-- Which neighbour a number halfway between two goes to. -/
inductive Rounding where
  | halfUp
  | halfEven
deriving DecidableEq, Repr

/-- The largest exponent of a leading digit. -/
def maxExponent : Int := 999999

/-- The smallest exponent of a leading digit that keeps all digits. -/
def minExponent : Int := -999999

/-- A number of significant digits and the way to round to them. Any number of digits is taken;
an arithmetic with a largest precision refuses those beyond it, which is left out here. -/
structure Precision where
  digits : Nat
  rounding : Rounding
deriving DecidableEq, Repr

/-- A half goes away from zero. -/
def Precision.halfUp (digits : Nat) : Precision := ⟨digits, .halfUp⟩

/-- A half goes to the even neighbour. -/
def Precision.halfEven (digits : Nat) : Precision := ⟨digits, .halfEven⟩

/-- The quotient `n / d` rounded to the nearest integer. -/
def Rounding.divide (mode : Rounding) (n d : Nat) : Nat :=
  let q := n / d
  let twice := 2 * (n % d)
  let up : Bool := match mode with
    | .halfUp => d ≤ twice
    | .halfEven => d < twice || (d == twice && q % 2 == 1)
  if up then q + 1 else q

/-- The coefficient `c` without its last `k` digits. -/
def Rounding.drop (mode : Rounding) (c k : Nat) : Nat :=
  if k = 0 then c
  else if digitCount c < k then 0
  else mode.divide c (tens k)

/-- The smallest exponent of any result. -/
def Precision.tiny (p : Precision) : Int :=
  minExponent - p.digits + 1

/-- The exact number `± c · 10 ^ e` in this precision. -/
def Precision.finish (p : Precision) (negative : Bool) (c : Nat) (e : Int) :
    Except Signal Decimal :=
  if c = 0 then
    .ok (.finite negative 0 (min (max e p.tiny) maxExponent))
  else
    let length := digitCount c
    if maxExponent < e + length - 1 then .error .overflow
    else
      let low := max (e + length - p.digits) p.tiny
      if low ≤ e then .ok (.finite negative c e)
      else
        let rounded := p.rounding.drop c (low - e).toNat
        if digitCount rounded ≤ p.digits then .ok (.finite negative rounded low)
        else if maxExponent < low + p.digits then .error .overflow
        else .ok (.finite negative (rounded / 10) (low + 1))

/-- A number as an operand that is used: a signaling NaN is refused. -/
def Decimal.usable (a : Decimal) : Except Signal Decimal :=
  if a.isSignaling then .error .invalidOperation else .ok a

/-- A number brought into a precision. A zero loses its sign. -/
def Precision.round (p : Precision) : Decimal → Except Signal Decimal
  | .finite negative c e => p.finish (negative && c != 0) c e
  | a => a.usable

end Reckon
