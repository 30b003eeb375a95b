import Reckon.Decimal.Text

/-!
# Roots, logarithms and the exponential

A square root is found exactly and rounded once. A logarithm or an exponential is enclosed
between two fixed point numbers; when both ends round to the same digits, these are the digits of
the result, and otherwise more places are taken. All of them round a half to the even neighbour.
-/

namespace Reckon

/-! ## Square root -/

/-- Newton's iteration for the integer square root of `n`, from above. -/
def integerSqrtFrom (n x : Nat) : Nat :=
  let y := (x + n / x) / 2
  if y < x then integerSqrtFrom n y else x
termination_by x

/-- The largest integer whose square is at most `n`. -/
def integerSqrt (n : Nat) : Nat :=
  if n = 0 then 0 else integerSqrtFrom n (twos (n.log2 / 2 + 1))

/-- The square root of `c · 10 ^ e` for a positive `c`: one digit more than the precision and a
mark for a remainder decide the rounding; an exact root has half of the exponent. -/
def Precision.sqrtFinite (p : Precision) (c : Nat) (e : Int) : Except Signal Decimal :=
  let half := e / 2
  let c := if e % 2 = 0 then c else c * 10
  let pairs := (digitCount c + 1) / 2
  let shift : Int := (p.digits : Int) + 1 - pairs
  let scaled := c * tens (2 * shift.toNat)
  let divisor := tens (2 * (-shift).toNat)
  let root := integerSqrt (scaled / divisor)
  let nearest := Precision.halfEven p.digits
  if scaled % divisor = 0 && root * root = scaled / divisor then
    nearest.finish false (root * tens (-shift).toNat / tens shift.toNat) half
  else
    nearest.finish false (if root % 5 = 0 then root + 1 else root) (half - shift)

/-- The square root of a number that is not negative. -/
def Precision.sqrt (p : Precision) : Decimal → Except Signal Decimal
  | .finite s c e =>
    if c = 0 then p.finish s 0 (e / 2)
    else if s then .error .invalidOperation
    else p.sqrtFinite c e
  | .infinity s => if s then .error .invalidOperation else .ok (.infinity false)
  | a => a.usable

/-! ## Fixed point series

A fixed point number with `w` places stands for itself times `10 ^ -w`. -/

namespace Fixed

/-- The terms from `z ^ k / k` on of the series of `artanh z`; `term` is `z ^ k`. -/
def artanhTail (unit square : Nat) : (fuel k term total : Nat) → Nat
  | 0, _, _, total => total
  | fuel + 1, k, term, total =>
    if term = 0 then total
    else artanhTail unit square fuel (k + 2) (term * square / unit) (total + term / k)

/-- `artanh (n / d)` for `3 · n ≤ d`, each term cut to `w` places. -/
def artanh (w n d : Nat) : Nat :=
  let unit := tens w
  let z := n * unit / d
  artanhTail unit (z * z / unit) (2 * w + 10) 1 z 0

/-- The logarithm of two. -/
def ln2 (w : Nat) : Nat :=
  2 * artanh w 1 3

/-- The logarithm of ten. -/
def ln10 (w : Nat) : Nat :=
  3 * ln2 w + 2 * artanh w 1 9

/-- The number of halvings that bring `c / one`, between one and ten, near to one. -/
def halvings (c one : Nat) : Nat :=
  if 2 * c < 3 * one then 0
  else if c < 3 * one then 1
  else if c < 6 * one then 2
  else 3

/-- The logarithm of `c · 10 ^ e` for a positive `c`. -/
def ln (w c : Nat) (e : Int) : Int :=
  let length := digitCount c
  let scale := e + length - 1
  let one := tens (length - 1)
  let halved := halvings c one
  let unity := one * twos halved
  let near : Int :=
    if unity ≤ c then 2 * artanh w (c - unity) (c + unity)
    else -(2 * artanh w (unity - c) (c + unity) : Nat)
  scale * ln10 w + halved * ln2 w + near

/-- How far `ln` can be from the logarithm. -/
def lnError (w c : Nat) (e : Int) : Nat :=
  ((e + digitCount c).natAbs + 10) * 10 * (w + 20)

/-- The terms of the exponential series from `term = r ^ k / k!` on. -/
def expTail (unit r : Nat) : (fuel k term total : Nat) → Nat
  | 0, _, _, total => total
  | fuel + 1, k, term, total =>
    if term = 0 then total
    else expTail unit r fuel (k + 1) (term * r / (unit * (k + 1))) (total + term)

/-- The exponential of a fixed point number below `ln 10`. -/
def exp (w r : Nat) : Nat :=
  expTail (tens w) r (4 * w + 40) 0 (tens w) 0

end Fixed

/-! ## Correct rounding -/

/-- A positive integer rounded to a number of significant digits, and the exponent of the last
one; none if it has fewer digits. -/
def significant? (digits n : Nat) : Option (Nat × Nat) :=
  let length := digitCount n
  if length < digits then none
  else
    let rounded := Rounding.halfEven.drop n (length - digits)
    if digitCount rounded ≤ digits then some (rounded, length - digits)
    else some (rounded / 10, length - digits + 1)

/-- The digits that all numbers within `error` of `n` round to, if they do. -/
def settled? (digits n error : Nat) : Option (Nat × Nat) :=
  if n ≤ error then none
  else
    let low := significant? digits (n - error)
    if low == significant? digits (n + error) then low else none

/-- Takes ever more places until the approximation `value w ± error w` with `w` places settles
the digits. The result is a coefficient and the exponent of its last digit. -/
def refine (digits : Nat) (value error : Nat → Nat) : (fuel w : Nat) → Nat × Int
  | 0, w => match significant? digits (value w) with
    | some (c, k) => (c, k - w)
    | none => (value w, -w)
  | fuel + 1, w => match settled? digits (value w) (error w) with
    | some (c, k) => (c, k - w)
    | none => refine digits value error fuel (2 * w)

/-- How often the number of places is doubled at most. -/
def refinements : Nat := 12

namespace Decimal

/-- The natural logarithm of `c · 10 ^ e` to a number of digits, for a positive `c`. -/
def lnDigits (digits c : Nat) (e : Int) : Decimal :=
  if c = tens (digitCount c - 1) && e + digitCount c = 1 then 0
  else
    let (m, k) := refine digits (fun w => (Fixed.ln w c e).natAbs) (fun w => Fixed.lnError w c e)
      refinements (digits + 25 + digitCount (e.natAbs + digitCount c))
    .finite (e + digitCount c ≤ 0) m k

/-- The exponent `k` if `c · 10 ^ e` is `10 ^ k`. -/
def powerOfTen? (c : Nat) (e : Int) : Option Int :=
  if c = tens (digitCount c - 1) then some (e + digitCount c - 1) else none

/-- The logarithm to base ten of `c · 10 ^ e` to a number of digits, for a positive `c` such that
the number is no power of ten. -/
def log10Digits (digits c : Nat) (e : Int) : Decimal :=
  let (m, k) := refine digits
    (fun w => (Fixed.ln w c e).natAbs * tens w / Fixed.ln10 w)
    (fun w => 2 * Fixed.lnError w c e)
    refinements (digits + 25 + digitCount (e.natAbs + digitCount c))
  .finite (e + digitCount c ≤ 0) m k

/-- The number `± c · 10 ^ e` cut to `w` places. -/
def fixed (w : Nat) (negative : Bool) (c : Nat) (e : Int) : Int :=
  signedCoefficient negative (c * tens (e + w).toNat / tens (-(e + w)).toNat)

/-- A power of ten below the exponential of `± c · 10 ^ e`, and not much more than a tenth of
it; thirty places and a margin of ten make the choice safe. -/
def expTens (negative : Bool) (c : Nat) (e : Int) : Int :=
  (fixed 30 negative c e - tens 20) / Fixed.ln10 30

/-- The exponential of `± c · 10 ^ e` to a number of digits, as a coefficient and its exponent. -/
def expDigits (digits : Nat) (negative : Bool) (c : Nat) (e : Int) : Nat × Int :=
  let leading := expTens negative c e
  let (m, k) := refine digits
    (fun w => Fixed.exp w (fixed w negative c e - leading * Fixed.ln10 w).toNat)
    (fun w => (leading.natAbs + 10) * 100 * (w + 20))
    refinements (digits + 30)
  (m, k + leading)

end Decimal

namespace Precision

/-- The natural logarithm of a positive number. -/
def ln (p : Precision) : Decimal → Except Signal Decimal
  | .finite s c e =>
    if c = 0 then .ok (.infinity true)
    else if s then .error .invalidOperation
    else match Decimal.lnDigits p.digits c e with
      | .finite t m k => p.finish t m k
      | a => .ok a
  | .infinity s => if s then .error .invalidOperation else .ok (.infinity false)
  | a => a.usable

/-- The logarithm to base ten of a positive number. -/
def log10 (p : Precision) : Decimal → Except Signal Decimal
  | .finite s c e =>
    if c = 0 then .ok (.infinity true)
    else if s then .error .invalidOperation
    else match Decimal.powerOfTen? c e with
      | some k => p.finish (k < 0) k.natAbs 0
      | none => match Decimal.log10Digits p.digits c e with
        | .finite t m k => p.finish t m k
        | a => .ok a
  | .infinity s => if s then .error .invalidOperation else .ok (.infinity false)
  | a => a.usable

end Precision

end Reckon
