import Reckon.Binary64.Shortest

/-!
# Rounding a double to decimal places

The exact value of the double is rounded, a half going to the even neighbour, and the result is
the double nearest to that decimal.
-/

namespace Reckon.Binary64

/-- From this many places on a double is its own rounding. -/
def mostPlaces : Int := 323

/-- Below this many places every double rounds to zero. -/
def leastPlaces : Int := -308

/-- A double rounded to decimal places; negative places round to tens, hundreds and so on. None
if the result is too large for a double. -/
def roundPlaces? (x : Float) (places : Int) : Option Float :=
  match decode? x with
  | none => some x
  | some ⟨s, m, q⟩ =>
    if mostPlaces < places then some x
    else if places < leastPlaces then some (nearest s 0 1)
    else
      let (n, d) := fraction m q
      let rounded := Rounding.halfEven.divide (n * tens places.toNat) (d * tens (-places).toNat)
      let r := nearest s (rounded * tens (-places).toNat) (tens places.toNat)
      if r.isFinite then some r else none

/-- The whole number nearest to a finite double. -/
def roundWhole? (x : Float) : Option Int :=
  (decode? x).map fun ⟨s, m, q⟩ =>
    let (n, d) := fraction m q
    Decimal.signedCoefficient s (Rounding.halfEven.divide n d)

end Reckon.Binary64
