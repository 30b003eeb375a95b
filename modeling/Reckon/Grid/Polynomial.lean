import Reckon.Grid.Elimination
import Reckon.Decimal.Text

/-!
# The characteristic polynomial

The coefficients of `det (x I - m)` by the recurrence of products and traces: from `M₀ = 0` and
the leading coefficient one, `Mₖ = m Mₖ₋₁ + c I` with the last coefficient `c`, and the next
coefficient is `- trace (m Mₖ) / k`.
-/

namespace Reckon

namespace Grid

variable {α : Type} [OfNat α 0] [OfNat α 1] [Add α] [Mul α] [Div α] [Neg α]

/-- The coefficients after the one that is `last`: `k` is the number of the next one and `product`
the matrix of the step before. -/
def traceRecurrence (m : Grid α) : (fuel : Nat) → (k : α) → (product : Grid α) → (last : α) → List α
  | 0, _, _, _ => []
  | fuel + 1, k, product, last =>
    let product := add (mul m product) (scale last (identity m.height))
    let next := -(trace (mul m product)) / k
    next :: traceRecurrence m fuel (k + 1) product next

/-- The coefficients of the characteristic polynomial of a square matrix, the leading one
first. -/
def charCoefficients (m : Grid α) : List α :=
  1 :: traceRecurrence m m.height 1 (zero m.height m.height) 1

end Grid

/-! ## The text of a polynomial -/

/-- A coefficient with the power of the variable that it belongs to, without its sign. A
coefficient of one is left out in front of a variable. -/
def powerTerm (name : String) (degree : Nat) (magnitude : Decimal) : String :=
  let coefficient := magnitude.plain
  if degree = 0 then coefficient
  else
    (if coefficient == "1" then "" else coefficient) ++ name ++
      if degree = 1 then "" else "^" ++ toString degree

/-- The terms of a polynomial after the text `before`: every term has a sign, except that the
first one has no plus. -/
def polynomialFrom (name : String) (before : String) : List (Nat × Decimal) → String
  | [] => before
  | (degree, c) :: rest =>
    if c.isNegative then
      polynomialFrom name (before ++ "-" ++ powerTerm name degree c.flip) rest
    else
      polynomialFrom name
        (before ++ (if before.isEmpty then "" else "+") ++ powerTerm name degree c) rest

/-- A polynomial given by degrees and coefficients; zero without any. -/
def polynomialText (name : String) (terms : List (Nat × Decimal)) : String :=
  let text := polynomialFrom name "" terms
  if text.isEmpty then "0" else text

end Reckon
