import Reckon.Linear.Text
import Reckon.Grid.Polynomial
import Reckon.Context

/-!
# Elimination on doubles

Entries below the tolerance of the settings are no pivots. Results are not cleaned; only the
determinant is rounded to the precision, and the coefficients of the characteristic polynomial to
the places of shown entries.
-/

namespace Reckon.Linear

/-- The entry is too small for a pivot. -/
def negligible (tolerance : Float) (x : Float) : Bool :=
  x.abs < tolerance

def echelon (p : Params) (m : Matrix64) : Except Fault Matrix64 :=
  m.echelon (negligible p.matrixEpsilon)

def rowReduce (p : Params) (m : Matrix64) : Except Fault Matrix64 :=
  m.rowReduce (negligible p.matrixEpsilon)

def isEchelon (p : Params) (m : Matrix64) : Bool :=
  m.isEchelon (negligible p.matrixEpsilon)

/-- The determinant of a square matrix, rounded to the precision. -/
def determinant (p : Params) (m : Matrix64) : Except Fault Term := do
  match ← m.determinant (negligible p.matrixEpsilon) with
  | none => return .numeric 0
  | some x => return .numeric (← Term.roundDigits (Binary64.toDecimal x) p.precision)

def inverse (p : Params) (m : Matrix64) : Except Fault Matrix64 :=
  m.inverse (negligible p.matrixEpsilon)

/-- The coefficients that are not negligible after rounding, as decimals with their degrees, the
leading one first. -/
def shownCoefficients (p : Params) (cs : List Float) : Except Fault (List (Nat × Decimal)) := do
  let rounded ← cs.mapM (roundEntry p.displayPlaces)
  let numbered := rounded.zipIdx.map fun (c, i) => (cs.length - 1 - i, c)
  return (numbered.filter fun (_, c) => !negligible p.matrixEpsilon c).map fun (k, c) =>
    (k, if c == 0 then 0 else Binary64.toDecimal c)

/-- The characteristic polynomial of a square matrix as a text. -/
def characteristicPolynomial (p : Params) (name : String) (m : Matrix64) : Except Fault Term := do
  if !m.isSquare then throw (.shape (.polynomial m.height m.width))
  return .ofName (polynomialText name (← shownCoefficients p m.charCoefficients))

end Reckon.Linear
