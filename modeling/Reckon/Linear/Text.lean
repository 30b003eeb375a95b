import Reckon.Linear.Value
import Reckon.Binary64.Places

/-!
# The text of matrices and vectors

A matrix is shown as it is written, row by row: `[1 0.5][0 1]`. A whole entry has no point.
-/

namespace Reckon.Linear

/-- The decimal places of shown entries. -/
def defaultPlaces : Int := 5

/-- A double without a point if it is whole; zero has no sign. -/
def entryText (x : Float) : String :=
  if x == 0 then "0"
  else if Binary64.isWhole x then toString (Binary64.truncated x)
  else Binary64.text x

/-- A double rounded to decimal places. -/
def roundEntry (places : Int) (x : Float) : Except Fault Float :=
  match Binary64.roundPlaces? x places with
  | some r => .ok r
  | none => .error (.range .roundedTooLarge)

/-- A double rounded to a whole number. -/
def roundEntryWhole (x : Float) : Except Fault Float :=
  match Binary64.roundWhole? x with
  | some n => .ok (Binary64.ofDecimal (.ofInt n))
  | none =>
    .error (if x.isNaN then .domain .floatNanToInteger else .range .floatInfinityToInteger)

/-- Rounds to decimal places, or to whole numbers if there are none given. -/
def roundVector (places : Option Int) (v : Vector64) : Except Fault Vector64 :=
  v.mapM fun x =>
    match places with
    | some n => roundEntry n x
    | none => roundEntryWhole x

/-- Rounds every entry, column by column. -/
def roundMatrix (places : Option Int) (m : Matrix64) : Except Fault Matrix64 :=
  return Grid.ofColumns m.height (← m.columns.mapM (roundVector places))

/-- The text of a row of a matrix. -/
def rowText (places : Int) (row : Vector64) : Except Fault String :=
  return "[" ++ " ".intercalate ((← row.mapM (roundEntry places)).map entryText) ++ "]"

/-- The text of a matrix with its entries rounded. -/
def matrixText (places : Int) (m : Matrix64) : Except Fault String :=
  return "".intercalate (← m.rows.mapM (rowText places))

def vectorText (v : Vector64) : String :=
  "<" ++ ", ".intercalate (v.map entryText) ++ ">"

/-- The matrix as a call that builds it. -/
def matrixSource (m : Matrix64) : String :=
  let row (r : Vector64) := "[" ++ ", ".intercalate (r.map Binary64.text) ++ "]"
  "matrix.from_rows(" ++ ", ".intercalate (m.rows.map row) ++ ")"

/-- The vector as a call that builds it. -/
def vectorSource (v : Vector64) : String :=
  "vector(" ++ ", ".intercalate (v.map Binary64.text) ++ ")"

/-- The value as a call that builds it. -/
def Value.source : Value → String
  | .matrix m => matrixSource m
  | .vector v => vectorSource v
  | .number x => Binary64.text x
  | .text s => Text.quote s

/-- Rounds the entries of a value. -/
def Value.round (places : Option Int) : Value → Except Fault Value
  | .matrix m => return .matrix (← roundMatrix places m)
  | .vector v => return .vector (← roundVector places v)
  | v => .error (.noOperation v.kind "round")

end Reckon.Linear
