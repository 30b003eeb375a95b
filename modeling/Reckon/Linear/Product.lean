import Reckon.Linear.Value

/-!
# Products and entries

What can be multiplied with what, and access to rows, columns and entries. A negative position
counts from the end.
-/

namespace Reckon.Linear

/-- The sum of the products of the entries. -/
def dot (v w : Vector64) : Except Fault Float :=
  if v.length = w.length then .ok (Grid.dot v w) else .error (.shape .vectors)

/-- Every entry times a number. -/
def scaleVector (c : Float) (v : Vector64) : Vector64 :=
  v.map (· * c)

def scaleMatrix (c : Float) (m : Matrix64) : Matrix64 :=
  m.map (· * c)

/-- The product of two matrices. -/
def mulMatrix (a b : Matrix64) : Except Fault Matrix64 :=
  if a.width = b.height then .ok (a.mul b) else .error (.shape .matrixProduct)

/-- The product of a matrix and a column. -/
def mulVector (a : Matrix64) (v : Vector64) : Except Fault Vector64 :=
  if v.length = a.width then .ok (a.rows.map fun row => Grid.dot row v)
  else .error (.shape .matrixVectorProduct)

/-- The product of two values. A message names the vector first, wherever it stands beside a
text. -/
def mul (a b : Value) : Except Fault Value :=
  match a, b with
  | .matrix m, .number x => .ok (.matrix (scaleMatrix x m))
  | .number x, .matrix m => .ok (.matrix (scaleMatrix x m))
  | .matrix m, .matrix n => return .matrix (← mulMatrix m n)
  | .matrix m, .vector v => return .vector (← mulVector m v)
  | .vector v, .number x => .ok (.vector (scaleVector x v))
  | .number x, .vector v => .ok (.vector (scaleVector x v))
  | .number x, .number y => .ok (.number (x * y))
  | .text s, .vector v => .error (.kind (.product (Value.vector v).kind (Value.text s).kind))
  | a, b => .error (.kind (.product a.kind b.kind))

/-! ## Entries -/

/-- The item at a position. -/
def at? (items : List α) (i : Int) : Option α :=
  if 0 ≤ i then items[i.toNat]?
  else if -(items.length : Int) ≤ i then items[(items.length + i).toNat]?
  else none

/-- The item at a position, which has to be there. -/
def item (items : List α) (i : Int) : Except Fault α :=
  match at? items i with
  | some a => .ok a
  | none => .error (.position .list)

/-- A row; without columns every row is empty. -/
def row (m : Matrix64) (i : Int) : Except Fault Vector64 :=
  m.columns.mapM (item · i)

def column (m : Matrix64) (j : Int) : Except Fault Vector64 :=
  item m.columns j

def entryAt (m : Matrix64) (i j : Int) : Except Fault Float := do
  item (← column m j) i

/-- How much the entries of equal matrices may differ. -/
def defaultTolerance : Float := 1e-5

/-- The matrices have the same shape and entries that differ by less than the tolerance. -/
def close (tolerance : Float) (a b : Matrix64) : Bool :=
  a.height == b.height && a.width == b.width &&
    (a.rows.zip b.rows).all fun (r, s) => (r.zip s).all fun (x, y) => (x - y).abs < tolerance

end Reckon.Linear
