import Reckon.Grid.Basic

/-!
# Elimination

Columns are swept from left to right. The first entry at or below the next pivot row that is not
negligible becomes the pivot; its row is swapped up and the column is cleared below it. For the
reduced form the pivot row is scaled to one and the column is cleared above it too.
-/

namespace Reckon

namespace Grid

variable {α : Type} [OfNat α 0] [OfNat α 1] [Sub α] [Mul α] [Div α] [BEq α]

/-- The rows during a sweep, the number of swaps and the columns of the pivots found. -/
structure Sweep (α : Type) where
  rows : List (List α)
  swaps : Nat := 0
  pivots : List Nat := []
  /-- Something was divided by a pivot that is zero, which a test of entries that calls zero
  negligible rules out. -/
  zeroDivision : Bool := false

/-- The entry of a row in a column. -/
def entry (row : List α) (j : Nat) : α :=
  row.getD j 0

/-- The first row from the `start`-th on whose entry in a column is not negligible. -/
def findPivot? (negligible : α → Bool) (rows : List (List α)) (start j : Nat) : Option Nat :=
  ((rows.drop start).findIdx? fun row => !negligible (entry row j)).map (start + ·)

def swap (i k : Nat) (rows : List (List α)) : List (List α) :=
  (rows.set i (rows.getD k [])).set k (rows.getD i [])

/-- The row without its part along the pivot row; the entry in the pivot column is exactly
zero. -/
def clear (j : Nat) (pivot row : List α) : List α :=
  let factor := entry row j / entry pivot j
  let row := if factor == 0 then row else row.zipWith (fun a b => a - factor * b) pivot
  row.set j 0

/-- The rows after the `k`-th one, which has its pivot in column `j`, has cleared that column. -/
def clearColumn (reduced : Bool) (k j : Nat) (rows : List (List α)) : List (List α) :=
  let row := rows.getD k []
  let pivot := if reduced then row.map (· / entry row j) else row
  rows.mapIdx fun i row =>
    if i = k then pivot else if reduced || k < i then clear j pivot row else row

/-- One column of the sweep. -/
def sweepColumn (negligible : α → Bool) (reduced : Bool) (s : Sweep α) (j : Nat) : Sweep α :=
  let k := s.pivots.length
  match findPivot? negligible s.rows k j with
  | none => s
  | some i =>
    let rows := if i = k then s.rows else swap i k s.rows
    { rows := clearColumn reduced k j rows
      swaps := if i = k then s.swaps else s.swaps + 1
      pivots := s.pivots ++ [j]
      zeroDivision := s.zeroDivision ||
        (entry (rows.getD k []) j == 0 && (reduced || k + 1 < rows.length)) }

/-- The sweep over all columns. -/
def eliminate (negligible : α → Bool) (reduced : Bool) (m : Grid α) : Sweep α :=
  (List.range m.width).foldl (sweepColumn negligible reduced) { rows := m.rows }

/-- The sweep, which must not have divided by zero. -/
def sweep (negligible : α → Bool) (reduced : Bool) (m : Grid α) : Except Fault (Sweep α) :=
  let s := m.eliminate negligible reduced
  if s.zeroDivision then .error .floatDivision else .ok s

/-- Row echelon form; the leading entries are as they come. -/
def echelon (negligible : α → Bool) (m : Grid α) : Except Fault (Grid α) := do
  let s ← m.sweep negligible false
  return ofRows s.rows

/-- Reduced row echelon form. -/
def rowReduce (negligible : α → Bool) (m : Grid α) : Except Fault (Grid α) := do
  let s ← m.sweep negligible true
  return ofRows s.rows

/-- The column of the first entry of a row that is not negligible. -/
def leading? (negligible : α → Bool) (row : List α) : Option Nat :=
  row.findIdx? (!negligible ·)

/-- The leading columns increase from row to row, and rows without one come last; `least` is the
smallest column that the next row may have. -/
def leadsIncrease : (least : Nat) → List (Option Nat) → Bool
  | _, [] => true
  | _, none :: rest => rest.all Option.isNone
  | least, some j :: rest => least ≤ j && leadsIncrease (j + 1) rest

/-- The matrix is in row echelon form. -/
def isEchelon (negligible : α → Bool) (m : Grid α) : Bool :=
  leadsIncrease 0 (m.rows.map (leading? negligible))

/-- The determinant of a square matrix: the product of the diagonal of the echelon form, with its
sign changed once per swap. None stands for zero, where some column has no pivot. -/
def determinant [Neg α] (negligible : α → Bool) (m : Grid α) : Except Fault (Option α) := do
  if !m.isSquare then throw (.shape (.determinant m.height m.width))
  let s ← m.sweep negligible false
  if s.pivots.length < m.height then return none
  let start : α := if s.swaps % 2 = 1 then -1 else 1
  return some ((s.rows.zipIdx.map fun (row, i) => entry row i).foldl (· * ·) start)

/-- The rows of the matrix next to those of the identity. -/
def augmented (m : Grid α) : Grid α :=
  ⟨m.width + m.height, m.rows.mapIdx fun i row => row ++ unitRow m.height i⟩

/-- The inverse of a square matrix of at least one row, read off the reduced form of the matrix
next to the identity. The matrix is singular if the pivots are not its columns. -/
def inverse (negligible : α → Bool) (m : Grid α) : Except Fault (Grid α) := do
  if !m.isSquare then throw (.shape (.inverse m.height m.width))
  if m.height = 0 then throw (.domain .identitySize)
  let s ← m.augmented.sweep negligible true
  if s.pivots == List.range m.height then return ofRows (s.rows.map (·.drop m.height))
  else throw .singular

end Grid

end Reckon
