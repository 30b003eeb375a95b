import Reckon.Fault

/-!
# Matrices

A matrix is a list of rows of one width, over any numbers with the four operations; a vector is a
list of numbers. Sums are taken from left to right, starting from zero.
-/

namespace Reckon

/-- A matrix: its rows and their width. -/
structure Grid (α : Type) where
  width : Nat
  rows : List (List α)
deriving DecidableEq, Repr

namespace Grid

variable {α : Type}

def height (m : Grid α) : Nat :=
  m.rows.length

def isSquare (m : Grid α) : Bool :=
  m.height == m.width

/-- Rows of the length of the first one; without any numbers the matrix has no rows. -/
def ofRows (rows : List (List α)) : Grid α :=
  match rows with
  | [] => ⟨0, []⟩
  | [] :: _ => ⟨0, []⟩
  | row :: others => ⟨row.length, row :: others⟩

/-- All rows have the length of the first one. -/
def regular (rows : List (List α)) : Bool :=
  match rows with
  | [] => true
  | row :: others => others.all (·.length == row.length)

/-- The entries of a column. -/
def column (m : Grid α) (j : Nat) : List α :=
  m.rows.filterMap (·[j]?)

def columns (m : Grid α) : List (List α) :=
  (List.range m.width).map m.column

/-- The matrix of columns of the given height. -/
def ofColumns (height : Nat) (columns : List (List α)) : Grid α :=
  ⟨columns.length, (List.range height).map fun i => columns.filterMap (·[i]?)⟩

def transpose (m : Grid α) : Grid α :=
  ofRows m.columns

def map (f : α → β) (m : Grid α) : Grid β :=
  ⟨m.width, m.rows.map (·.map f)⟩

section Numbers

variable [OfNat α 0] [OfNat α 1] [Add α] [Mul α]

/-- The sum of products of entries. -/
def dot (v w : List α) : α :=
  (v.zipWith (· * ·) w).foldl (· + ·) 0

def zero (height width : Nat) : Grid α :=
  ⟨width, List.replicate height (List.replicate width 0)⟩

/-- A row of the identity. -/
def unitRow (n i : Nat) : List α :=
  (List.range n).map fun j => if i = j then 1 else 0

def identity (n : Nat) : Grid α :=
  ⟨n, (List.range n).map (unitRow n)⟩

/-- The product of matrices whose inner dimensions agree. -/
def mul (a b : Grid α) : Grid α :=
  let columns := b.columns
  ⟨b.width, a.rows.map fun row => columns.map (dot row)⟩

def add (a b : Grid α) : Grid α :=
  ⟨a.width, a.rows.zipWith (·.zipWith (· + ·) ·) b.rows⟩

def scale (c : α) (m : Grid α) : Grid α :=
  m.map (c * ·)

/-- The sum of the diagonal. -/
def trace (m : Grid α) : α :=
  (m.rows.zipIdx.filterMap fun (row, i) => row[i]?).foldl (· + ·) 0

end Numbers

end Grid

end Reckon
