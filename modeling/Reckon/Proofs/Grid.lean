import Reckon.Grid.Elimination
import Mathlib.LinearAlgebra.Matrix.NonsingularInverse
import Mathlib.LinearAlgebra.Matrix.SchurComplement
import Mathlib.LinearAlgebra.Matrix.Swap

/-!
# Row operations on the entries of a matrix

Exact elimination over a field. The entries of rows are read with two positions (`Grid.cell`), and
rows of one shape as a matrix (`Grid.toMatrix`). A swap exchanges two rows, and clearing a column
subtracts from every row a multiple of the pivot row (`Grid.cell_clearColumn`); both are products
with an invertible matrix. What one column of the sweep does is said once, in
`Grid.sweepColumn_cases`.
-/

namespace Reckon.Grid

/-! ## Shapes -/

section Shape

variable {α : Type} {n w : ℕ} {rows : List (List α)}

/-- Rows of the number `n`, each with `w` entries. -/
structure Shaped (n w : ℕ) (rows : List (List α)) : Prop where
  height : rows.length = n
  width : ∀ row ∈ rows, row.length = w

/-- Every row has the width of the matrix. -/
def Rectangular (m : Grid α) : Prop :=
  ∀ row ∈ m.rows, row.length = m.width

theorem Rectangular.shaped {m : Grid α} (rectangular : m.Rectangular) :
    Shaped m.height m.width m.rows :=
  ⟨rfl, rectangular⟩

/-- A row, empty outside of the rows. -/
def rowAt (rows : List (List α)) (i : ℕ) : List α :=
  rows.getD i []

theorem rowAt_eq_getElem {i : ℕ} (inside : i < rows.length) : rowAt rows i = rows[i] := by
  simp [rowAt, inside]

theorem rowAt_of_le {i : ℕ} (outside : rows.length ≤ i) : rowAt rows i = [] := by
  simp [rowAt, outside]

theorem Shaped.width_rowAt (shaped : Shaped n w rows) {i : ℕ} (inside : i < n) :
    (rowAt rows i).length = w := by
  have inside : i < rows.length := shaped.height ▸ inside
  rw [rowAt_eq_getElem inside]
  exact shaped.width _ (List.getElem_mem inside)

/-- Rows of the right number that all have the right width. -/
theorem Shaped.of_rowAt (height : rows.length = n) (width : ∀ i < n, (rowAt rows i).length = w) :
    Shaped n w rows := by
  refine ⟨height, fun row member => ?_⟩
  obtain ⟨i, inside, rfl⟩ := List.getElem_of_mem member
  rw [← rowAt_eq_getElem inside]
  exact width i (height ▸ inside)

/-- Rows without any are those of the matrix with no rows and no columns. -/
theorem ofRows_eq (shaped : Shaped n w rows) (filled : n ≠ 0 ∧ w ≠ 0) :
    ofRows rows = ⟨w, rows⟩ := by
  obtain ⟨some_row, some_column⟩ := filled
  match rows, shaped with
  | [], shaped => exact absurd shaped.height.symm some_row
  | [] :: _, shaped => exact absurd (shaped.width [] (by simp)).symm some_column
  | (x :: row) :: others, shaped =>
    have width : (x :: row).length = w := shaped.width _ (by simp)
    simp [ofRows, ← width]

theorem ofRows_eq_empty (shaped : Shaped n w rows) (empty : ¬ (n ≠ 0 ∧ w ≠ 0)) :
    ofRows rows = ⟨0, []⟩ := by
  match rows, shaped with
  | [], _ => rfl
  | [] :: _, _ => rfl
  | (x :: row) :: others, shaped =>
    have height := shaped.height
    have width := shaped.width (x :: row) (by simp)
    simp only [List.length_cons] at height width
    omega

end Shape

variable {K : Type} [Field K]

/-! ## Entries -/

/-- The entry at a place, zero outside of the rows. -/
def cell (rows : List (List K)) (i j : ℕ) : K :=
  entry (rowAt rows i) j

/-- The first `n` rows and `w` columns as a matrix. -/
def toMatrix (n w : ℕ) (rows : List (List K)) : Matrix (Fin n) (Fin w) K :=
  .of fun i j => cell rows i j

@[simp]
theorem toMatrix_apply {n w : ℕ} (rows : List (List K)) (i : Fin n) (j : Fin w) :
    toMatrix n w rows i j = cell rows i j := rfl

variable {n w : ℕ} {rows : List (List K)}

theorem entry_of_le {row : List K} {l : ℕ} (outside : row.length ≤ l) : entry row l = 0 := by
  simp [entry, outside]

theorem entry_getElem {row : List K} {l : ℕ} (inside : l < row.length) : entry row l = row[l] := by
  simp [entry, inside]

theorem cell_of_height_le {i : ℕ} (outside : rows.length ≤ i) (j : ℕ) : cell rows i j = 0 := by
  simp [cell, rowAt_of_le outside, entry]

theorem Shaped.cell_of_width_le (shaped : Shaped n w rows) (i : ℕ) {j : ℕ} (outside : w ≤ j) :
    cell rows i j = 0 := by
  by_cases inside : i < n
  · exact entry_of_le ((shaped.width_rowAt inside).trans_le outside)
  · exact cell_of_height_le (by rw [shaped.height]; omega) j

/-- Rows of one shape with the same entries are the same. -/
theorem Shaped.ext {rows' : List (List K)} (shaped : Shaped n w rows) (shaped' : Shaped n w rows')
    (same : ∀ i < n, ∀ j < w, cell rows i j = cell rows' i j) : rows = rows' := by
  refine List.ext_getElem (shaped.height.trans shaped'.height.symm) fun i inside inside' => ?_
  have below : i < n := shaped.height ▸ inside
  have width := shaped.width_rowAt below
  have width' := shaped'.width_rowAt below
  rw [← rowAt_eq_getElem inside, ← rowAt_eq_getElem inside']
  refine List.ext_getElem (width.trans width'.symm) fun j within within' => ?_
  rw [← entry_getElem within, ← entry_getElem within']
  exact same i below j (width ▸ within)

/-- The entries of the diagonal. -/
theorem diagonal_eq (shaped : Shaped n n rows) :
    (rows.zipIdx.map fun (row, i) => entry row i) = List.ofFn fun i : Fin n => cell rows i i := by
  refine List.ext_getElem (by simp [shaped.height]) fun i inside inside' => ?_
  have below : i < rows.length := by simpa using inside
  simp [cell, rowAt_eq_getElem below]

/-! ## Swapping two rows -/

section Swap

variable {α : Type} {n w i k : ℕ} {rows : List (List α)}

theorem rowAt_swap (inside : i < rows.length) (inside' : k < rows.length) (r : ℕ) :
    rowAt (swap i k rows) r = rowAt rows (Equiv.swap i k r) := by
  simp only [swap, rowAt, List.getD_eq_getElem?_getD, List.getElem?_set, List.length_set,
    Equiv.swap_apply_def]
  grind

/-- A row swapped with itself stays where it is. -/
theorem swap_self (inside : i < rows.length) : swap i i rows = rows := by
  simp [swap, inside]

theorem Shaped.swap (shaped : Shaped n w rows) (inside : i < n) (inside' : k < n) :
    Shaped n w (Grid.swap i k rows) := by
  refine .of_rowAt (by simp [Grid.swap, shaped.height]) fun r below => ?_
  rw [rowAt_swap (shaped.height ▸ inside) (shaped.height ▸ inside')]
  refine shaped.width_rowAt ?_
  rw [Equiv.swap_apply_def]
  split_ifs <;> assumption

end Swap

theorem Shaped.cell_swap (shaped : Shaped n w rows) {i k : ℕ} (inside : i < n) (inside' : k < n)
    (r l : ℕ) : cell (Grid.swap i k rows) r l = cell rows (Equiv.swap i k r) l := by
  rw [cell, cell, rowAt_swap (shaped.height ▸ inside) (shaped.height ▸ inside')]

/-! ## Clearing a column -/

/-- The pivot row when its column is cleared. -/
def pivotRow (reduced : Bool) (j : ℕ) (row : List K) : List K :=
  if reduced then row.map (· / entry row j) else row

@[simp]
theorem length_pivotRow (reduced : Bool) (j : ℕ) (row : List K) :
    (pivotRow reduced j row).length = row.length := by
  cases reduced <;> simp [pivotRow]

theorem entry_pivotRow (reduced : Bool) (j : ℕ) (row : List K) (l : ℕ) :
    entry (pivotRow reduced j row) l =
      if reduced then entry row l / entry row j else entry row l := by
  cases reduced
  · rfl
  · by_cases inside : l < row.length
    · simp [pivotRow, entry, inside]
    · simp [pivotRow, entry, not_lt.1 inside]

variable [DecidableEq K]

theorem length_clear (j : ℕ) {pivot row : List K} (same : row.length = pivot.length) :
    (clear j pivot row).length = row.length := by
  simp only [clear, List.length_set]
  split <;> simp [same]

/-- What is left of a row when its part along the pivot row is taken away. -/
theorem entry_clear {j : ℕ} {pivot row : List K} (same : row.length = pivot.length)
    (nonzero : entry pivot j ≠ 0) (l : ℕ) :
    entry (clear j pivot row) l = entry row l - entry row j / entry pivot j * entry pivot l := by
  by_cases inside : l < row.length
  · have inside' : l < pivot.length := same ▸ inside
    rw [entry_getElem ((length_clear j same).symm ▸ inside)]
    by_cases here : j = l
    · subst here
      simp [clear, div_mul_cancel₀ _ nonzero]
    · simp only [clear, List.getElem_set_ne here]
      split
      next none => simp [eq_of_beq none, entry_getElem inside]
      next => simp [entry_getElem inside, entry_getElem inside']
  · have outside : row.length ≤ l := not_lt.1 inside
    rw [entry_of_le ((length_clear j same).trans_le outside), entry_of_le outside,
      entry_of_le (same.symm.trans_le outside)]
    simp

theorem length_clearColumn (reduced : Bool) (k j : ℕ) (rows : List (List K)) :
    (clearColumn reduced k j rows).length = rows.length := by
  simp [clearColumn]

/-- The rows when a column is cleared. -/
theorem rowAt_clearColumn (reduced : Bool) (k j : ℕ) {i : ℕ} (inside : i < rows.length) :
    rowAt (clearColumn reduced k j rows) i =
      if i = k then pivotRow reduced j (rowAt rows k)
      else if reduced || k < i then clear j (pivotRow reduced j (rowAt rows k)) (rowAt rows i)
      else rowAt rows i := by
  simp [clearColumn, rowAt, pivotRow, inside]

theorem Shaped.clearColumn (shaped : Shaped n w rows) {k : ℕ} (inside : k < n) (reduced : Bool)
    (j : ℕ) : Shaped n w (Grid.clearColumn reduced k j rows) := by
  refine .of_rowAt ((length_clearColumn reduced k j rows).trans shaped.height) fun i below => ?_
  have width := shaped.width_rowAt below
  have pivotWidth := shaped.width_rowAt inside
  rw [rowAt_clearColumn reduced k j (shaped.height ▸ below)]
  split_ifs
  · rw [length_pivotRow, pivotWidth]
  · rw [length_clear j (by rw [length_pivotRow, width, pivotWidth]), width]
  · exact width

/-- How often the pivot row is taken away from a row. For the reduced form the pivot row loses
what makes its pivot differ from one. -/
def multiplier (reduced : Bool) (k j : ℕ) (rows : List (List K)) (i : ℕ) : K :=
  if i = k then if reduced then 1 - (cell rows k j)⁻¹ else 0
  else if reduced || k < i then cell rows i j / cell rows k j else 0

/-- Clearing a column takes a multiple of the pivot row away from every row. -/
theorem Shaped.cell_clearColumn (shaped : Shaped n w rows) {k j : ℕ} (inside : k < n)
    (nonzero : cell rows k j ≠ 0) (reduced : Bool) (i l : ℕ) :
    cell (Grid.clearColumn reduced k j rows) i l =
      cell rows i l - multiplier reduced k j rows i * cell rows k l := by
  by_cases below : i < n
  · have width : (rowAt rows i).length = (pivotRow reduced j (rowAt rows k)).length := by
      rw [length_pivotRow, shaped.width_rowAt below, shaped.width_rowAt inside]
    have pivot (l : ℕ) : entry (pivotRow reduced j (rowAt rows k)) l =
        if reduced then cell rows k l / cell rows k j else cell rows k l :=
      entry_pivotRow reduced j (rowAt rows k) l
    have nonzero' : entry (pivotRow reduced j (rowAt rows k)) j ≠ 0 := by
      rw [pivot]
      cases reduced <;> simp [nonzero]
    rw [cell, rowAt_clearColumn reduced k j (shaped.height ▸ below), multiplier]
    split_ifs with here scaled target
    · rw [here, pivot, if_pos scaled]
      field_simp
      ring
    · rw [here, pivot, if_neg scaled]
      ring
    · rw [entry_clear width nonzero', pivot, pivot, ← cell, ← cell]
      cases reduced
      · simp only [Bool.false_eq_true, if_false]
      · simp only [if_true]
        field_simp
    · rw [← cell]
      ring
  · have outside : rows.length ≤ i := by rw [shaped.height]; omega
    have other : i ≠ k := by omega
    rw [cell_of_height_le ((length_clearColumn reduced k j rows).trans_le outside),
      cell_of_height_le outside]
    simp [multiplier, other, cell_of_height_le outside]

section Cleared

variable (shaped : Shaped n w rows) {k j : ℕ} (inside : k < n) (nonzero : cell rows k j ≠ 0)
  (reduced : Bool)
include shaped inside nonzero

/-- A column in which the pivot row is zero stays as it is. -/
theorem Shaped.cell_clearColumn_of_zero (i : ℕ) {l : ℕ} (zero : cell rows k l = 0) :
    cell (Grid.clearColumn reduced k j rows) i l = cell rows i l := by
  rw [shaped.cell_clearColumn inside nonzero, zero, mul_zero, sub_zero]

theorem Shaped.cell_clearColumn_pivot :
    cell (Grid.clearColumn reduced k j rows) k j = if reduced then 1 else cell rows k j := by
  rw [shaped.cell_clearColumn inside nonzero, multiplier, if_pos rfl]
  split_ifs
  · field_simp
    ring
  · ring

/-- The pivot is alone in its column, without the reduced form below it. -/
theorem Shaped.cell_clearColumn_column {i : ℕ} (other : i ≠ k) (target : reduced = true ∨ k < i) :
    cell (Grid.clearColumn reduced k j rows) i j = 0 := by
  have target : (reduced || decide (k < i)) = true := by simpa using target
  rw [shaped.cell_clearColumn inside nonzero, multiplier, if_neg other, if_pos target,
    div_mul_cancel₀ _ nonzero, sub_self]

/-- Without the reduced form the rows down to the pivot row stay as they are. -/
theorem Shaped.cell_clearColumn_above {i : ℕ} (above : i ≤ k) (l : ℕ) :
    cell (Grid.clearColumn false k j rows) i l = cell rows i l := by
  rw [shaped.cell_clearColumn inside nonzero, multiplier]
  simp [not_lt.2 above]

end Cleared

end Reckon.Grid
