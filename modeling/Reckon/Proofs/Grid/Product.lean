import Reckon.Proofs.Grid

/-!
# Products of matrices

The product of matrices, made of sums over rows and columns, has the entries of the product of
matrices in the sense of algebra (`Grid.toMatrix_mul`), and likewise the identity.
-/

namespace Reckon.Grid

variable {K : Type} [Field K] {n : ℕ}

theorem dot_eq_sum {v w : List K} (length : v.length = n) (length' : w.length = n) :
    dot v w = ∑ k : Fin n, entry v k * entry w k := by
  have terms : v.zipWith (· * ·) w = List.ofFn fun k : Fin n => entry v k * entry w k := by
    refine List.ext_getElem (by simp [length, length']) fun k inside inside' => ?_
    have inside : k < n := by simpa using inside'
    simp [entry_getElem (length ▸ inside), entry_getElem (length' ▸ inside)]
  rw [dot, terms, ← List.sum_ofFn, List.sum_eq_foldl]

/-- The entries of a column. -/
theorem column_eq {m : Grid K} (rectangular : m.Rectangular) {c : ℕ} (inside : c < m.width) :
    m.column c = m.rows.map (entry · c) := by
  rw [column, ← List.filterMap_eq_map]
  refine List.filterMap_congr fun row member => ?_
  have inside : c < row.length := rectangular row member ▸ inside
  simp [entry, inside]

theorem entry_column {m : Grid K} (rectangular : m.Rectangular) {c : ℕ} (inside : c < m.width)
    (i : ℕ) : entry (m.column c) i = cell m.rows i c := by
  rw [column_eq rectangular inside]
  rcases lt_or_ge i m.rows.length with below | outside
  · rw [entry_getElem (by simpa using below), List.getElem_map, cell, rowAt_eq_getElem below]
  · rw [entry_of_le (by simpa using outside), cell_of_height_le outside]

theorem shaped_mul (a b : Grid K) : Shaped a.height b.width (a.mul b).rows := by
  refine ⟨by simp [mul, height], fun row member => ?_⟩
  obtain ⟨row', -, rfl⟩ := List.mem_map.1 member
  simp [columns]

theorem cell_mul {a b : Grid K} (rectangular : a.Rectangular) (rectangular' : b.Rectangular)
    (inner : a.width = b.height) {i c : ℕ} (below : i < a.height) (left : c < b.width) :
    cell (a.mul b).rows i c = ∑ k : Fin b.height, cell a.rows i k * cell b.rows k c := by
  have row : rowAt (a.mul b).rows i = b.columns.map (dot (rowAt a.rows i)) := by
    have below : i < a.rows.length := below
    rw [rowAt_eq_getElem (by simpa [mul] using below), rowAt_eq_getElem below]
    exact List.getElem_map ..
  have width : (rowAt a.rows i).length = b.height := by
    rw [rectangular.shaped.width_rowAt below, inner]
  have height : (b.column c).length = b.height := by
    rw [column_eq rectangular' left, List.length_map, Grid.height]
  rw [cell, row, entry_getElem (by simpa [columns] using left), List.getElem_map]
  simp only [columns, List.getElem_map, List.getElem_range]
  rw [dot_eq_sum width height]
  simp only [entry_column rectangular' left, cell]

/-- The product of the program is the product of matrices. -/
theorem toMatrix_mul {a b : Grid K} (rectangular : a.Rectangular) (rectangular' : b.Rectangular)
    (inner : a.width = b.height) :
    toMatrix a.height b.width (a.mul b).rows =
      toMatrix a.height b.height a.rows * toMatrix b.height b.width b.rows := by
  ext i c
  rw [Matrix.mul_apply]
  exact cell_mul rectangular rectangular' inner i.isLt c.isLt

theorem shaped_identity (n : ℕ) : Shaped n n (identity n : Grid K).rows := by
  refine ⟨by simp [identity], fun row member => ?_⟩
  obtain ⟨i, -, rfl⟩ := List.mem_map.1 member
  simp [unitRow]

theorem entry_unitRow {i c : ℕ} (left : c < n) :
    entry (unitRow n i : List K) c = if i = c then 1 else 0 := by
  rw [entry_getElem (by simpa [unitRow] using left)]
  simp [unitRow]

theorem toMatrix_identity (n : ℕ) : toMatrix n n (identity n : Grid K).rows = 1 := by
  ext i c
  have row : rowAt (identity n : Grid K).rows i = unitRow n i := by
    rw [rowAt_eq_getElem (by simp [identity])]
    simp [identity]
  rw [toMatrix_apply, cell, row, entry_unitRow c.isLt, Matrix.one_apply]
  simp [Fin.ext_iff]

/-- A product of square matrices is the identity if it is so in algebra. -/
theorem mul_eq_identity {a b : Grid K} (rectangular : a.Rectangular)
    (rectangular' : b.Rectangular) (width : a.width = n) (height : a.height = n)
    (width' : b.width = n) (height' : b.height = n)
    (one : toMatrix n n a.rows * toMatrix n n b.rows = 1) : a.mul b = identity n := by
  have product := toMatrix_mul rectangular rectangular' (width.trans height'.symm)
  have shaped := shaped_mul a b
  rw [height, width', height'] at product
  rw [height, width'] at shaped
  have same : toMatrix n n (a.mul b).rows = toMatrix n n (identity n : Grid K).rows := by
    rw [product, one, toMatrix_identity]
  have rows : (a.mul b).rows = (identity n : Grid K).rows :=
    shaped.ext (shaped_identity n) fun i below c left =>
      congrFun (congrFun same ⟨i, below⟩) ⟨c, left⟩
  exact congrArg₂ Grid.mk width' rows

end Reckon.Grid
