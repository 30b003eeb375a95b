import Reckon.Proofs.Grid.Product
import Reckon.Proofs.Grid.Sweep

/-!
# The inverse

The two halves of the matrix next to the identity go through the same row operations: in the end the
right half is the product of the operations, and the left half is that product times the matrix
(`Grid.Eliminated.halves`). The pivots are the columns of the left half exactly if the determinant
is not zero; then the left half has become the identity. So exact elimination finds the inverse on
both sides wherever there is one, and otherwise reports that the matrix is singular
(`Grid.inverse_isInverse`).
-/

namespace Reckon.Grid

variable {K : Type} [Field K] {m : Grid K}

/-! ## The matrix next to the identity -/

theorem height_augmented (m : Grid K) : m.augmented.height = m.height := by
  simp [augmented, height]

theorem rowAt_augmented {i : ℕ} (below : i < m.height) :
    rowAt m.augmented.rows i = rowAt m.rows i ++ unitRow m.height i := by
  have below' : i < m.augmented.rows.length := below.trans_eq (height_augmented m).symm
  rw [rowAt_eq_getElem below', rowAt_eq_getElem below]
  exact List.getElem_mapIdx ..

theorem Rectangular.augmented (rectangular : m.Rectangular) : m.augmented.Rectangular := by
  refine (Shaped.of_rowAt (height_augmented m) fun i below => ?_).width
  rw [rowAt_augmented below, List.length_append, rectangular.shaped.width_rowAt below]
  simp [Grid.augmented, unitRow]

theorem cell_augmented_left (rectangular : m.Rectangular) {i c : ℕ} (below : i < m.height)
    (left : c < m.width) : cell m.augmented.rows i c = cell m.rows i c := by
  have width := rectangular.shaped.width_rowAt below
  rw [cell, rowAt_augmented below, entry, List.getD_eq_getElem?_getD,
    List.getElem?_append_left (by omega), ← List.getD_eq_getElem?_getD]
  rfl

theorem cell_augmented_right (rectangular : m.Rectangular) {i c : ℕ} (below : i < m.height)
    (right : c < m.height) :
    cell m.augmented.rows i (m.width + c) = if i = c then 1 else 0 := by
  have width := rectangular.shaped.width_rowAt below
  rw [cell, rowAt_augmented below, entry, List.getD_eq_getElem?_getD,
    List.getElem?_append_right (by omega), width, Nat.add_sub_cancel_left,
    ← List.getD_eq_getElem?_getD]
  exact entry_unitRow right

/-- The entries of the right half. -/
theorem cell_map_drop (d : ℕ) (rows : List (List K)) (i c : ℕ) :
    cell (rows.map (·.drop d)) i c = cell rows i (d + c) := by
  cases row : rows[i]? <;> simp [cell, rowAt, entry, row]

theorem Shaped.map_drop {α : Type} {n w : ℕ} {rows : List (List α)} (shaped : Shaped n w rows)
    (d : ℕ) : Shaped n (w - d) (rows.map (·.drop d)) := by
  refine ⟨by simpa using shaped.height, fun row member => ?_⟩
  obtain ⟨whole, whole_mem, rfl⟩ := List.mem_map.1 member
  rw [List.length_drop, shaped.width whole whole_mem]

/-! ## The pivots -/

namespace Eliminated

variable [DecidableEq K] {s : Sweep K} (done : Eliminated true m.augmented s)
include done

/-- If the pivots are the columns of the left half, it is the identity. -/
theorem left_eq_one (pivots : s.pivots = List.range m.height) :
    toMatrix m.height m.height s.rows = 1 := by
  ext i c
  have here : s.pivots[(c : ℕ)]? = some (c : ℕ) := by rw [pivots, List.getElem?_range c.isLt]
  rw [toMatrix_apply, Matrix.one_apply]
  split_ifs with same
  · subst same
    simpa using done.swept.pivot i i here
  · exact done.swept.alone c c here i (Fin.val_ne_of_ne same) (.inl rfl)

variable (rectangular : m.Rectangular) (square : m.height = m.width)
include rectangular square

/-- The right half is the product of the row operations, and the left half is what they make of the
matrix. -/
theorem halves :
    let x := toMatrix m.height m.height (s.rows.map (·.drop m.height))
    toMatrix m.height m.height s.rows = x * toMatrix m.height m.height m.rows ∧ x.det ≠ 0 := by
  have transformed := done.transformed
  rw [height_augmented] at transformed
  obtain ⟨E, product, nonzero, -⟩ := transformed
  have cell_eq (i : Fin m.height) {c : ℕ} (inside : c < m.width + m.height) :
      cell s.rows i c = ∑ k, E i k * cell m.augmented.rows k c :=
    congrFun (congrFun product i) ⟨c, inside⟩
  have right : toMatrix m.height m.height (s.rows.map (·.drop m.height)) = E := by
    ext i c
    have inside : m.height + c < m.width + m.height := by omega
    have unit (k : Fin m.height) :
        cell m.augmented.rows k (m.height + c) = if k = c then 1 else 0 := by
      have entry := cell_augmented_right rectangular k.isLt c.isLt
      rw [← square] at entry
      rw [entry]
      simp only [Fin.val_inj]
    rw [toMatrix_apply, cell_map_drop, cell_eq i inside]
    simp [unit]
  dsimp only
  rw [right]
  refine ⟨?_, nonzero⟩
  ext i c
  rw [Matrix.mul_apply, toMatrix_apply, cell_eq i (by omega)]
  refine Finset.sum_congr rfl fun k _ => ?_
  rw [cell_augmented_left rectangular k.isLt (square ▸ c.isLt), toMatrix_apply]

/-- If the determinant is not zero, no pivot is in the right half: the left half would have a row of
zeros. -/
theorem pivots_eq_range (regular : (toMatrix m.height m.height m.rows).det ≠ 0) :
    s.pivots = List.range m.height := by
  obtain ⟨left, nonzero⟩ := done.halves rectangular square
  have regular' : (toMatrix m.height m.height s.rows).det ≠ 0 := by
    rw [left, Matrix.det_mul]
    exact mul_ne_zero nonzero regular
  have wide : m.augmented.width = m.width + m.height := rfl
  have pivot (i : Fin m.height) : ∃ p < m.height, s.pivots[(i : ℕ)]? = some p := by
    by_contra! none
    refine regular' (Matrix.det_eq_zero_of_row_eq_zero i fun c => ?_)
    cases here : s.pivots[(i : ℕ)]? with
    | none => exact done.stairs.below i (List.getElem?_eq_none_iff.1 here) c (by omega)
    | some p =>
      have right : m.height ≤ p := by
        by_contra! left
        exact none p left here
      exact done.stairs.above i p here c (by omega)
  have rank_le : s.pivots.length ≤ m.height := height_augmented m ▸ done.swept.rank_le
  refine eq_range_of_increasing done.swept.increasing (fun p member => ?_) ?_
  · obtain ⟨r, inside, rfl⟩ := List.getElem_of_mem member
    obtain ⟨p, left, here⟩ := pivot ⟨r, by omega⟩
    rwa [(List.getElem_eq_iff inside).2 here]
  · by_contra! missing
    obtain ⟨p, -, here⟩ := pivot ⟨s.pivots.length, missing⟩
    simp at here

theorem pivots_eq_range_iff :
    s.pivots = List.range m.height ↔ (toMatrix m.height m.height m.rows).det ≠ 0 := by
  refine ⟨fun pivots zero => ?_, done.pivots_eq_range rectangular square⟩
  have left := (done.halves rectangular square).1
  rw [done.left_eq_one pivots] at left
  have one := congrArg Matrix.det left
  rw [Matrix.det_one, Matrix.det_mul, zero, mul_zero] at one
  exact one_ne_zero one

end Eliminated

/-! ## The result -/

/-- Exact elimination finds the inverse of a square matrix, on both sides, if the determinant is not
zero. If it is zero the matrix is reported to be singular. -/
theorem inverse_isInverse [DecidableEq K] (rectangular : m.Rectangular)
    (square : m.height = m.width) (filled : m.height ≠ 0) :
    ((toMatrix m.height m.height m.rows).det ≠ 0 →
      ∃ x, m.inverse isZero = .ok x ∧ x.Rectangular ∧ x.height = m.height ∧ x.width = m.height ∧
        m.mul x = identity m.height ∧ x.mul m = identity m.height) ∧
    ((toMatrix m.height m.height m.rows).det = 0 → m.inverse isZero = .error .singular) := by
  obtain ⟨s, swept, done⟩ := sweep_isZero rectangular.augmented true
  have isSquare : m.isSquare = true := by simp [isSquare, square]
  have inverse_eq : m.inverse isZero = if s.pivots = List.range m.height then
      .ok (ofRows (s.rows.map (·.drop m.height))) else .error .singular := by
    simp only [inverse, isSquare, Bool.not_true, Bool.false_eq_true, if_false, filled, swept, bind,
      Except.bind, pure, Except.pure, beq_iff_eq]
    rfl
  have pivots_iff := done.pivots_eq_range_iff rectangular square
  rw [inverse_eq]
  refine ⟨fun regular => ?_, fun zero => if_neg fun pivots => pivots_iff.1 pivots zero⟩
  have pivots := pivots_iff.2 regular
  have shaped : Shaped m.height m.height (s.rows.map (·.drop m.height)) := by
    have shaped := done.swept.shaped.map_drop m.height
    have half : m.augmented.width - m.height = m.height := by simp [augmented, square]
    rwa [height_augmented, half] at shaped
  have product : toMatrix m.height m.height (s.rows.map (·.drop m.height)) *
      toMatrix m.height m.height m.rows = 1 := by
    rw [← (done.halves rectangular square).1, done.left_eq_one pivots]
  refine ⟨⟨m.height, s.rows.map (List.drop m.height)⟩, ?_, shaped.width, shaped.height, rfl, ?_, ?_⟩
  · rw [if_pos pivots, ofRows_eq shaped ⟨filled, filled⟩]
  · exact mul_eq_identity rectangular shaped.width square.symm rfl rfl shaped.height
      (mul_eq_one_comm.1 product)
  · exact mul_eq_identity shaped.width rectangular rfl shaped.height square.symm rfl product

/-- The inverse of a matrix that needs a swap, and a singular matrix whose second pivot is in the
right half. -/
theorem inverse_swapped_and_singular :
    let m : Grid ℚ := ⟨2, [[0, 2], [3, 1]]⟩
    let x : Grid ℚ := ⟨2, [[-1 / 6, 1 / 3], [1 / 2, 0]]⟩
    let m' : Grid ℚ := ⟨2, [[1, 2], [2, 4]]⟩
    (m.inverse isZero = .ok x ∧ m.mul x = identity 2 ∧ x.mul m = identity 2) ∧
      m'.inverse isZero = .error .singular := by
  intro m x m'
  have rectangular : m.Rectangular := by unfold Rectangular; decide
  have rectangular' : m'.Rectangular := by unfold Rectangular; decide
  have regular : (toMatrix 2 2 m.rows).det ≠ 0 := by
    rw [Matrix.det_fin_two]
    decide +kernel
  have zero : (toMatrix 2 2 m'.rows).det = 0 := by
    rw [Matrix.det_fin_two]
    decide +kernel
  have value : m.inverse isZero = .ok x := by decide +kernel
  obtain ⟨x', done, -, -, -, right, left⟩ :=
    (inverse_isInverse rectangular rfl (by decide)).1 regular
  obtain rfl : x' = x := Except.ok.inj (done.symm.trans value)
  exact ⟨⟨value, right, left⟩, (inverse_isInverse rectangular' rfl (by decide)).2 zero⟩

end Reckon.Grid
