import Reckon.Proofs.Grid.Sweep
import Mathlib.LinearAlgebra.Matrix.Block

/-!
# The determinant

The echelon form is the matrix times one whose determinant is the sign of the swaps. With a pivot in
every column it is triangular, and otherwise its last row is zero: so exact elimination computes the
determinant of the matrix (`Grid.determinant_eq_det`).
-/

namespace Reckon.Grid

variable {K : Type} [Field K] {n : ℕ} {rows : List (List K)}

theorem foldl_mul_eq (start : K) (factors : List K) :
    factors.foldl (· * ·) start = start * factors.prod := by
  induction factors generalizing start with
  | nil => simp
  | cons factor rest ih => rw [List.foldl_cons, ih, List.prod_cons, mul_assoc]

/-- The factors of the determinant are the entries of the diagonal. -/
theorem prod_diagonal (shaped : Shaped n n rows) :
    (rows.zipIdx.map fun (row, i) => entry row i).prod = ∏ i : Fin n, toMatrix n n rows i i := by
  rw [diagonal_eq shaped, List.prod_ofFn]
  rfl

theorem sign_eq_pow (swaps : ℕ) : (if swaps % 2 = 1 then -1 else 1 : K) = (-1) ^ swaps := by
  rcases Nat.even_or_odd swaps with even | odd
  · rw [even.neg_one_pow, if_neg (by rw [Nat.even_iff.1 even]; decide)]
  · rw [odd.neg_one_pow, if_pos (Nat.odd_iff.1 odd)]

variable [DecidableEq K] {m : Grid K} {s : Sweep K}

namespace Eliminated

theorem det_eq (done : Eliminated false m s) (square : m.height = m.width) :
    (toMatrix m.height m.height s.rows).det =
      (-1) ^ s.swaps * (toMatrix m.height m.height m.rows).det := by
  have transformed := done.transformed
  rw [← square] at transformed
  obtain ⟨E, product, -, sign⟩ := transformed
  rw [product, Matrix.det_mul, sign rfl]

/-- With a pivot in every column the echelon form is triangular. -/
theorem det_eq_prod (done : Eliminated false m s) (square : m.height = m.width)
    (full : m.height ≤ s.pivots.length) :
    (toMatrix m.height m.height s.rows).det =
      ∏ i : Fin m.height, toMatrix m.height m.height s.rows i i := by
  have range := eq_range_of_increasing done.swept.increasing (square ▸ done.swept.passed) full
  refine Matrix.det_of_isUpperTriangular fun i c left => ?_
  refine done.stairs.above i i ?_ c left
  rw [range, List.getElem?_range i.isLt]

/-- With a column without a pivot the last row is zero. -/
theorem det_eq_zero (done : Eliminated false m s) (square : m.height = m.width)
    (missing : s.pivots.length < m.height) : (toMatrix m.height m.height s.rows).det = 0 :=
  Matrix.det_eq_zero_of_row_eq_zero ⟨s.pivots.length, missing⟩ fun c =>
    done.stairs.below _ le_rfl c (square ▸ c.isLt)

end Eliminated

/-- Exact elimination computes the determinant of a square matrix of any size; none, the result of
a column without a pivot, stands for zero. -/
theorem determinant_eq_det (rectangular : m.Rectangular) (square : m.height = m.width) :
    ∃ d, m.determinant isZero = .ok d ∧ d.getD 0 = (toMatrix m.height m.height m.rows).det := by
  obtain ⟨s, swept, done⟩ := sweep_isZero rectangular false
  have isSquare : m.isSquare = true := by simp [isSquare, square]
  have sign : (-1 : K) ^ s.swaps * (-1) ^ s.swaps = 1 := by
    rw [← mul_pow, neg_one_mul, neg_neg, one_pow]
  have det : (toMatrix m.height m.height m.rows).det =
      (-1) ^ s.swaps * (toMatrix m.height m.height s.rows).det := by
    rw [done.det_eq square, ← mul_assoc, sign, one_mul]
  by_cases missing : s.pivots.length < m.height
  · refine ⟨none, ?_, ?_⟩
    · simp [determinant, isSquare, swept, missing, bind, Except.bind, pure, Except.pure]
    · rw [det, done.det_eq_zero square missing, mul_zero, Option.getD_none]
  · have shaped : Shaped m.height m.height s.rows := by
      have shaped := done.swept.shaped
      rwa [← square] at shaped
    refine ⟨some ((s.rows.zipIdx.map fun (row, i) => entry row i).foldl (· * ·)
      (if s.swaps % 2 = 1 then -1 else 1)), ?_, ?_⟩
    · simp [determinant, isSquare, swept, missing, bind, Except.bind, pure, Except.pure]
    · rw [det, done.det_eq_prod square (not_lt.1 missing), Option.getD_some, foldl_mul_eq,
        prod_diagonal shaped, sign_eq_pow]

/-- One swap for a regular matrix, and a singular one without a pivot in its last column. -/
theorem det_eq_of_determinant :
    let m : Grid ℚ := ⟨3, [[0, 2, 1], [3, 1, 1], [6, 4, 5]]⟩
    let m' : Grid ℚ := ⟨3, [[0, 2, 1], [3, 1, 1], [3, 3, 2]]⟩
    (m.determinant isZero = .ok (some (-12)) ∧ (toMatrix 3 3 m.rows).det = -12) ∧
      m'.determinant isZero = .ok none ∧ (toMatrix 3 3 m'.rows).det = 0 := by
  intro m m'
  have rectangular : m.Rectangular := by unfold Rectangular; decide
  have rectangular' : m'.Rectangular := by unfold Rectangular; decide
  have value : m.determinant isZero = .ok (some (-12)) := by decide +kernel
  have value' : m'.determinant isZero = .ok none := by decide +kernel
  obtain ⟨d, done, det⟩ := determinant_eq_det rectangular rfl
  obtain ⟨d', done', det'⟩ := determinant_eq_det rectangular' rfl
  obtain rfl := Except.ok.inj (value.symm.trans done)
  obtain rfl := Except.ok.inj (value'.symm.trans done')
  exact ⟨⟨value, det.symm⟩, value', det'.symm⟩

end Reckon.Grid
