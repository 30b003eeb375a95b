import Mathlib.LinearAlgebra.Matrix.Charpoly.Coeff
import Reckon.Grid.Polynomial
import Reckon.Proofs.Grid.Product

/-!
# The characteristic polynomial

The adjugate of `x I - A` is a polynomial whose coefficients are matrices. As its product with
`x I - A` is the characteristic polynomial, every coefficient is `A` times the one above it plus a
multiple of the identity (`Grid.coeff_adjugatePolynomial`); as its trace is the derivative of the
characteristic polynomial, the traces give the next coefficient of that (`Grid.trace_mul_coeff`).
These are the matrices of the recurrence, from the leading coefficient down, so that it finds the
characteristic polynomial (`Grid.sum_charCoefficients`).
-/

namespace Reckon.Grid

open Polynomial

/-! ## The adjugate as a polynomial -/

section Adjugate

variable {K : Type} [Field K] {n : ℕ} (A : Matrix (Fin n) (Fin n) K)

/-- The derivative of a determinant: one column at a time is differentiated. -/
theorem derivative_det (M : Matrix (Fin n) (Fin n) K[X]) :
    derivative M.det = ∑ i, (M.updateCol i fun r => derivative (M r i)).det := by
  simp only [Matrix.det_apply, derivative_sum, derivative_smul, derivative_prod_finset,
    Finset.smul_sum]
  rw [Finset.sum_comm]
  refine Finset.sum_congr rfl fun i _ => Finset.sum_congr rfl fun σ _ => ?_
  rw [← Finset.prod_erase_mul _ _ (Finset.mem_univ i), Matrix.updateCol_self]
  congr 2
  refine Finset.prod_congr rfl fun j other => ?_
  rw [Matrix.updateCol_ne (Finset.ne_of_mem_erase other)]

theorem derivative_charpoly : derivative A.charpoly = A.charmatrix.adjugate.trace := by
  rw [Matrix.charpoly, derivative_det, Matrix.trace]
  refine Finset.sum_congr rfl fun i _ => ?_
  have column : (fun r => derivative (A.charmatrix r i)) = Pi.single i 1 := by
    ext1 r
    by_cases same : r = i
    · subst same
      simp
    · simp [same]
  have diagonal : A.charmatrix.adjugate i i = A.charmatrix.transpose.adjugate i i :=
    congrFun (congrFun (Matrix.adjugate_transpose A.charmatrix) i) i
  rw [column, Matrix.diag_apply, diagonal, Matrix.adjugate_apply, Matrix.updateRow_transpose,
    Matrix.det_transpose]

/-- The adjugate of `x I - A` as a polynomial whose coefficients are matrices. -/
noncomputable def adjugatePolynomial : (Matrix (Fin n) (Fin n) K)[X] :=
  matPolyEquiv A.charmatrix.adjugate

theorem trace_coeff_adjugatePolynomial (k : ℕ) :
    ((adjugatePolynomial A).coeff k).trace = (k + 1) * A.charpoly.coeff (k + 1) := by
  rw [mul_comm, ← coeff_derivative, derivative_charpoly, Matrix.trace, Matrix.trace,
    finsetSum_coeff]
  exact Finset.sum_congr rfl fun i _ => matPolyEquiv_coeff_apply _ k i i

theorem mul_adjugatePolynomial : (X - C A) * adjugatePolynomial A =
    A.charpoly.map (algebraMap K (Matrix (Fin n) (Fin n) K)) := by
  rw [adjugatePolynomial, ← Matrix.matPolyEquiv_charmatrix, ← map_mul, Matrix.mul_adjugate,
    ← matPolyEquiv_smul_one, Matrix.charpoly]

/-- Every coefficient comes from the one above it, as in a step of the recurrence. -/
theorem coeff_adjugatePolynomial (k : ℕ) : (adjugatePolynomial A).coeff k =
    A * (adjugatePolynomial A).coeff (k + 1) + A.charpoly.coeff (k + 1) • 1 := by
  have product := congrArg (coeff · (k + 1)) (mul_adjugatePolynomial A)
  simp only [sub_mul, coeff_sub, coeff_X_mul, coeff_C_mul, coeff_map] at product
  rw [← Algebra.algebraMap_eq_smul_one, ← product]
  abel

theorem mul_coeff_zero : A * (adjugatePolynomial A).coeff 0 = -(A.charpoly.coeff 0 • 1) := by
  have product := congrArg (coeff · 0) (mul_adjugatePolynomial A)
  simp only [sub_mul, coeff_sub, coeff_X_mul_zero, coeff_C_mul, coeff_map] at product
  rw [← Algebra.algebraMap_eq_smul_one, ← product]
  abel

/-- There is no coefficient from the dimension on. -/
theorem coeff_adjugatePolynomial_of_le {k : ℕ} (high : n ≤ k) :
    (adjugatePolynomial A).coeff k = 0 := by
  have above (d : ℕ) : (adjugatePolynomial A).coeff k =
      A ^ d * (adjugatePolynomial A).coeff (k + d) := by
    induction d with
    | zero => simp
    | succ d ih =>
      have zero : A.charpoly.coeff (k + d + 1) = 0 :=
        coeff_eq_zero_of_natDegree_lt (by simp; omega)
      rw [ih, coeff_adjugatePolynomial, zero, zero_smul, add_zero, pow_succ, mul_assoc, add_assoc]
  have beyond : (adjugatePolynomial A).natDegree < k + ((adjugatePolynomial A).natDegree + 1) := by
    omega
  rw [above ((adjugatePolynomial A).natDegree + 1), coeff_eq_zero_of_natDegree_lt beyond, mul_zero]

/-- The trace of the product with a coefficient is a multiple of the coefficient of the
characteristic polynomial. -/
theorem trace_mul_coeff {k : ℕ} (below : k ≤ n) :
    (A * (adjugatePolynomial A).coeff k).trace = -((n - k) * A.charpoly.coeff k) := by
  cases k with
  | zero =>
    rw [mul_coeff_zero, Matrix.trace_neg, Matrix.trace_smul, Matrix.trace_one, Fintype.card_fin,
      smul_eq_mul, Nat.cast_zero, sub_zero, mul_comm]
  | succ k =>
    have step := congrArg Matrix.trace (coeff_adjugatePolynomial A k)
    rw [trace_coeff_adjugatePolynomial, Matrix.trace_add, Matrix.trace_smul, Matrix.trace_one,
      Fintype.card_fin, smul_eq_mul] at step
    push_cast
    linear_combination -step

end Adjugate

/-! ## Sums, multiples and traces -/

section Shape

variable {α : Type} {n w : ℕ} {m : Grid α}

/-- The matrix has `n` rows and `w` columns. -/
structure Sized (n w : ℕ) (m : Grid α) : Prop where
  shaped : Shaped n w m.rows
  width : m.width = w

theorem Sized.rectangular (sized : Sized n w m) : m.Rectangular := fun row member =>
  (sized.shaped.width row member).trans sized.width.symm

end Shape

variable {K : Type} [Field K] {n w : ℕ} {m a b : Grid K}

theorem sized_zero (n w : ℕ) : Sized n w (zero n w : Grid K) := by
  refine ⟨⟨by simp [zero], fun row member => ?_⟩, rfl⟩
  obtain ⟨-, rfl⟩ := List.mem_replicate.1 member
  simp

theorem toMatrix_zero (n w : ℕ) : toMatrix n w (zero n w : Grid K).rows = 0 := by
  ext i j
  have row : rowAt (zero n w : Grid K).rows i = List.replicate w 0 := by
    rw [rowAt_eq_getElem (by simp [zero])]
    exact List.getElem_replicate _
  rw [toMatrix_apply, cell, row, entry_getElem (by simp), List.getElem_replicate, Matrix.zero_apply]

theorem Sized.scale (sized : Sized n w m) (c : K) : Sized n w (scale c m) := by
  refine ⟨⟨by simpa [Grid.scale, map] using sized.shaped.height, fun row member => ?_⟩, sized.width⟩
  obtain ⟨row', inside, rfl⟩ := List.mem_map.1 member
  rw [List.length_map, sized.shaped.width row' inside]

theorem toMatrix_scale (c : K) (m : Grid K) :
    toMatrix n w (scale c m).rows = c • toMatrix n w m.rows := by
  ext i j
  rw [Matrix.smul_apply, toMatrix_apply, toMatrix_apply]
  cases row : m.rows[(i : ℕ)]? with
  | none => simp [cell, rowAt, scale, map, row, entry]
  | some row' => cases at_j : row'[(j : ℕ)]? <;> simp [cell, rowAt, scale, map, row, entry, at_j]

theorem Sized.add (first : Sized n w a) (second : Sized n w b) : Sized n w (add a b) := by
  refine ⟨⟨by simp [Grid.add, first.shaped.height, second.shaped.height], fun row member => ?_⟩,
    first.width⟩
  obtain ⟨i, inside, rfl⟩ := List.getElem_of_mem member
  simp only [Grid.add, List.getElem_zipWith, List.length_zipWith]
  rw [first.shaped.width _ (List.getElem_mem _), second.shaped.width _ (List.getElem_mem _),
    min_self]

theorem toMatrix_add (first : Sized n w a) (second : Sized n w b) :
    toMatrix n w (add a b).rows = toMatrix n w a.rows + toMatrix n w b.rows := by
  ext i j
  have row : rowAt (add a b).rows i = (rowAt a.rows i).zipWith (· + ·) (rowAt b.rows i) := by
    have inside : i < a.rows.length := first.shaped.height ▸ i.isLt
    have inside' : i < b.rows.length := second.shaped.height ▸ i.isLt
    rw [rowAt_eq_getElem inside, rowAt_eq_getElem inside', rowAt_eq_getElem (by simp [add]; omega)]
    simp [add]
  have width := first.shaped.width_rowAt i.isLt
  have width' := second.shaped.width_rowAt i.isLt
  rw [Matrix.add_apply, toMatrix_apply, toMatrix_apply, toMatrix_apply, cell, cell, cell, row,
    entry_getElem (by simp [width, width']), entry_getElem (by omega), entry_getElem (by omega),
    List.getElem_zipWith]

theorem sized_identity (n : ℕ) : Sized n n (identity n : Grid K) :=
  ⟨shaped_identity n, rfl⟩

theorem Sized.mul {l : ℕ} (first : Sized n l a) (second : Sized l w b) : Sized n w (mul a b) := by
  have shaped := shaped_mul a b
  have height : a.height = n := first.shaped.height
  rw [height, second.width] at shaped
  exact ⟨shaped, second.width⟩

theorem Sized.toMatrix_mul {l : ℕ} (first : Sized n l a) (second : Sized l w b) :
    toMatrix n w (Grid.mul a b).rows = toMatrix n l a.rows * toMatrix l w b.rows := by
  have height : a.height = n := first.shaped.height
  have height' : b.height = l := second.shaped.height
  have product := Grid.toMatrix_mul first.rectangular second.rectangular
    (first.width.trans height'.symm)
  rwa [height, height', second.width] at product

theorem trace_eq (shaped : Shaped n n m.rows) : trace m = (toMatrix n n m.rows).trace := by
  have diagonal : (m.rows.zipIdx.filterMap fun pair => pair.1[pair.2]?) =
      List.ofFn fun i : Fin n => cell m.rows i i := by
    rw [← diagonal_eq shaped, ← List.filterMap_eq_map]
    refine List.filterMap_congr fun pair member => ?_
    have inside : pair.2 < pair.1.length := by
      rw [shaped.width _ (List.fst_mem_of_mem_zipIdx member), ← shaped.height]
      exact List.snd_lt_of_mem_zipIdx member
    simp [entry, inside]
  change (m.rows.zipIdx.filterMap fun pair => pair.1[pair.2]?).foldl (· + ·) 0 = _
  rw [diagonal, ← List.sum_eq_foldl, List.sum_ofFn]
  rfl

/-! ## The recurrence -/

section Recurrence

variable [CharZero K] {A : Matrix (Fin n) (Fin n) K}

/-- From any step on, the coefficients that are left are found, the highest one first. The matrix of
a step is the coefficient of the adjugate with the number of steps that are left. -/
theorem traceRecurrence_eq (sized : Sized n n m) (value : toMatrix n n m.rows = A) {fuel : ℕ}
    (few : fuel ≤ n) {k : K} (count : k = n - fuel + 1) {product : Grid K}
    (sized' : Sized n n product)
    (step : toMatrix n n product.rows = (adjugatePolynomial A).coeff fuel) :
    traceRecurrence m fuel k product (A.charpoly.coeff fuel) =
      (List.range fuel).reverse.map A.charpoly.coeff := by
  induction fuel generalizing k product with
  | zero => rfl
  | succ fuel ih =>
    have height : m.height = n := sized.shaped.height
    set next := add (mul m product) (scale (A.charpoly.coeff (fuel + 1)) (identity m.height))
      with next_def
    have shift : Sized n n (scale (A.charpoly.coeff (fuel + 1)) (identity m.height)) := by
      rw [height]
      exact (sized_identity n).scale _
    have sizedNext : Sized n n next := (sized.mul sized').add shift
    have nextStep : toMatrix n n next.rows = (adjugatePolynomial A).coeff fuel := by
      rw [next_def, toMatrix_add (sized.mul sized') shift, sized.toMatrix_mul sized',
        toMatrix_scale, height, toMatrix_identity, value, step, ← coeff_adjugatePolynomial]
    have coefficient : -(trace (mul m next)) / k = A.charpoly.coeff fuel := by
      have number : k = n - fuel := by
        rw [count]
        push_cast
        ring
      have nonzero : k ≠ 0 := by
        rw [number, sub_ne_zero, Nat.cast_inj.ne]
        omega
      rw [trace_eq (sized.mul sizedNext).shaped, sized.toMatrix_mul sizedNext, value, nextStep,
        trace_mul_coeff A (by omega), neg_neg, ← number, mul_div_cancel_left₀ _ nonzero]
    have counted : k + 1 = (n : K) - fuel + 1 := by
      rw [count]
      push_cast
      ring
    calc traceRecurrence m (fuel + 1) k product (A.charpoly.coeff (fuel + 1))
        = -(trace (mul m next)) / k ::
            traceRecurrence m fuel (k + 1) next (-(trace (mul m next)) / k) := rfl
      _ = A.charpoly.coeff fuel :: (List.range fuel).reverse.map A.charpoly.coeff := by
          rw [coefficient, ih (by omega) counted sizedNext nextStep]
      _ = (List.range (fuel + 1)).reverse.map A.charpoly.coeff := by
          rw [List.range_succ, List.reverse_append]
          rfl

/-- The coefficients are those of the characteristic polynomial, the leading one first. -/
theorem charCoefficients_eq (sized : Sized n n m) (value : toMatrix n n m.rows = A) :
    m.charCoefficients = (List.range (n + 1)).reverse.map A.charpoly.coeff := by
  have height : m.height = n := sized.shaped.height
  have leading : A.charpoly.coeff n = 1 := by
    have monic := A.charpoly_monic.coeff_natDegree
    rwa [A.charpoly_natDegree_eq_dim, Fintype.card_fin] at monic
  have start : toMatrix n n (zero n n : Grid K).rows = (adjugatePolynomial A).coeff n := by
    rw [toMatrix_zero, coeff_adjugatePolynomial_of_le A le_rfl]
  have rest := traceRecurrence_eq sized value le_rfl (k := 1) (by ring) (sized_zero n n) start
  rw [leading] at rest
  rw [charCoefficients, height, rest, List.range_succ, List.reverse_append, ← leading]
  rfl

end Recurrence

variable [CharZero K]

/-- The recurrence finds the characteristic polynomial of a square matrix of any size: the
coefficients times the powers of `x` add up to the determinant of `x I - m`. -/
theorem sum_charCoefficients (rectangular : m.Rectangular) (square : m.height = m.width) :
    m.charCoefficients.length = m.height + 1 ∧
      ∑ k ∈ Finset.range (m.height + 1), C (m.charCoefficients.reverse.getD k 0) * X ^ k =
        (Matrix.scalar (Fin m.height) X -
          C.mapMatrix (toMatrix m.height m.height m.rows)).det := by
  have shaped := rectangular.shaped
  rw [← square] at shaped
  have coefficients := charCoefficients_eq ⟨shaped, square.symm⟩ rfl
  refine ⟨by simp [coefficients], ?_⟩
  have degree : (toMatrix m.height m.height m.rows).charpoly.natDegree < m.height + 1 := by
    simp
  rw [← Matrix.charmatrix, ← Matrix.charpoly, as_sum_range' _ _ degree]
  refine Finset.sum_congr rfl fun k inside => ?_
  have below : k < m.height + 1 := Finset.mem_range.1 inside
  rw [coefficients, ← List.map_reverse, List.reverse_reverse, ← C_mul_X_pow_eq_monomial]
  simp [below]

/-- The coefficients for a matrix of three rows. -/
theorem sum_charCoefficients_three :
    let m : Grid ℚ := ⟨3, [[2, 1, 0], [0, 3, -1], [1 / 2, 0, 1]]⟩
    m.charCoefficients = [1, -6, 11, -11 / 2] ∧
      (Matrix.scalar (Fin 3) X - C.mapMatrix (toMatrix 3 3 m.rows)).det =
        X ^ 3 + C (-6) * X ^ 2 + C 11 * X + C (-11 / 2) := by
  intro m
  have rectangular : m.Rectangular := by unfold Rectangular; decide
  have value : m.charCoefficients = [1, -6, 11, -11 / 2] := by decide +kernel
  have terms : ∑ k ∈ Finset.range (3 + 1), C (m.charCoefficients.reverse.getD k 0) * X ^ k =
      X ^ 3 + C (-6) * X ^ 2 + C 11 * X + C (-11 / 2) := by
    rw [value]
    simp [Finset.sum_range_succ]
    ring
  exact ⟨value, (sum_charCoefficients rectangular rfl).2.symm.trans terms⟩

end Reckon.Grid
