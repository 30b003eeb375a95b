import Reckon.Proofs.Grid.Sweep
import Mathlib.LinearAlgebra.Matrix.Echelon.Basic
import Mathlib.LinearAlgebra.Matrix.ToLin

/-!
# The reduced row echelon form

Exact elimination brings every matrix into its reduced row echelon form: the row space stays, and
two matrices of one shape have the same result exactly if they have the same row space
(`Grid.rowReduce_isReduced`). That the form is unique is a fact about matrices
(`Grid.reduced_unique`): the leading columns are those in which some vector of the row space starts,
and a vector of the row space is zero if it is zero in all of them.
-/

namespace Reckon.Grid

open Matrix

variable {K : Type} [Field K] {n w : ℕ}

/-! ## Reduced forms with one row space -/

section Unique

variable {A B : Matrix (Fin n) (Fin w) K}

theorem mem_span_row_iff {v : Fin w → K} :
    v ∈ Submodule.span K (Set.range A.row) ↔ ∃ a, a ᵥ* A = v := by
  rw [← range_vecMulLinear]
  rfl

/-- Leading columns increase. -/
theorem lead_lt_lead (echelon : A.IsRowEchelon) {i i' : Fin n} {c c' : Fin w}
    (lead : A.IsLeadingEntry i c) (lead' : A.IsLeadingEntry i' c') (above : i < i') : c < c' := by
  by_contra! before
  exact lead'.2 (echelon above fun l left => lead.1 l (left.trans_le before))

/-- A combination of the rows has their coefficients in the leading columns. -/
theorem vecMul_lead (reduced : A.IsReducedRowEchelon) {i : Fin n} {c : Fin w}
    (lead : A.IsLeadingEntry i c) (a : Fin n → K) : (a ᵥ* A) c = a i := by
  rw [vecMul, dotProduct, Finset.sum_eq_single i]
  · rw [reduced.eq_one lead, mul_one]
  · intro r _ other
    rw [reduced.eq_zero_of_ne_of_isLeadingEntry other lead, mul_zero]
  · simp

/-- A vector of the row space that is zero in all leading columns is zero. -/
theorem eq_zero_of_leads (reduced : A.IsReducedRowEchelon) {v : Fin w → K}
    (inSpace : v ∈ Submodule.span K (Set.range A.row))
    (zero : ∀ i c, A.IsLeadingEntry i c → v c = 0) : v = 0 := by
  obtain ⟨a, rfl⟩ := mem_span_row_iff.1 inSpace
  funext l
  change ∑ r, a r * A r l = 0
  refine Finset.sum_eq_zero fun r _ => ?_
  by_cases row : A r = 0
  · rw [row, Pi.zero_apply, mul_zero]
  · obtain ⟨c, lead⟩ := row_ne_zero_iff_exists_isLeadingEntry.1 row
    rw [← vecMul_lead reduced lead a, zero r c lead, zero_mul]

/-- The leading columns are the columns in which some vector of the row space starts. -/
theorem exists_lead_iff (reduced : A.IsReducedRowEchelon) {c : Fin w} :
    (∃ i, A.IsLeadingEntry i c) ↔
      ∃ v ∈ Submodule.span K (Set.range A.row), v c ≠ 0 ∧ ∀ l < c, v l = 0 := by
  constructor
  · rintro ⟨i, lead⟩
    exact ⟨A i, Submodule.subset_span ⟨i, rfl⟩, lead.2, lead.1⟩
  · rintro ⟨v, inSpace, starts, zeros⟩
    obtain ⟨a, rfl⟩ := mem_span_row_iff.1 inSpace
    have sum : ∑ r, a r * A r c ≠ 0 := starts
    obtain ⟨r, -, term⟩ := Finset.exists_ne_zero_of_sum_ne_zero sum
    have row : A r ≠ 0 := fun zero => term (by rw [zero, Pi.zero_apply, mul_zero])
    obtain ⟨c', lead⟩ := row_ne_zero_iff_exists_isLeadingEntry.1 row
    refine ⟨r, ?_⟩
    rcases lt_trichotomy c' c with before | rfl | after
    · rw [← vecMul_lead reduced lead a, zeros c' before, zero_mul] at term
      exact absurd rfl term
    · exact lead
    · rw [lead.1 c after, mul_zero] at term
      exact absurd rfl term

variable (reducedA : A.IsReducedRowEchelon) (reducedB : B.IsReducedRowEchelon)
  (space : Submodule.span K (Set.range A.row) = Submodule.span K (Set.range B.row))
include reducedA reducedB space

/-- Rows start in the same column if all rows above them do. -/
theorem lead_of_lead {i : Fin n} {c : Fin w}
    (above : ∀ r < i, ∀ l, A.IsLeadingEntry r l ↔ B.IsLeadingEntry r l)
    (lead : A.IsLeadingEntry i c) : B.IsLeadingEntry i c := by
  have leads_iff (l : Fin w) : (∃ r, A.IsLeadingEntry r l) ↔ ∃ r, B.IsLeadingEntry r l := by
    rw [exists_lead_iff reducedA, exists_lead_iff reducedB, space]
  obtain ⟨r, leadB⟩ := (leads_iff c).1 ⟨i, lead⟩
  rcases lt_trichotomy r i with less | rfl | greater
  · have leadA := (above r less c).2 leadB
    exact absurd (lead_lt_lead reducedA.isRowEchelon leadA lead less) (lt_irrefl c)
  · exact leadB
  · -- otherwise row `i` of the other form starts in a column where no row of this one can start
    have row : B i ≠ 0 := fun zero =>
      leadB.row_ne_zero (reducedB.isRowEchelon.row_eq_zero_of_lt greater zero)
    obtain ⟨l, leadB'⟩ := row_ne_zero_iff_exists_isLeadingEntry.1 row
    have left : l < c := lead_lt_lead reducedB.isRowEchelon leadB' leadB greater
    obtain ⟨r', leadA⟩ := (leads_iff l).2 ⟨i, leadB'⟩
    rcases lt_trichotomy r' i with less | rfl | greater
    · have leadB'' := (above r' less l).1 leadA
      exact absurd (lead_lt_lead reducedB.isRowEchelon leadB'' leadB' less) (lt_irrefl l)
    · exact absurd (leadA.unique lead) left.ne
    · exact absurd (lead_lt_lead reducedA.isRowEchelon lead leadA greater) left.asymm

/-- The rows of two reduced forms with one row space start in the same columns. -/
theorem lead_iff_lead (i : Fin n) (c : Fin w) : A.IsLeadingEntry i c ↔ B.IsLeadingEntry i c := by
  induction i using WellFoundedLT.induction generalizing c with
  | ind i above =>
    exact ⟨lead_of_lead reducedA reducedB space above,
      lead_of_lead reducedB reducedA space.symm fun r less l => (above r less l).symm⟩

/-- There is only one reduced form for a row space. -/
theorem reduced_unique : A = B := by
  have same_leads := lead_iff_lead reducedA reducedB space
  funext i
  refine sub_eq_zero.1 (eq_zero_of_leads reducedA ?_ fun r c lead => ?_)
  · exact Submodule.sub_mem _ (Submodule.subset_span ⟨i, rfl⟩)
      (space ▸ Submodule.subset_span ⟨i, rfl⟩)
  · have lead' := (same_leads r c).1 lead
    rw [Pi.sub_apply, sub_eq_zero]
    rcases eq_or_ne i r with rfl | other
    · rw [reducedA.eq_one lead, reducedB.eq_one lead']
    · rw [reducedA.eq_zero_of_ne_of_isLeadingEntry other lead,
        reducedB.eq_zero_of_ne_of_isLeadingEntry other lead']

end Unique

/-! ## The row space -/

/-- The combinations of the rows. -/
def rowSpace (w : ℕ) (m : Grid K) : Submodule K (Fin w → K) :=
  Submodule.span K (Set.range (toMatrix m.height w m.rows).row)

/-- An invertible matrix keeps the row space. -/
theorem Transformed.span_row_eq {reduced : Bool} {first rows : List (List K)} {swaps : ℕ}
    (transformed : Transformed reduced n w first rows swaps) :
    Submodule.span K (Set.range (toMatrix n w rows).row) =
      Submodule.span K (Set.range (toMatrix n w first).row) := by
  obtain ⟨E, product, nonzero, -⟩ := transformed
  have unit : IsUnit E.det := isUnit_iff_ne_zero.2 nonzero
  ext v
  rw [mem_span_row_iff, mem_span_row_iff, product]
  constructor
  · rintro ⟨a, rfl⟩
    exact ⟨a ᵥ* E, vecMul_vecMul a E _⟩
  · rintro ⟨a, rfl⟩
    refine ⟨a ᵥ* E⁻¹, ?_⟩
    rw [vecMul_vecMul, ← Matrix.mul_assoc, nonsing_inv_mul E unit, Matrix.one_mul]

variable [DecidableEq K] {m : Grid K}

/-! ## The result of the reduction -/

namespace Eliminated

variable {s : Sweep K} (done : Eliminated true m s)
include done

theorem pivot_eq_one {r p : ℕ} (here : s.pivots[r]? = some p) : cell s.rows r p = 1 := by
  simpa using done.swept.pivot r p here

/-- Rows start with their pivots. -/
theorem pivot_of_lead {i : Fin m.height} {c : Fin m.width}
    (lead : (toMatrix m.height m.width s.rows).IsLeadingEntry i c) :
    s.pivots[(i : ℕ)]? = some (c : ℕ) := by
  cases here : s.pivots[(i : ℕ)]? with
  | none =>
    have below := List.getElem?_eq_none_iff.1 here
    exact absurd (done.stairs.below i below c c.isLt) lead.2
  | some p =>
    have inside : p < m.width := done.swept.passed p (List.mem_of_getElem? here)
    rcases lt_trichotomy (c : ℕ) p with left | same | right
    · exact absurd (done.stairs.above i p here c left) lead.2
    · rw [same]
    · have zero : cell s.rows i p = 0 := lead.1 ⟨p, inside⟩ right
      rw [done.pivot_eq_one here] at zero
      exact absurd zero one_ne_zero

theorem isRowEchelon : (toMatrix m.height m.width s.rows).IsRowEchelon := by
  intro i i' above c zeros
  cases here : s.pivots[(i' : ℕ)]? with
  | none => exact done.stairs.below i' (List.getElem?_eq_none_iff.1 here) c c.isLt
  | some p =>
    refine done.stairs.above i' p here c ?_
    -- otherwise the pivot of the higher row would be zero
    by_contra! right
    obtain ⟨inside', at_i'⟩ := List.getElem?_eq_some_iff.1 here
    have inside : (i : ℕ) < s.pivots.length := (Fin.lt_def.1 above).trans inside'
    have left : s.pivots[(i : ℕ)] < s.pivots[(i' : ℕ)] :=
      List.pairwise_iff_getElem.1 done.swept.increasing i i' inside inside' above
    have before : s.pivots[(i : ℕ)] < c := by omega
    have zero : cell s.rows i s.pivots[(i : ℕ)] = 0 := zeros ⟨_, before.trans c.isLt⟩ before
    rw [done.pivot_eq_one (List.getElem?_eq_getElem inside)] at zero
    exact one_ne_zero zero

theorem isReducedRowEchelon : (toMatrix m.height m.width s.rows).IsReducedRowEchelon := by
  refine ⟨done.isRowEchelon, fun i c lead => done.pivot_eq_one (done.pivot_of_lead lead), ?_⟩
  intro i i' c above lead
  exact done.swept.alone i' c (done.pivot_of_lead lead) i (Fin.lt_def.1 above).ne (.inl rfl)

end Eliminated

/-- Without a row or without a column the result has neither. -/
theorem rowReduce_empty (rectangular : m.Rectangular) (empty : ¬ (m.height ≠ 0 ∧ m.width ≠ 0)) :
    m.rowReduce isZero = .ok ⟨0, []⟩ := by
  obtain ⟨s, done, eliminated⟩ := sweep_isZero rectangular true
  rw [rowReduce, done]
  exact congrArg Except.ok (ofRows_eq_empty eliminated.swept.shaped empty)

theorem rowReduce_filled (rectangular : m.Rectangular) (filled : m.height ≠ 0 ∧ m.width ≠ 0) :
    ∃ s, Eliminated true m s ∧ m.rowReduce isZero = .ok ⟨m.width, s.rows⟩ := by
  obtain ⟨s, done, eliminated⟩ := sweep_isZero rectangular true
  refine ⟨s, eliminated, ?_⟩
  rw [rowReduce, done]
  exact congrArg Except.ok (ofRows_eq eliminated.swept.shaped filled)

/-- Matrices of one shape and one row space have the same reduced form. -/
theorem rowReduce_congr {m' : Grid K} (rectangular : m.Rectangular)
    (rectangular' : m'.Rectangular) (height : m'.height = m.height) (width : m'.width = m.width)
    (space : m'.rowSpace m.width = m.rowSpace m.width) :
    m'.rowReduce isZero = m.rowReduce isZero := by
  by_cases filled : m.height ≠ 0 ∧ m.width ≠ 0
  · obtain ⟨s, eliminated, done⟩ := rowReduce_filled rectangular filled
    obtain ⟨s', eliminated', done'⟩ :=
      rowReduce_filled rectangular' (by rwa [height, width])
    have reduced' := eliminated'.isReducedRowEchelon
    have span' := eliminated'.transformed.span_row_eq
    have shaped' := eliminated'.swept.shaped
    rw [rowSpace, rowSpace, height] at space
    rw [height, width] at reduced' span' shaped'
    have same : toMatrix m.height m.width s'.rows = toMatrix m.height m.width s.rows :=
      reduced_unique reduced' eliminated.isReducedRowEchelon
        (by rw [span', space, eliminated.transformed.span_row_eq])
    have rows : s'.rows = s.rows := shaped'.ext eliminated.swept.shaped fun i below c left =>
      congrFun (congrFun same ⟨i, below⟩) ⟨c, left⟩
    rw [done, done', width, rows]
  · rw [rowReduce_empty rectangular filled, rowReduce_empty rectangular' (by rwa [height, width])]

/-- The result has the row space of the matrix and is in reduced row echelon form. -/
theorem exists_rowReduce (rectangular : m.Rectangular) :
    ∃ r, m.rowReduce isZero = .ok r ∧ r.Rectangular ∧
      (m.height ≠ 0 ∧ m.width ≠ 0 → r.height = m.height ∧ r.width = m.width) ∧
      r.rowSpace m.width = m.rowSpace m.width ∧
      (toMatrix r.height r.width r.rows).IsReducedRowEchelon := by
  by_cases filled : m.height ≠ 0 ∧ m.width ≠ 0
  · obtain ⟨s, eliminated, done⟩ := rowReduce_filled rectangular filled
    have height : (⟨m.width, s.rows⟩ : Grid K).height = m.height := eliminated.swept.shaped.height
    refine ⟨⟨m.width, s.rows⟩, done, eliminated.swept.shaped.width, fun _ => ⟨height, rfl⟩, ?_, ?_⟩
    · rw [rowSpace, height]
      exact eliminated.transformed.span_row_eq
    · rw [height]
      exact eliminated.isReducedRowEchelon
  · refine ⟨⟨0, []⟩, rowReduce_empty rectangular filled, by simp [Rectangular],
      fun h => absurd h filled, ?_, fun i => i.elim0, fun i => i.elim0, fun i => i.elim0⟩
    -- without rows or without columns there is only the zero vector
    have zero (m' : Grid K) (empty : m'.height = 0 ∨ m.width = 0) : m'.rowSpace m.width = ⊥ := by
      rw [rowSpace, Submodule.span_eq_bot]
      rintro _ ⟨i, rfl⟩
      rcases empty with height | width
      · exact (Fin.cast height i).elim0
      · funext c
        exact (Fin.cast width c).elim0
    rw [zero ⟨0, []⟩ (.inl rfl), zero m (by tauto)]

/-- Elimination brings every matrix into reduced row echelon form: the zero rows are last, and each
leading entry is one, to the right of the one above and alone in its column. The row space stays,
a second reduction changes nothing, and the matrices of the same shape with the same result are
those with the same row space. -/
theorem rowReduce_isReduced (rectangular : m.Rectangular) :
    ∃ r, m.rowReduce isZero = .ok r ∧ r.Rectangular ∧
      (m.height ≠ 0 ∧ m.width ≠ 0 → r.height = m.height ∧ r.width = m.width) ∧
      r.rowSpace m.width = m.rowSpace m.width ∧
      (toMatrix r.height r.width r.rows).IsReducedRowEchelon ∧
      r.rowReduce isZero = .ok r ∧
      ∀ m' : Grid K, m'.Rectangular → m'.height = m.height → m'.width = m.width →
        (m'.rowReduce isZero = .ok r ↔ m'.rowSpace m.width = m.rowSpace m.width) := by
  obtain ⟨r, done, rectangular_r, shape, space, reduced⟩ := exists_rowReduce rectangular
  refine ⟨r, done, rectangular_r, shape, space, reduced, ?_, fun m' rectangular' height width => ?_⟩
  · by_cases filled : m.height ≠ 0 ∧ m.width ≠ 0
    · obtain ⟨height, width⟩ := shape filled
      rw [rowReduce_congr rectangular rectangular_r height width space, done]
    · have empty : r = ⟨0, []⟩ :=
        Except.ok.inj (done.symm.trans (rowReduce_empty rectangular filled))
      rw [empty]
      rfl
  · constructor
    · intro done'
      obtain ⟨r', done'', -, -, space', -⟩ := exists_rowReduce rectangular'
      have same : r = r' := Except.ok.inj (done'.symm.trans done'')
      rw [← space, same, ← width, space']
    · intro space'
      rw [rowReduce_congr rectangular rectangular' height width space', done]

/-- A matrix of rank two whose first row has to be swapped away, and another one that has the same
row space because it has the same reduced form. -/
theorem rowReduce_rankTwo :
    let m : Grid ℚ := ⟨3, [[0, 2, 4], [1, 1, 1], [2, 4, 6]]⟩
    let m' : Grid ℚ := ⟨3, [[1, 3, 5], [0, 0, 0], [1, 0, -1]]⟩
    let r : Grid ℚ := ⟨3, [[1, 0, -1], [0, 1, 2], [0, 0, 0]]⟩
    m.Rectangular ∧ m.rowReduce isZero = .ok r ∧ r.rowSpace 3 = m.rowSpace 3 ∧
      (toMatrix 3 3 r.rows).IsReducedRowEchelon ∧ r.rowReduce isZero = .ok r ∧
      m'.rowSpace 3 = m.rowSpace 3 := by
  intro m m' r
  have rectangular : m.Rectangular := by unfold Rectangular; decide
  have rectangular' : m'.Rectangular := by unfold Rectangular; decide
  have done : m.rowReduce isZero = .ok r := by decide +kernel
  obtain ⟨r', done', -, -, space, reduced, again, same⟩ := rowReduce_isReduced rectangular
  obtain rfl : r' = r := Except.ok.inj (done'.symm.trans done)
  exact ⟨rectangular, done, space, reduced, again,
    (same m' rectangular' rfl rfl).1 (by decide +kernel)⟩

end Reckon.Grid
