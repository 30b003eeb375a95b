import Reckon.Proofs.Grid

/-!
# The sweep of the columns

The state in front of every column is described by one invariant, whatever test tells which
entries are negligible: the pivots found so far increase, are not negligible (one in the reduced
form) and are alone in their columns below (and above) them (`Grid.Swept`). Each column multiplies
the rows by an invertible matrix, whose determinant counts the swaps (`Grid.Transformed`).

Where the search for a pivot passes over zeros only, every row has zeros in front of its pivot
(`Grid.Staircase`).
-/

namespace Reckon.Grid

variable {K : Type} [Field K] {negligible : K → Bool} {reduced : Bool} {n w j : ℕ}
  {rows : List (List K)} {pivots : List ℕ} {s : Sweep K}

/-! ## One column -/

theorem findPivot?_eq_none {start : ℕ} (none : findPivot? negligible rows start j = none) {i : ℕ}
    (from_start : start ≤ i) (inside : i < rows.length) : negligible (cell rows i j) = true := by
  simp only [findPivot?, Option.map_eq_none_iff, List.findIdx?_eq_none_iff] at none
  have member : rowAt rows i ∈ rows.drop start := by
    rw [rowAt_eq_getElem inside]
    exact List.mem_drop_iff_getElem.2 ⟨i - start, by omega, by congr 1; omega⟩
  simpa [cell] using none _ member

theorem findPivot?_eq_some {start i : ℕ} (some : findPivot? negligible rows start j = some i) :
    start ≤ i ∧ i < rows.length ∧ negligible (cell rows i j) = false := by
  simp only [findPivot?, Option.map_eq_some_iff] at some
  obtain ⟨d, found, rfl⟩ := some
  obtain ⟨inside, first, -⟩ := List.findIdx?_eq_some_iff_getElem.1 found
  have inside : start + d < rows.length := by simpa [Nat.lt_sub_iff_add_lt'] using inside
  refine ⟨by omega, inside, ?_⟩
  simpa [cell, rowAt_eq_getElem inside] using first

/-- A column without a pivot is left as it is. Otherwise the row of the pivot is swapped up, and the
column is cleared with it. -/
theorem sweepColumn_cases [DecidableEq K] (shaped : Shaped n w s.rows) (negligible : K → Bool)
    (reduced : Bool) (j : ℕ) :
    (findPivot? negligible s.rows s.pivots.length j = none ∧
      sweepColumn negligible reduced s j = s) ∨
    ∃ i, s.pivots.length ≤ i ∧ i < n ∧ negligible (cell s.rows i j) = false ∧
      sweepColumn negligible reduced s j =
        { rows := clearColumn reduced s.pivots.length j (swap i s.pivots.length s.rows)
          swaps := if i = s.pivots.length then s.swaps else s.swaps + 1
          pivots := s.pivots ++ [j]
          zeroDivision := s.zeroDivision || (cell s.rows i j == 0 &&
            (reduced || s.pivots.length + 1 < n)) } := by
  unfold sweepColumn
  dsimp only
  cases found : findPivot? negligible s.rows s.pivots.length j with
  | none => exact .inl ⟨rfl, rfl⟩
  | some i =>
    obtain ⟨below, inside, pivot⟩ := findPivot?_eq_some found
    have inside' : s.pivots.length < s.rows.length := by omega
    have swapped : (if i = s.pivots.length then s.rows else swap i s.pivots.length s.rows) =
        swap i s.pivots.length s.rows := by
      split_ifs with same
      · rw [same, swap_self inside']
      · rfl
    have top : cell (swap i s.pivots.length s.rows) s.pivots.length j = cell s.rows i j := by
      rw [shaped.cell_swap (shaped.height ▸ inside) (shaped.height ▸ inside'),
        Equiv.swap_apply_right]
    have height : (swap i s.pivots.length s.rows).length = n :=
      (shaped.swap (shaped.height ▸ inside) (shaped.height ▸ inside')).height
    refine .inr ⟨i, below, shaped.height ▸ inside, pivot, ?_⟩
    dsimp only
    rw [swapped, height, ← top]
    rfl

/-! ## What holds in front of every column -/

/-- The rows and pivots in front of column `j`, for rows of one shape. -/
structure Swept (negligible : K → Bool) (reduced : Bool) (n w j : ℕ) (rows : List (List K))
    (pivots : List ℕ) : Prop where
  shaped : Shaped n w rows
  rank_le : pivots.length ≤ n
  increasing : pivots.Pairwise (· < ·)
  passed : ∀ p ∈ pivots, p < j
  pivot : ∀ r p, pivots[r]? = some p →
    if reduced then cell rows r p = 1 else negligible (cell rows r p) = false
  alone : ∀ r p, pivots[r]? = some p → ∀ i, i ≠ r → reduced = true ∨ r < i → cell rows i p = 0

/-- A pivot is one of the old ones or the new one. -/
theorem getElem?_concat {r p : ℕ} (here : (pivots ++ [j])[r]? = some p) :
    pivots[r]? = some p ∨ r = pivots.length ∧ p = j := by
  rcases lt_or_ge r pivots.length with old | new
  · rw [List.getElem?_append_left old] at here
    exact .inl here
  · rw [List.getElem?_append_right new, List.getElem?_singleton] at here
    grind

namespace Swept

theorem start (shaped : Shaped n w rows) : Swept negligible reduced n w 0 rows [] :=
  ⟨shaped, Nat.zero_le _, .nil, by simp, by simp, by simp⟩

/-- A column without a pivot. -/
theorem skip (swept : Swept negligible reduced n w j rows pivots) :
    Swept negligible reduced n w (j + 1) rows pivots :=
  { swept with passed := fun p member => (swept.passed p member).trans (Nat.lt_succ_self j) }

/-- Swaps of the rows that have no pivot yet do not matter. -/
theorem swap (swept : Swept negligible reduced n w j rows pivots) {i : ℕ}
    (below : pivots.length ≤ i) (inside : i < n) :
    Swept negligible reduced n w j (Grid.swap i pivots.length rows) pivots := by
  have cell_eq := swept.shaped.cell_swap inside (below.trans_lt inside)
  refine ⟨swept.shaped.swap inside (below.trans_lt inside), swept.rank_le, swept.increasing,
    swept.passed, fun r p here => ?_, fun r p here i' other target => ?_⟩
  · have above : r < pivots.length := (List.getElem?_eq_some_iff.1 here).1
    rw [cell_eq, Equiv.swap_apply_of_ne_of_ne (by omega) (by omega)]
    exact swept.pivot r p here
  · have above : r < pivots.length := (List.getElem?_eq_some_iff.1 here).1
    rw [cell_eq]
    refine swept.alone r p here _ ?_ ?_ <;> rw [Equiv.swap_apply_def] <;> split_ifs <;> omega

/-- Clearing a column with a pivot in the next pivot row. -/
theorem clear [DecidableEq K] (swept : Swept negligible reduced n w j rows pivots)
    (zero : negligible 0 = true) (inside : pivots.length < n)
    (pivot : negligible (cell rows pivots.length j) = false) :
    Swept negligible reduced n w (j + 1) (clearColumn reduced pivots.length j rows)
      (pivots ++ [j]) := by
  have nonzero : cell rows pivots.length j ≠ 0 := fun h => by simp [h, zero] at pivot
  have above {r p : ℕ} (here : pivots[r]? = some p) : r < pivots.length :=
    (List.getElem?_eq_some_iff.1 here).1
  -- the pivot row is zero in the columns of the pivots before it
  have unchanged {r p : ℕ} (here : pivots[r]? = some p) (i : ℕ) :
      cell (clearColumn reduced pivots.length j rows) i p = cell rows i p :=
    swept.shaped.cell_clearColumn_of_zero inside nonzero reduced i
      (swept.alone r p here _ (above here).ne' (.inr (above here)))
  refine ⟨swept.shaped.clearColumn inside reduced j, by simpa using inside, ?_, ?_, ?_, ?_⟩
  · rw [List.pairwise_append]
    exact ⟨swept.increasing, List.pairwise_singleton _ _,
      fun p member q last => (List.mem_singleton.1 last) ▸ swept.passed p member⟩
  · intro p member
    rcases List.mem_append.1 member with member | last
    · exact (swept.passed p member).trans (Nat.lt_succ_self j)
    · exact (List.mem_singleton.1 last) ▸ Nat.lt_succ_self j
  · intro r p here
    rcases getElem?_concat here with old | ⟨rfl, rfl⟩
    · rw [unchanged old]
      exact swept.pivot r p old
    · rw [swept.shaped.cell_clearColumn_pivot inside nonzero]
      split_ifs
      · rfl
      · exact pivot
  · intro r p here i other target
    rcases getElem?_concat here with old | ⟨rfl, rfl⟩
    · rw [unchanged old]
      exact swept.alone r p old i other target
    · exact swept.shaped.cell_clearColumn_column inside nonzero reduced other target

end Swept

/-- If there are as many pivots as columns, they are the columns. -/
theorem eq_range_of_increasing (increasing : pivots.Pairwise (· < ·)) (below : ∀ p ∈ pivots, p < n)
    (full : n ≤ pivots.length) : pivots = List.range n := by
  have nodup : pivots.Nodup := increasing.imp fun less => less.ne
  have inRange : pivots ⊆ List.range n := fun p member => List.mem_range.2 (below p member)
  have perm : pivots.Perm (List.range n) :=
    (nodup.subperm inRange).perm_of_length_le (by simpa using full)
  exact perm.eq_of_pairwise (fun a b _ _ less less' => absurd less less'.asymm) increasing
    List.pairwise_lt_range

/-! ## All columns -/

section All

variable [DecidableEq K]

/-- The state in front of a column. -/
def front (m : Grid K) (negligible : K → Bool) (reduced : Bool) (j : ℕ) : Sweep K :=
  (List.range j).foldl (sweepColumn negligible reduced) { rows := m.rows }

theorem front_succ (m : Grid K) (j : ℕ) :
    m.front negligible reduced (j + 1) =
      sweepColumn negligible reduced (m.front negligible reduced j) j := by
  rw [front, List.range_succ, List.foldl_append]
  rfl

/-- What a swap of rows and the clearing of a column keep, and a column without a pivot as well,
holds when all columns are swept. Nothing is divided by zero. -/
theorem eliminate_induction {m : Grid K} (rectangular : m.Rectangular) (zero : negligible 0 = true)
    (reduced : Bool) {P : ℕ → List (List K) → List ℕ → ℕ → Prop} (start : P 0 m.rows [] 0)
    (skip : ∀ j < m.width, let s := m.front negligible reduced j
      Swept negligible reduced m.height m.width j s.rows s.pivots →
      findPivot? negligible s.rows s.pivots.length j = none →
      P j s.rows s.pivots s.swaps → P (j + 1) s.rows s.pivots s.swaps)
    (swap : ∀ j rows pivots swaps i, Swept negligible reduced m.height m.width j rows pivots →
      pivots.length ≤ i → i < m.height → P j rows pivots swaps →
      P j (swap i pivots.length rows) pivots (if i = pivots.length then swaps else swaps + 1))
    (clear : ∀ j rows pivots swaps, Swept negligible reduced m.height m.width j rows pivots →
      pivots.length < m.height → negligible (cell rows pivots.length j) = false →
      P j rows pivots swaps →
      P (j + 1) (clearColumn reduced pivots.length j rows) (pivots ++ [j]) swaps) :
    let s := m.eliminate negligible reduced
    Swept negligible reduced m.height m.width m.width s.rows s.pivots ∧ s.zeroDivision = false ∧
      P m.width s.rows s.pivots s.swaps := by
  suffices run : ∀ j ≤ m.width, let s := m.front negligible reduced j
      Swept negligible reduced m.height m.width j s.rows s.pivots ∧ s.zeroDivision = false ∧
        P j s.rows s.pivots s.swaps from run m.width le_rfl
  intro j within
  induction j with
  | zero => exact ⟨.start rectangular.shaped, rfl, start⟩
  | succ j ih =>
    obtain ⟨swept, exact, holds⟩ := ih (by omega)
    dsimp only
    rw [front_succ]
    rcases sweepColumn_cases swept.shaped negligible reduced j with
      ⟨none, same⟩ | ⟨i, below, inside, pivot, next⟩
    · rw [same]
      exact ⟨swept.skip, exact, skip j within swept none holds⟩
    · rw [next]
      have raised := swept.swap below inside
      have nonzero : cell (m.front negligible reduced j).rows i j ≠ 0 :=
        fun h => by simp [h, zero] at pivot
      rw [← Equiv.swap_apply_right i (m.front negligible reduced j).pivots.length,
        ← swept.shaped.cell_swap inside (below.trans_lt inside)] at pivot
      exact ⟨raised.clear zero (below.trans_lt inside) pivot, by simp [exact, nonzero],
        clear j _ _ _ raised (below.trans_lt inside) pivot
          (swap j _ _ _ i swept below inside holds)⟩

theorem eliminate_swept {m : Grid K} (rectangular : m.Rectangular) (zero : negligible 0 = true)
    (reduced : Bool) :
    let s := m.eliminate negligible reduced
    Swept negligible reduced m.height m.width m.width s.rows s.pivots ∧ s.zeroDivision = false := by
  have run := eliminate_induction rectangular zero reduced (P := fun _ _ _ _ => True) trivial
    (by simp) (by simp) (by simp)
  exact ⟨run.1, run.2.1⟩

end All

/-! ## Multiplication with an invertible matrix -/

/-- The matrix that takes multiples of row `k` away from the rows. -/
def takeAway (c : Fin n → K) (k : Fin n) : Matrix (Fin n) (Fin n) K :=
  1 + Matrix.replicateCol Unit (-c) * Matrix.replicateRow Unit (Pi.single k (1 : K))

theorem takeAway_mul_apply (c : Fin n → K) (k : Fin n) (A : Matrix (Fin n) (Fin w) K) (i : Fin n)
    (l : Fin w) : (takeAway c k * A) i l = A i l - c i * A k l := by
  rw [takeAway, Matrix.add_mul, Matrix.one_mul, Matrix.mul_assoc, Matrix.add_apply]
  simp [Matrix.mul_apply, Pi.single_apply, sub_eq_add_neg]

theorem det_takeAway (c : Fin n → K) (k : Fin n) : (takeAway c k).det = 1 - c k := by
  rw [takeAway, Matrix.det_one_add_replicateCol_mul_replicateRow]
  simp [sub_eq_add_neg]

/-- Rows that an invertible matrix makes of the first ones. Without the reduced form its determinant
counts the swaps. -/
def Transformed (reduced : Bool) (n w : ℕ) (first rows : List (List K)) (swaps : ℕ) : Prop :=
  ∃ E : Matrix (Fin n) (Fin n) K, toMatrix n w rows = E * toMatrix n w first ∧ E.det ≠ 0 ∧
    (reduced = false → E.det = (-1) ^ swaps)

namespace Transformed

variable {first : List (List K)} {swaps : ℕ}

theorem refl (rows : List (List K)) : Transformed reduced n w rows rows 0 :=
  ⟨1, (Matrix.one_mul _).symm, by simp, by simp⟩

theorem swap (transformed : Transformed reduced n w first rows swaps) (shaped : Shaped n w rows)
    {i k : ℕ} (inside : i < n) (inside' : k < n) :
    Transformed reduced n w first (Grid.swap i k rows) (if i = k then swaps else swaps + 1) := by
  obtain ⟨E, product, nonzero, sign⟩ := transformed
  let σ : Equiv.Perm (Fin n) := Equiv.swap ⟨i, inside⟩ ⟨k, inside'⟩
  have rows_eq : toMatrix n w (Grid.swap i k rows) = σ.permMatrix K * toMatrix n w rows := by
    rw [Equiv.Perm.permMatrix, PEquiv.toMatrix_toPEquiv_mul]
    ext r l
    have same : (Equiv.swap i k r : ℕ) = (σ r : ℕ) := by
      simp only [σ, Equiv.swap_apply_def, Fin.ext_iff]
      split_ifs <;> rfl
    simp [shaped.cell_swap inside inside', same]
  have det : (σ.permMatrix K).det = if i = k then 1 else -1 := by
    rw [Matrix.det_permutation]
    split_ifs with same
    · simp [σ, same]
    · simp [σ, same]
  refine ⟨σ.permMatrix K * E, by rw [rows_eq, product, Matrix.mul_assoc], ?_, fun unreduced => ?_⟩
  · rw [Matrix.det_mul, det]
    split_ifs <;> simpa using nonzero
  · rw [Matrix.det_mul, det, sign unreduced]
    split_ifs <;> ring

theorem clear [DecidableEq K] (transformed : Transformed reduced n w first rows swaps)
    (shaped : Shaped n w rows) {k j : ℕ} (inside : k < n) (nonzero : cell rows k j ≠ 0) :
    Transformed reduced n w first (clearColumn reduced k j rows) swaps := by
  obtain ⟨E, product, nonzero', sign⟩ := transformed
  let C : Matrix (Fin n) (Fin n) K := takeAway (fun i => multiplier reduced k j rows i) ⟨k, inside⟩
  have rows_eq : toMatrix n w (clearColumn reduced k j rows) = C * toMatrix n w rows := by
    ext i l
    rw [toMatrix_apply, shaped.cell_clearColumn inside nonzero, takeAway_mul_apply]
    rfl
  have det : C.det = if reduced then (cell rows k j)⁻¹ else 1 := by
    rw [det_takeAway, multiplier, if_pos rfl]
    split_ifs <;> ring
  refine ⟨C * E, by rw [rows_eq, product, Matrix.mul_assoc], ?_, fun unreduced => ?_⟩
  · rw [Matrix.det_mul, det]
    split_ifs
    · exact mul_ne_zero (inv_ne_zero nonzero) nonzero'
    · simpa using nonzero'
  · rw [Matrix.det_mul, det, sign unreduced]
    simp [unreduced]

end Transformed

theorem eliminate_transformed [DecidableEq K] {m : Grid K} (rectangular : m.Rectangular)
    (zero : negligible 0 = true) :
    let s := m.eliminate negligible reduced
    Transformed reduced m.height m.width m.rows s.rows s.swaps := by
  refine (eliminate_induction rectangular zero reduced
    (P := fun _ rows _ swaps => Transformed reduced m.height m.width m.rows rows swaps)
    (.refl m.rows) ?skip ?swap ?clear).2.2
  case skip => exact fun j _ _ _ transformed => transformed
  case swap =>
    intro j rows pivots swaps i swept below inside transformed
    exact transformed.swap swept.shaped inside (below.trans_lt inside)
  case clear =>
    intro j rows pivots swaps swept inside pivot transformed
    exact transformed.clear swept.shaped inside fun h => by simp [h, zero] at pivot

/-! ## Zeros in front of the pivots -/

/-- A row with a pivot has only zeros in front of it, and a row without one in all columns before
`j`. -/
structure Staircase (j : ℕ) (rows : List (List K)) (pivots : List ℕ) : Prop where
  above : ∀ r p, pivots[r]? = some p → ∀ c < p, cell rows r c = 0
  below : ∀ i, pivots.length ≤ i → ∀ c < j, cell rows i c = 0

namespace Staircase

theorem start : Staircase 0 rows [] :=
  ⟨by simp, by simp⟩

/-- A column without a pivot, if the search has passed over zeros only. -/
theorem skip (stairs : Staircase j rows pivots)
    (zeros : ∀ i, pivots.length ≤ i → cell rows i j = 0) : Staircase (j + 1) rows pivots := by
  refine ⟨stairs.above, fun i below c before => ?_⟩
  rcases Nat.lt_succ_iff_lt_or_eq.1 before with before | rfl
  · exact stairs.below i below c before
  · exact zeros i below

theorem swap (stairs : Staircase j rows pivots) (shaped : Shaped n w rows) {i : ℕ}
    (below : pivots.length ≤ i) (inside : i < n) :
    Staircase j (Grid.swap i pivots.length rows) pivots := by
  have cell_eq := shaped.cell_swap inside (below.trans_lt inside)
  refine ⟨fun r p here c before => ?_, fun i' below' c before => ?_⟩
  · have above : r < pivots.length := (List.getElem?_eq_some_iff.1 here).1
    rw [cell_eq, Equiv.swap_apply_of_ne_of_ne (by omega) (by omega)]
    exact stairs.above r p here c before
  · rw [cell_eq]
    refine stairs.below _ ?_ c before
    rw [Equiv.swap_apply_def]
    split_ifs <;> omega

theorem clear [DecidableEq K] (stairs : Staircase j rows pivots)
    (swept : Swept negligible reduced n w j rows pivots) (inside : pivots.length < n)
    (nonzero : cell rows pivots.length j ≠ 0) :
    Staircase (j + 1) (clearColumn reduced pivots.length j rows) (pivots ++ [j]) := by
  have unchanged (i : ℕ) {c : ℕ} (before : c < j) :
      cell (clearColumn reduced pivots.length j rows) i c = cell rows i c :=
    swept.shaped.cell_clearColumn_of_zero inside nonzero reduced i
      (stairs.below pivots.length le_rfl c before)
  refine ⟨fun r p here c before => ?_, fun i below c before => ?_⟩
  · rcases getElem?_concat here with old | ⟨rfl, rfl⟩
    · rw [unchanged r (before.trans (swept.passed p (List.mem_of_getElem? old)))]
      exact stairs.above r p old c before
    · rw [unchanged _ before]
      exact stairs.below _ le_rfl c before
  · have after : pivots.length < i := by simpa using below
    rcases Nat.lt_succ_iff_lt_or_eq.1 before with before | rfl
    · rw [unchanged i before]
      exact stairs.below i after.le c before
    · exact swept.shaped.cell_clearColumn_column inside nonzero reduced after.ne' (.inr after)

end Staircase

variable [DecidableEq K] {m : Grid K}

/-- Every search that finds no pivot passes over zeros only. -/
def PassesZeros (negligible : K → Bool) (reduced : Bool) (m : Grid K) : Prop :=
  ∀ j < m.width, let s := m.front negligible reduced j
    findPivot? negligible s.rows s.pivots.length j = none →
      ∀ i, s.pivots.length ≤ i → cell s.rows i j = 0

theorem PassesZeros.staircase (zeros : m.PassesZeros negligible reduced)
    (rectangular : m.Rectangular) (zero : negligible 0 = true) :
    let s := m.eliminate negligible reduced
    Staircase m.width s.rows s.pivots := by
  refine (eliminate_induction rectangular zero reduced
    (P := fun j rows pivots _ => Staircase j rows pivots) .start ?skip ?swap ?clear).2.2
  case skip =>
    intro j within s _ none stairs
    exact stairs.skip (zeros j within none)
  case swap =>
    intro j rows pivots _ i swept below inside stairs
    exact stairs.swap swept.shaped below inside
  case clear =>
    intro j rows pivots _ swept inside pivot stairs
    exact stairs.clear swept inside fun h => by simp [h, zero] at pivot

/-! ## The exact sweep -/

/-- The exact test: only zero is negligible. -/
def isZero (x : K) : Bool :=
  x == 0

theorem isZero_zero : isZero (0 : K) = true :=
  beq_self_eq_true 0

theorem passesZeros_isZero (m : Grid K) : m.PassesZeros isZero reduced := by
  intro j _ s none i below
  rcases lt_or_ge i s.rows.length with inside | outside
  · exact eq_of_beq (findPivot?_eq_none none below inside)
  · exact cell_of_height_le outside j

/-- The end of the sweep of a matrix with the exact test. -/
structure Eliminated (reduced : Bool) (m : Grid K) (s : Sweep K) : Prop where
  swept : Swept isZero reduced m.height m.width m.width s.rows s.pivots
  stairs : Staircase m.width s.rows s.pivots
  transformed : Transformed reduced m.height m.width m.rows s.rows s.swaps

/-- The exact sweep succeeds. -/
theorem sweep_isZero (rectangular : m.Rectangular) (reduced : Bool) :
    ∃ s, m.sweep isZero reduced = .ok s ∧ Eliminated reduced m s := by
  obtain ⟨swept, exact⟩ := eliminate_swept rectangular isZero_zero reduced
  exact ⟨m.eliminate isZero reduced, by simp [sweep, exact], swept,
    (passesZeros_isZero m).staircase rectangular isZero_zero,
    eliminate_transformed rectangular isZero_zero⟩

end Reckon.Grid
