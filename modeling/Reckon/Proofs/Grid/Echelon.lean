import Reckon.Proofs.Grid.Sweep
import Mathlib.Algebra.Order.Field.Basic

/-!
# The test for echelon form after elimination

A search for a pivot passes over entries that are negligible but need not be zero. They stay in
their column, and later row operations multiply them by any factors: so the echelon form of a
matrix may fail the test for it (`Grid.echelon_fails_test`). It passes exactly if no entry that was
passed over has grown out of the tolerance (`Grid.isEchelon_of_eliminated`), in particular where the
searches pass over zeros only.
-/

namespace Reckon.Grid

variable {K : Type} [Field K] {negligible : K → Bool} {reduced : Bool} {n w j : ℕ}
  {rows : List (List K)} {pivots : List ℕ}

/-! ## Leading entries -/

theorem leading?_eq_some_iff {row : List K} {c : ℕ} :
    leading? negligible row = some c ↔ c < row.length ∧ negligible (entry row c) = false ∧
      ∀ l < c, negligible (entry row l) = true := by
  rw [leading?, List.findIdx?_eq_some_iff_getElem]
  constructor
  · rintro ⟨inside, here, before⟩
    refine ⟨inside, by simpa [entry_getElem inside] using here, fun l left => ?_⟩
    simpa [entry_getElem (left.trans inside)] using before l left
  · rintro ⟨inside, here, before⟩
    refine ⟨inside, by simpa [entry_getElem inside] using here, fun l left => ?_⟩
    simpa [entry_getElem (left.trans inside)] using before l left

/-- A row starts at the latest where an entry is not negligible. -/
theorem exists_leading (zero : negligible 0 = true) {i l : ℕ}
    (here : negligible (cell rows i l) = false) :
    ∃ c ≤ l, leading? negligible (rowAt rows i) = some c := by
  have inside : l < (rowAt rows i).length := by
    by_contra! outside
    rw [cell, entry_of_le outside, zero] at here
    exact Bool.noConfusion here
  cases lead : leading? negligible (rowAt rows i) with
  | none =>
    rw [leading?, List.findIdx?_eq_none_iff] at lead
    have negl := lead _ (List.getElem_mem inside)
    rw [cell, entry_getElem inside] at here
    simp [here] at negl
  | some c =>
    refine ⟨c, ?_, rfl⟩
    by_contra! right
    have negl := (leading?_eq_some_iff.1 lead).2.2 l right
    rw [cell, negl] at here
    exact Bool.noConfusion here

/-- The second row starts after the first one, or not at all. -/
def Follows (a b : Option ℕ) : Prop :=
  ∀ c', b = some c' → ∃ c < c', a = some c

theorem follows_none {b : Option ℕ} : Follows none b ↔ b = none := by
  cases b <;> simp [Follows]

theorem leadsIncrease_iff {leads : List (Option ℕ)} {least : ℕ} :
    leadsIncrease least leads = true ↔
      leads.Pairwise Follows ∧ ∀ c, some c ∈ leads → least ≤ c := by
  induction leads generalizing least with
  | nil => simp [leadsIncrease]
  | cons lead rest ih =>
    rw [List.pairwise_cons]
    cases lead with
    | none =>
      simp only [leadsIncrease, List.all_eq_true, Option.isNone_iff_eq_none, follows_none]
      constructor
      · intro none
        refine ⟨⟨none, List.pairwise_of_forall_mem_list fun a _ b member => ?_⟩, fun c member => ?_⟩
        · rw [none b member]
          exact fun c' some => absurd some (by simp)
        · rcases List.mem_cons.1 member with absurd | member
          · simp at absurd
          · simpa using none _ member
      · exact fun h => h.1.1
    | some c =>
      simp only [leadsIncrease, Bool.and_eq_true, decide_eq_true_eq, ih]
      constructor
      · rintro ⟨first, increasing, after⟩
        refine ⟨⟨fun b member c' here => ⟨c, ?_, rfl⟩, increasing⟩, fun c' member => ?_⟩
        · exact after c' (here ▸ member)
        · rcases List.mem_cons.1 member with same | member
          · exact Option.some.inj same ▸ first
          · exact first.trans ((Nat.le_succ c).trans (after c' member))
      · rintro ⟨⟨first, increasing⟩, least⟩
        refine ⟨least c List.mem_cons_self, increasing, fun c' member => ?_⟩
        obtain ⟨l, left, same⟩ := first _ member c' rfl
        exact Option.some.inj same ▸ left

/-- Echelon form: wherever a row starts, all rows above start before. -/
theorem isEchelon_iff {α : Type} {negligible : α → Bool} {m : Grid α} :
    m.isEchelon negligible = true ↔ ∀ i i', i < i' → ∀ c',
      leading? negligible (rowAt m.rows i') = some c' →
        ∃ c < c', leading? negligible (rowAt m.rows i) = some c := by
  rw [isEchelon, leadsIncrease_iff, List.pairwise_map, List.pairwise_iff_getElem]
  simp only [Nat.zero_le, implies_true, and_true]
  constructor
  · intro follows i i' above c' lead
    have inside' : i' < m.rows.length := by
      by_contra! outside
      rw [rowAt_of_le outside] at lead
      simp [leading?] at lead
    have inside := above.trans inside'
    rw [rowAt_eq_getElem inside'] at lead
    rw [rowAt_eq_getElem inside]
    exact follows i i' inside inside' above c' lead
  · intro follows i i' inside inside' above c' lead
    rw [← rowAt_eq_getElem inside'] at lead
    rw [← rowAt_eq_getElem inside]
    exact follows i i' above c' lead

/-! ## Entries that were passed over -/

/-- The number of pivots in the columns before `c`: the row where the search for a pivot of this
column begins. -/
def rankBefore (pivots : List ℕ) (c : ℕ) : ℕ :=
  pivots.countP (· < c)

theorem lt_rankBefore_iff (increasing : pivots.Pairwise (· < ·)) {r c : ℕ} :
    r < rankBefore pivots c ↔ ∃ p < c, pivots[r]? = some p := by
  induction pivots generalizing r with
  | nil => simp [rankBefore]
  | cons q rest ih =>
    rw [List.pairwise_cons] at increasing
    rw [rankBefore, List.countP_cons, ← rankBefore]
    have ih := @ih increasing.2
    by_cases before : q < c
    · cases r with
      | zero => simp [before]
      | succ r => simp [before, ih]
    · have after : ∀ p ∈ q :: rest, ¬ p < c := by
        intro p member
        rcases List.mem_cons.1 member with rfl | member
        · exact before
        · have := increasing.1 p member
          omega
      have none : rankBefore rest c = 0 :=
        List.countP_eq_zero.2 fun p member => by
          simpa using after p (List.mem_cons_of_mem q member)
      simp only [none, before, decide_false, Bool.false_eq_true, if_false, Nat.zero_add,
        Nat.not_lt_zero, false_iff]
      rintro ⟨p, left, here⟩
      exact after p (List.mem_of_getElem? here) left

/-- The entries are negligible that lie in a column without a pivot, below the row where the search
for one began. -/
def SmallBelow (negligible : K → Bool) (w : ℕ) (rows : List (List K)) (pivots : List ℕ) : Prop :=
  ∀ i < rows.length, ∀ c < w, c ∉ pivots → rankBefore pivots c < i →
    negligible (cell rows i c) = true

section Swept

variable (zero : negligible 0 = true) (swept : Swept negligible reduced n w w rows pivots)
include zero swept

/-- Where what was passed over is negligible, a row has nothing else up to the pivot of a row above
it. -/
theorem SmallBelow.pivot_lt (small : SmallBelow negligible w rows pivots) {i i' c : ℕ}
    (above : i < i') (here : negligible (cell rows i' c) = false) :
    ∃ p < c, pivots[i]? = some p := by
  have nonzero : cell rows i' c ≠ 0 := fun h => by simp [h, zero] at here
  have inside' : i' < rows.length := by
    by_contra! outside
    exact nonzero (cell_of_height_le outside c)
  have left : c < w := by
    by_contra! right
    exact nonzero (swept.shaped.cell_of_width_le i' right)
  by_cases member : c ∈ pivots
  · obtain ⟨q, inside, here⟩ := List.getElem_of_mem member
    have below : i < q := by
      by_contra! notBelow
      exact nonzero (swept.alone q c (List.getElem?_eq_some_iff.2 ⟨inside, here⟩) i' (by omega)
        (.inr (by omega)))
    refine ⟨pivots[i], ?_, List.getElem?_eq_getElem (below.trans inside)⟩
    rw [← here]
    exact List.pairwise_iff_getElem.1 swept.increasing i q (below.trans inside) inside below
  · rw [← lt_rankBefore_iff swept.increasing]
    by_contra! notBelow
    rw [small i' inside' c left member (notBelow.trans_lt above)] at here
    exact Bool.noConfusion here

/-- The test for echelon form passes if pivots are not negligible but what was passed over is. -/
theorem SmallBelow.isEchelon (small : SmallBelow negligible w rows pivots)
    (pivot : ∀ r p, pivots[r]? = some p → negligible (cell rows r p) = false) :
    (⟨w, rows⟩ : Grid K).isEchelon negligible = true := by
  rw [isEchelon_iff]
  intro i i' above c' lead
  have here : negligible (cell rows i' c') = false := (leading?_eq_some_iff.1 lead).2.1
  obtain ⟨p, left, at_i⟩ := small.pivot_lt zero swept above here
  obtain ⟨c, atMost, lead⟩ := exists_leading zero (pivot i p at_i)
  exact ⟨c, atMost.trans_lt left, lead⟩

end Swept

/-- Since the last pivot nothing has changed in the rows without a pivot, and since its own pivot
nothing in the row of a pivot: what was passed over there is still negligible. -/
def Fresh (negligible : K → Bool) (j : ℕ) (rows : List (List K)) (pivots : List ℕ) : Prop :=
  ∀ c < j, c ∉ pivots → ∀ i, i = rankBefore pivots c ∨
      rankBefore pivots c = pivots.length ∧ pivots.length ≤ i →
    negligible (cell rows i c) = true

namespace Fresh

theorem skip (fresh : Fresh negligible j rows pivots) (passed : ∀ p ∈ pivots, p < j)
    (small : ∀ i, pivots.length ≤ i → negligible (cell rows i j) = true) :
    Fresh negligible (j + 1) rows pivots := by
  intro c before noPivot i where_
  rcases Nat.lt_succ_iff_lt_or_eq.1 before with before | rfl
  · exact fresh c before noPivot i where_
  · have all : rankBefore pivots c = pivots.length :=
      List.countP_eq_length.2 fun p member => by simpa using passed p member
    exact small i (by omega)

theorem swap (fresh : Fresh negligible j rows pivots) (shaped : Shaped n w rows) {i : ℕ}
    (below : pivots.length ≤ i) (inside : i < n) :
    Fresh negligible j (Grid.swap i pivots.length rows) pivots := by
  intro c before noPivot i' where_
  rw [shaped.cell_swap inside (below.trans_lt inside)]
  refine fresh c before noPivot _ ?_
  have atMost : rankBefore pivots c ≤ pivots.length := List.countP_le_length
  rw [Equiv.swap_apply_def]
  split_ifs <;> omega

theorem clear [DecidableEq K] (fresh : Fresh negligible j rows pivots) (shaped : Shaped n w rows)
    (inside : pivots.length < n) (nonzero : cell rows pivots.length j ≠ 0) :
    Fresh negligible (j + 1) (clearColumn false pivots.length j rows) (pivots ++ [j]) := by
  intro c before noPivot i where_
  rw [List.mem_append, List.mem_singleton, not_or] at noPivot
  have rank : rankBefore (pivots ++ [j]) c = rankBefore pivots c := by
    simp [rankBefore, List.countP_append]
    omega
  have atMost : rankBefore pivots c ≤ pivots.length := List.countP_le_length
  rw [rank, List.length_append, List.length_singleton] at where_
  rw [shaped.cell_clearColumn_above inside nonzero (by omega)]
  exact fresh c (by omega) noPivot.1 i (.inl (by omega))

end Fresh

section Echelon

variable (zero : negligible 0 = true) (swept : Swept negligible false n w w rows pivots)
  (echelon : (⟨w, rows⟩ : Grid K).isEchelon negligible = true)
include zero swept echelon

/-- If the test passes and the row where the search began starts with its pivot, the rows below it
have nothing in the column: they would start too early. -/
theorem negligible_of_isEchelon {c q i p : ℕ} (at_q : pivots[q]? = some p)
    (lead : leading? negligible (rowAt rows q) = some p) (rank : rankBefore pivots c = q)
    (below : q < i) : negligible (cell rows i c) = true := by
  by_contra here
  obtain ⟨c₀, atMost, lead₀⟩ := exists_leading zero (Bool.not_eq_true _ ▸ here)
  obtain ⟨c₁, before, lead₁⟩ := isEchelon_iff.1 echelon q i below c₀ lead₀
  have same : c₁ = p := Option.some.inj (lead₁.symm.trans lead)
  have less : q < rankBefore pivots c :=
    (lt_rankBefore_iff swept.increasing).2 ⟨p, by omega, at_q⟩
  omega

variable (fresh : Fresh negligible w rows pivots)
include fresh

/-- A row has nothing in front of its pivot if the test passes and all rows above start with
theirs. -/
theorem negligible_before_pivot {r p c : ℕ} (here : pivots[r]? = some p)
    (above : ∀ q < r, ∀ p', pivots[q]? = some p' → leading? negligible (rowAt rows q) = some p')
    (before : c < p) : negligible (cell rows r c) = true := by
  have left : c < w := before.trans (swept.passed p (List.mem_of_getElem? here))
  obtain ⟨inside, at_r⟩ := List.getElem?_eq_some_iff.1 here
  by_cases member : c ∈ pivots
  · obtain ⟨q, inside', at_q⟩ := List.getElem_of_mem member
    have less : q < r := by
      by_contra! notLess
      have := List.pairwise_iff_getElem.1 swept.increasing r q inside inside'
      rcases notLess.lt_or_eq with more | rfl <;> omega
    have here' := List.getElem?_eq_some_iff.2 ⟨inside', at_q⟩
    rw [swept.alone q c here' r less.ne' (.inr less), zero]
  · have rank : rankBefore pivots c ≤ r := by
      by_contra! more
      obtain ⟨p', left', here'⟩ := (lt_rankBefore_iff swept.increasing).1 more
      have := Option.some.inj (here.symm.trans here')
      omega
    rcases rank.lt_or_eq with less | same
    · have at_q := List.getElem?_eq_getElem (less.trans inside)
      exact negligible_of_isEchelon zero swept echelon at_q (above _ less _ at_q) rfl less
    · exact fresh c left member r (.inl same.symm)

/-- If the test passes, every row with a pivot starts with it. -/
theorem leading?_eq_pivot {r p : ℕ} (here : pivots[r]? = some p) :
    leading? negligible (rowAt rows r) = some p := by
  induction r using Nat.strong_induction_on generalizing p with
  | _ r above =>
    have pivot : negligible (cell rows r p) = false := by simpa using swept.pivot r p here
    obtain ⟨c, atMost, lead⟩ := exists_leading zero pivot
    rcases atMost.lt_or_eq with before | rfl
    · have start : negligible (cell rows r c) = false := (leading?_eq_some_iff.1 lead).2.1
      have small := negligible_before_pivot zero swept echelon fresh here
        (fun q less p' => above q less) before
      rw [small] at start
      exact Bool.noConfusion start
    · exact lead

/-- If the test passes, what was passed over is still negligible. -/
theorem smallBelow_of_isEchelon : SmallBelow negligible w rows pivots := by
  intro i _ c left noPivot below
  have atMost : rankBefore pivots c ≤ pivots.length := List.countP_le_length
  rcases atMost.lt_or_eq with inside | all
  · have at_q := List.getElem?_eq_getElem inside
    exact negligible_of_isEchelon zero swept echelon at_q
      (leading?_eq_pivot zero swept echelon fresh at_q) rfl below
  · exact fresh c left noPivot i (.inr ⟨all, by omega⟩)

end Echelon

/-- Where the searches pass over zeros only, everything that was passed over is zero. -/
theorem Staircase.smallBelow (stairs : Staircase w rows pivots)
    (increasing : pivots.Pairwise (· < ·)) (zero : negligible 0 = true) :
    SmallBelow negligible w rows pivots := by
  intro i _ c left noPivot below
  suffices cell rows i c = 0 by rw [this, zero]
  cases here : pivots[i]? with
  | none => exact stairs.below i (List.getElem?_eq_none_iff.1 here) c left
  | some p =>
    refine stairs.above i p here c ?_
    have notBefore : ¬ p < c := fun before =>
      absurd ((lt_rankBefore_iff increasing).2 ⟨p, before, here⟩) (by omega)
    have other : p ≠ c := fun same => noPivot (same ▸ List.mem_of_getElem? here)
    omega

/-! ## The test after elimination -/

/-- Without rows or columns there is nothing to test. -/
theorem isEchelon_ofRows (shaped : Shaped n w rows) (negligible : K → Bool) :
    (ofRows rows).isEchelon negligible = (⟨w, rows⟩ : Grid K).isEchelon negligible := by
  by_cases filled : n ≠ 0 ∧ w ≠ 0
  · rw [ofRows_eq shaped filled]
  · have empty : (⟨w, rows⟩ : Grid K).isEchelon negligible = true := by
      refine isEchelon_iff.2 fun i i' _ c' lead => ?_
      have inside := (leading?_eq_some_iff.1 lead).1
      rcases lt_or_ge i' n with below | outside
      · rw [shaped.width_rowAt below] at inside
        exact absurd ⟨by omega, by omega⟩ filled
      · rw [rowAt_of_le (shaped.height.trans_le outside)] at inside
        exact absurd inside (Nat.not_lt_zero c')
    rw [ofRows_eq_empty shaped filled, empty]
    rfl

variable [DecidableEq K]

/-- In the end all entries are negligible that a search for a pivot has passed over, below the row
where it began. -/
def StaysSmall (negligible : K → Bool) (reduced : Bool) (m : Grid K) : Prop :=
  let s := m.eliminate negligible reduced
  SmallBelow negligible m.width s.rows s.pivots

variable {m : Grid K}

theorem eliminate_fresh (rectangular : m.Rectangular) (zero : negligible 0 = true) :
    let s := m.eliminate negligible false
    Fresh negligible m.width s.rows s.pivots := by
  refine (eliminate_induction rectangular zero false
    (P := fun j rows pivots _ => Fresh negligible j rows pivots) ?start ?skip ?swap ?clear).2.2
  case start => exact fun c before => absurd before (Nat.not_lt_zero c)
  case skip =>
    intro j _ s swept none fresh
    refine fresh.skip swept.passed fun i below => ?_
    rcases lt_or_ge i s.rows.length with inside | outside
    · exact findPivot?_eq_none none below inside
    · rw [cell_of_height_le outside, zero]
  case swap =>
    intro j rows pivots _ i swept below inside fresh
    exact fresh.swap swept.shaped below inside
  case clear =>
    intro j rows pivots _ swept inside pivot fresh
    exact fresh.clear swept.shaped inside fun h => by simp [h, zero] at pivot

theorem PassesZeros.staysSmall (zeros : m.PassesZeros negligible reduced)
    (rectangular : m.Rectangular) (zero : negligible 0 = true) :
    m.StaysSmall negligible reduced :=
  (zeros.staircase rectangular zero).smallBelow
    (eliminate_swept rectangular zero reduced).1.increasing zero

theorem echelon_eq (rectangular : m.Rectangular) (zero : negligible 0 = true) :
    m.echelon negligible = .ok (ofRows (m.eliminate negligible false).rows) := by
  simp [echelon, sweep, (eliminate_swept rectangular zero false).2, bind, Except.bind,
    pure, Except.pure]

theorem rowReduce_eq (rectangular : m.Rectangular) (zero : negligible 0 = true) :
    m.rowReduce negligible = .ok (ofRows (m.eliminate negligible true).rows) := by
  simp [rowReduce, sweep, (eliminate_swept rectangular zero true).2, bind,
    Except.bind, pure, Except.pure]

theorem isEchelon_echelon_iff (rectangular : m.Rectangular) (zero : negligible 0 = true) :
    (ofRows (m.eliminate negligible false).rows).isEchelon negligible = true ↔
      m.StaysSmall negligible false := by
  have swept := (eliminate_swept rectangular zero false).1
  rw [isEchelon_ofRows swept.shaped]
  constructor
  · exact fun echelon =>
      smallBelow_of_isEchelon zero swept echelon (eliminate_fresh rectangular zero)
  · exact fun small =>
      SmallBelow.isEchelon zero swept small fun r p here => by simpa using swept.pivot r p here

theorem isEchelon_rowReduce (rectangular : m.Rectangular) (zero : negligible 0 = true)
    (one : negligible 1 = false) (small : m.StaysSmall negligible true) :
    (ofRows (m.eliminate negligible true).rows).isEchelon negligible = true := by
  have swept := (eliminate_swept rectangular zero true).1
  rw [isEchelon_ofRows swept.shaped]
  refine SmallBelow.isEchelon zero swept small fun r p here => ?_
  have pivot := swept.pivot r p here
  rw [if_pos rfl] at pivot
  rw [pivot, one]

section Tolerance

variable {K : Type} [Field K] [LinearOrder K] [IsStrictOrderedRing K]

/-- The magnitude is below the tolerance. -/
def isSmall (tolerance x : K) : Bool :=
  |x| < tolerance

/-- With a positive tolerance nothing is divided by zero. The echelon form passes the test exactly
if in the end everything that was passed over is below the tolerance, and the reduced form if this
holds and the tolerance is at most one, the value of its pivots. It holds wherever the searches pass
over zeros only. -/
theorem isEchelon_of_eliminated {m : Grid K} (rectangular : m.Rectangular) {tolerance : K}
    (positive : 0 < tolerance) :
    (∃ r, m.echelon (isSmall tolerance) = .ok r ∧
      (r.isEchelon (isSmall tolerance) = true ↔ m.StaysSmall (isSmall tolerance) false)) ∧
    (∃ r, m.rowReduce (isSmall tolerance) = .ok r ∧
      (tolerance ≤ 1 → m.StaysSmall (isSmall tolerance) true →
        r.isEchelon (isSmall tolerance) = true)) ∧
    ∀ reduced, m.PassesZeros (isSmall tolerance) reduced →
      m.StaysSmall (isSmall tolerance) reduced := by
  have zero : isSmall tolerance 0 = true := by simpa [isSmall] using positive
  refine ⟨⟨_, echelon_eq rectangular zero, isEchelon_echelon_iff rectangular zero⟩,
    ⟨_, rowReduce_eq rectangular zero, fun atMost small => ?_⟩,
    fun reduced zeros => zeros.staysSmall rectangular zero⟩
  have one : isSmall tolerance 1 = false := by simpa [isSmall] using atMost
  exact isEchelon_rowReduce rectangular zero one small

/-- The first column has no pivot, and its entries change: but they stay below the tolerance, so
both forms pass the test. -/
theorem isEchelon_passedOver :
    let m : Grid ℚ := ⟨3, [[1 / 20, 2, 3], [1 / 30, 1, 5]]⟩
    (m.StaysSmall (isSmall (1 / 10)) false ∧ ∃ r, m.echelon (isSmall (1 / 10)) = .ok r ∧
        r.rows = [[1 / 20, 2, 3], [1 / 120, 0, 7 / 2]] ∧ r.isEchelon (isSmall (1 / 10)) = true) ∧
      m.StaysSmall (isSmall (1 / 10)) true ∧ ∃ r, m.rowReduce (isSmall (1 / 10)) = .ok r ∧
        r.rows = [[3 / 140, 1, 0], [1 / 420, 0, 1]] ∧ r.isEchelon (isSmall (1 / 10)) = true := by
  intro m
  have rectangular : m.Rectangular := by unfold Rectangular; decide
  have positive : (0 : ℚ) < 1 / 10 := by norm_num
  have small : m.StaysSmall (isSmall (1 / 10)) false := by
    unfold StaysSmall SmallBelow
    decide +kernel
  have small' : m.StaysSmall (isSmall (1 / 10)) true := by
    unfold StaysSmall SmallBelow
    decide +kernel
  have form : m.echelon (isSmall (1 / 10)) =
      .ok ⟨3, [[1 / 20, 2, 3], [1 / 120, 0, 7 / 2]]⟩ := by decide +kernel
  have form' : m.rowReduce (isSmall (1 / 10)) =
      .ok ⟨3, [[3 / 140, 1, 0], [1 / 420, 0, 1]]⟩ := by decide +kernel
  obtain ⟨⟨r, done, passes⟩, ⟨r', done', passes'⟩, -⟩ :=
    isEchelon_of_eliminated rectangular positive
  obtain rfl := Except.ok.inj (form.symm.trans done)
  obtain rfl := Except.ok.inj (form'.symm.trans done')
  exact ⟨⟨small, _, form, rfl, passes.2 small⟩, small', _, form', rfl,
    passes' (by norm_num) small'⟩

/-- The second pivot is far greater than the entry that was passed over, and the multiple of its row
that is taken away brings that entry out of the tolerance. With a tolerance above one the pivots of
the reduced form are themselves below it. -/
theorem echelon_fails_test :
    let m : Grid ℚ := ⟨2, [[1 / 200000, 1 / 1000], [0, 1000]]⟩
    let negligible := isSmall (1 / 100000 : ℚ)
    m.echelon negligible = .ok ⟨2, [[1 / 200000, 1 / 1000], [-5, 0]]⟩ ∧
      isEchelon negligible ⟨2, [[1 / 200000, 1 / 1000], [-5, 0]]⟩ = false ∧
      m.rowReduce negligible = .ok ⟨2, [[1 / 200, 1], [-5, 0]]⟩ ∧
      isEchelon negligible ⟨2, [[1 / 200, 1], [-5, 0]]⟩ = false ∧
      rowReduce (isSmall (2 : ℚ)) ⟨3, [[3, 0, 9], [0, 3, 9]]⟩ = .ok ⟨3, [[1, 0, 3], [0, 1, 3]]⟩ ∧
      isEchelon (isSmall (2 : ℚ)) ⟨3, [[1, 0, 3], [0, 1, 3]]⟩ = false := by
  decide +kernel

end Tolerance

end Reckon.Grid
