import Reckon.Scale

/-!
# Counting decimal digits

`digitCount n` is the number of digits of the numeral of `n`. A lower estimate from the binary
length skips most of the digits at once.

Results: `digitCount_eq` (the estimate never changes the count).
-/

namespace Reckon

/-- The number of decimal digits of `n`, counted one by one; zero has one digit. -/
def countDigits (n : Nat) : Nat :=
  if n < 10 then 1 else countDigits (n / 10) + 1
termination_by n

/-- A count of low digits that `n` has beyond its leading ones, from its binary length. -/
def skippedDigits (n : Nat) : Nat :=
  n.log2 * 30102 / 100000

/-- The number of decimal digits of `n`; zero has one digit. -/
def digitCount (n : Nat) : Nat :=
  let skipped := skippedDigits n
  let leading := n / tens skipped
  if leading = 0 then countDigits n else countDigits leading + skipped

theorem countDigits_pos (n : Nat) : 0 < countDigits n := by
  unfold countDigits
  split <;> omega

theorem countDigits_div_tens {n : Nat} (k : Nat) (leading : n / tens k ≠ 0) :
    countDigits n = countDigits (n / tens k) + k := by
  induction k generalizing n with
  | zero => simp
  | succ k ih =>
    have split : n / tens (k + 1) = n / 10 / tens k := by
      rw [Nat.div_div_eq_div_mul, tens_succ, Nat.mul_comm]
    rw [split] at leading ⊢
    have large : ¬ n < 10 := by
      intro small
      apply leading
      rw [Nat.div_eq_of_lt small, Nat.zero_div]
    rw [countDigits, if_neg large, ih leading]
    omega

theorem digitCount_eq (n : Nat) : digitCount n = countDigits n := by
  unfold digitCount
  simp only
  split
  · rfl
  · next leading => exact (countDigits_div_tens _ leading).symm

theorem lt_tens_countDigits (n : Nat) : n < tens (countDigits n) := by
  induction n using Nat.strongRecOn with
  | ind n ih =>
    unfold countDigits
    split
    · next small => exact small
    · have smaller := ih (n / 10) (by omega)
      rw [tens_succ]
      omega

theorem tens_countDigits_le {n : Nat} (positive : 0 < n) : tens (countDigits n - 1) ≤ n := by
  induction n using Nat.strongRecOn with
  | ind n ih =>
    unfold countDigits
    split
    · simpa using Nat.succ_le_of_lt positive
    · have smaller := ih (n / 10) (by omega) (by omega)
      have count := countDigits_pos (n / 10)
      obtain ⟨k, hk⟩ : ∃ k, countDigits (n / 10) = k + 1 :=
        ⟨_, (Nat.succ_pred_eq_of_pos count).symm⟩
      rw [hk] at smaller ⊢
      simp only [Nat.add_sub_cancel] at smaller ⊢
      rw [tens_succ]
      omega

end Reckon
