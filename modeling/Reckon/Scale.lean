/-!
# Powers of ten and two

The scales of decimal and binary numbers.
-/

namespace Reckon

/-- `10 ^ k`. -/
def tens (k : Nat) : Nat :=
  Nat.pow 10 k

/-- `2 ^ k`. -/
def twos (k : Nat) : Nat :=
  Nat.pow 2 k

@[simp]
theorem tens_zero : tens 0 = 1 := rfl

theorem tens_succ (k : Nat) : tens (k + 1) = tens k * 10 := rfl

@[simp]
theorem twos_zero : twos 0 = 1 := rfl

theorem twos_succ (k : Nat) : twos (k + 1) = twos k * 2 := rfl

theorem tens_pos (k : Nat) : 0 < tens k := by
  induction k with
  | zero => decide
  | succ k ih => rw [tens_succ]; omega

theorem twos_pos (k : Nat) : 0 < twos k := by
  induction k with
  | zero => decide
  | succ k ih => rw [twos_succ]; omega

end Reckon
