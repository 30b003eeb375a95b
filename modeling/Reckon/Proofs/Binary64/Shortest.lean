import Mathlib.Algebra.Order.Floor.Semifield
import Reckon.Binary64.Shortest
import Reckon.Proofs.Binary64.Exact
import Reckon.Proofs.Decimal.Division
import Reckon.Proofs.Decimal.Numeral

/-!
# The shortest digits of a double

The search goes down from the decimal exponent above the double (`lt_decimalExponent`), one digit at
a time. What it takes at a digit is in the cell of the double (`bounds_of_digitsAt?`); at the
seventeenth digit, if not before, the nearer one of the two multiples around the double is
(`exists_digitsAt?`). So there are always digits, at most seventeen, and they are as close to the
double as half a unit of its last binary place.

Results: `shortest_bounds`, `abs_shortest_sub_le`.
-/

namespace Reckon

namespace Precision

/-- Without its zeros at the end a coefficient is no larger, and its exponent is not lowered. -/
theorem stripZeros_bounds (c : Nat) (e ideal : ℤ) :
    (stripZeros c e ideal).1 ≤ c ∧ e ≤ (stripZeros c e ideal).2 ∧
      (stripZeros c e ideal).2 ≤ max e ideal := by
  induction c, e using stripZeros.induct ideal with
  | case1 c e zero ih =>
    rw [stripZeros, dif_pos zero]
    omega
  | case2 c e other =>
    rw [stripZeros, dif_neg other]
    omega

end Precision

namespace Binary64

variable {m c : Nat} {q j : ℤ}

/-! ## The decimal exponent -/

/-- The whole part of the double with its point moved by four hundred places. -/
def shifted (m : Nat) (q : ℤ) : Nat :=
  (fraction m q).1 * tens 400 / (fraction m q).2

theorem decimalExponent_eq (m : Nat) (q : ℤ) :
    decimalExponent m q = digitCount (shifted m q) - (400 : ℤ) :=
  rfl

theorem shifted_eq_floor (m : Nat) (q : ℤ) :
    shifted m q = ⌊(m : ℚ) * 2 ^ q * 10 ^ (400 : ℤ)⌋₊ := by
  have shift : ((tens 400 : Nat) : ℚ) = 10 ^ (400 : ℤ) := cast_tens 400
  rw [← fraction_value, ← shift, div_mul_eq_mul_div, ← Nat.cast_mul, Nat.floor_div_eq_div]
  rfl

theorem shifted_le (m : Nat) (q : ℤ) :
    (shifted m q : ℚ) ≤ m * 2 ^ q * 10 ^ (400 : ℤ) := by
  rw [shifted_eq_floor]
  exact Nat.floor_le (by positivity)

theorem lt_decimalExponent (m : Nat) (q : ℤ) : (m : ℚ) * 2 ^ q < 10 ^ decimalExponent m q := by
  have digits : (shifted m q : ℚ) + 1 ≤ 10 ^ (digitCount (shifted m q) : ℤ) := by
    have less := lt_pow_digitCount (shifted m q)
    rw [zpow_natCast] at less ⊢
    exact_mod_cast less
  rw [decimalExponent_eq, zpow_sub₀ (by norm_num), lt_div_iff₀ (by positivity)]
  refine lt_of_lt_of_le ?_ digits
  rw [shifted_eq_floor]
  exact Nat.lt_floor_add_one _

/-- A double that is not zero has a digit at the exponent below. -/
theorem pow_decimalExponent_le (nonzero : m ≠ 0) (lower : minExponent ≤ q) :
    (10 : ℚ) ^ (decimalExponent m q - 1) ≤ m * 2 ^ q := by
  have large : (1 : ℚ) ≤ m * 2 ^ q * 10 ^ (400 : ℤ) := by
    have whole : (1 : ℚ) ≤ m := by exact_mod_cast Nat.pos_of_ne_zero nonzero
    have places : ((twos 1074 : Nat) : ℚ) ≤ (tens 400 : Nat) := Nat.cast_le.2 (by decide +kernel)
    rw [cast_twos, cast_tens] at places
    calc (1 : ℚ) = 2 ^ minExponent * 2 ^ ((1074 : Nat) : ℤ) := by
          rw [← zpow_add₀ (by norm_num)]
          rfl
      _ ≤ 2 ^ q * 10 ^ (400 : ℤ) :=
        mul_le_mul (zpow_le_zpow_right₀ (by norm_num) lower) places (zpow_nonneg (by norm_num) _)
          (zpow_nonneg (by norm_num) _)
      _ ≤ m * (2 ^ q * 10 ^ (400 : ℤ)) := le_mul_of_one_le_left (by positivity) whole
      _ = m * 2 ^ q * 10 ^ (400 : ℤ) := (mul_assoc _ _ _).symm
  have some_digit : shifted m q ≠ 0 := by
    rw [shifted_eq_floor]
    exact (Nat.floor_pos.2 large).ne'
  rw [decimalExponent_eq, sub_right_comm, zpow_sub₀ (by norm_num), div_le_iff₀ (by positivity)]
  exact (pow_digitCount_le some_digit).trans (shifted_le m q)

/-- The decimal exponents above doubles are few. -/
theorem decimalExponent_bounds (mantissa : m < twos 53) (exponent : q ≤ 971) :
    -399 ≤ decimalExponent m q ∧ decimalExponent m q ≤ 309 := by
  have some_digit := digitCount_pos (shifted m q)
  have few : digitCount (shifted m q) ≤ 709 := by
    by_cases zero : shifted m q = 0
    · rw [zero, digitCount_eq, countDigits, if_pos (by decide)]
      decide
    refine digitCount_le_of_lt zero ?_
    have below : (shifted m q : ℚ) < (tens 709 : Nat) := by
      calc (shifted m q : ℚ) ≤ m * 2 ^ q * 10 ^ (400 : ℤ) := shifted_le m q
        _ < 10 ^ (309 : ℤ) * 10 ^ (400 : ℤ) :=
          mul_lt_mul_of_pos_right (value_lt mantissa exponent) (by positivity)
        _ = (tens 709 : Nat) := by
          rw [cast_tens, ← zpow_add₀ (by norm_num)]
          rfl
    exact_mod_cast below
  rw [decimalExponent_eq]
  omega

/-! ## The digits -/

/-- A quarter of `2 ^ q` on the scale on which digits at `10 ^ j` are compared with the double. -/
def quarter (q j : ℤ) : Nat :=
  twos (q - 2).toNat * tens (-j).toNat

/-- A unit of the digit at `10 ^ j` on that scale. -/
def step (q j : ℤ) : Nat :=
  twos (2 - q).toNat * tens j.toNat

theorem step_pos (q j : ℤ) : 0 < step q j :=
  Nat.mul_pos (twos_pos _) (tens_pos _)

theorem quarter_div_step (q j : ℤ) : (quarter q j : ℚ) / step q j = 2 ^ (q - 2) / 10 ^ j := by
  rw [← zpow_toNat_div (by norm_num : (0 : ℚ) < 2),
    ← zpow_toNat_div (by norm_num : (0 : ℚ) < 10) j, neg_sub, quarter, step, Nat.cast_mul,
    Nat.cast_mul, cast_twos, cast_twos, cast_tens, cast_tens, div_div_div_eq]

/-- The double on that scale, in units of the digit. -/
theorem middle_div_step (m : Nat) (q j : ℤ) :
    ((4 * m * quarter q j : Nat) : ℚ) / step q j = m * 2 ^ q / 10 ^ j := by
  rw [Nat.cast_mul, mul_div_assoc, quarter_div_step, zpow_sub₀ (by norm_num)]
  push_cast
  ring

/-- The nearer one of the two multiples around a number, the even one if they are as near. -/
def nearer (exact unit : Nat) : Nat :=
  if 2 * (exact - exact / unit * unit) < unit ||
      (2 * (exact - exact / unit * unit) == unit && exact / unit % 2 == 0)
    then exact / unit else exact / unit + 1

/-- The number is in the cell of the double, given in multiples of a quarter of `2 ^ q`. -/
def inside (m : Nat) (q : ℤ) (scale v : Nat) : Bool :=
  if (cell m q).closed then (cell m q).low * scale ≤ v && v ≤ (cell m q).high * scale
  else (cell m q).low * scale < v && v < (cell m q).high * scale

theorem digitsAt?_eq (m : Nat) (q j : ℤ) :
    digitsAt? m q j =
      if inside m q (quarter q j) (nearer (4 * m * quarter q j) (step q j) * step q j) &&
          0 < nearer (4 * m * quarter q j) (step q j) then
        some (nearer (4 * m * quarter q j) (step q j))
      else if inside m q (quarter q j) (4 * m * quarter q j / step q j * step q j) &&
          0 < 4 * m * quarter q j / step q j then
        some (4 * m * quarter q j / step q j)
      else if inside m q (quarter q j) ((4 * m * quarter q j / step q j + 1) * step q j) then
        some (4 * m * quarter q j / step q j + 1)
      else none :=
  rfl

theorem nearer_le (exact unit : Nat) : nearer exact unit ≤ exact / unit + 1 := by
  unfold nearer
  split
  · exact Nat.le_succ _
  · exact le_rfl

/-- The nearer one is at most half a unit away. -/
theorem nearer_bounds (exact : Nat) {unit : Nat} (positive : 0 < unit) :
    2 * exact ≤ 2 * (nearer exact unit * unit) + unit ∧
      2 * (nearer exact unit * unit) ≤ 2 * exact + unit := by
  have whole := Nat.div_add_mod' exact unit
  have less := Nat.mod_lt exact positive
  unfold nearer
  split
  next down =>
    rw [Bool.or_eq_true, Bool.and_eq_true, decide_eq_true_eq, beq_iff_eq] at down
    omega
  next up =>
    rw [Bool.or_eq_true, Bool.and_eq_true, decide_eq_true_eq, beq_iff_eq] at up
    rw [Nat.add_mul]
    omega

theorem le_of_inside {scale v : Nat} (member : inside m q scale v = true) :
    (4 * m - 2) * scale ≤ v ∧ v ≤ (4 * m + 2) * scale := by
  have low : 4 * m - 2 ≤ (cell m q).low := by
    unfold cell
    dsimp only
    split <;> omega
  have least := Nat.mul_le_mul_right scale low
  have high : (cell m q).high = 4 * m + 2 := rfl
  unfold inside at member
  rw [high] at member
  split at member <;>
    simp only [Bool.and_eq_true, decide_eq_true_eq] at member <;>
    omega

theorem inside_of_lt {scale v : Nat} (low : (cell m q).low * scale < v)
    (high : v < (cell m q).high * scale) : inside m q scale v = true := by
  unfold inside
  split <;>
    rw [Bool.and_eq_true, decide_eq_true_eq, decide_eq_true_eq]
  · exact ⟨low.le, high.le⟩
  · exact ⟨low, high⟩

/-- What is found at a digit is next to the double and in its cell. -/
theorem bounds_of_digitsAt? (found : digitsAt? m q j = some c) :
    c ≤ 4 * m * quarter q j / step q j + 1 ∧ inside m q (quarter q j) (c * step q j) = true := by
  rw [digitsAt?_eq, ite_eq_iff, ite_eq_iff, ite_eq_iff, Bool.and_eq_true, Bool.and_eq_true]
    at found
  rcases found with
    ⟨⟨member, -⟩, ⟨⟩⟩ | ⟨-, ⟨⟨member, -⟩, ⟨⟩⟩ | ⟨-, ⟨member, ⟨⟩⟩ | ⟨-, ⟨⟩⟩⟩⟩
  · exact ⟨nearer_le _ _, member⟩
  · exact ⟨Nat.le_succ _, member⟩
  · exact ⟨le_rfl, member⟩

/-- What is found at a digit exceeds the double by at most one unit of that digit. -/
theorem le_of_digitsAt? (found : digitsAt? m q j = some c) :
    (c : ℚ) ≤ m * 2 ^ q / 10 ^ j + 1 := by
  have next : (c : ℚ) ≤ ((4 * m * quarter q j / step q j : Nat) : ℚ) + 1 := by
    exact_mod_cast (bounds_of_digitsAt? found).1
  rw [← middle_div_step]
  exact next.trans (add_le_add_left Nat.cast_div_le 1)

/-- It differs from the double by half a unit of the last binary place at most. -/
theorem abs_digitsAt?_sub_le (found : digitsAt? m q j = some c) :
    |(c : ℚ) * 10 ^ j - m * 2 ^ q| ≤ 2 ^ q / 2 := by
  obtain ⟨low, high⟩ := le_of_inside (bounds_of_digitsAt? found).2
  rw [Nat.sub_mul] at low
  rw [Nat.add_mul] at high
  have positive : (0 : ℚ) < step q j := by exact_mod_cast step_pos q j
  have unit : (quarter q j : ℚ) = 2 ^ q / 10 ^ j / 4 * step q j := by
    rw [← div_eq_iff positive.ne', quarter_div_step, zpow_sub₀ (by norm_num)]
    ring
  have least : (4 * m * quarter q j : ℚ) ≤ c * step q j + 2 * quarter q j := by
    exact_mod_cast Nat.sub_le_iff_le_add.1 low
  have most : (c * step q j : ℚ) ≤ 4 * m * quarter q j + 2 * quarter q j := by
    exact_mod_cast high
  rw [unit] at least most
  have close : |(c : ℚ) - m * (2 ^ q / 10 ^ j)| ≤ 2 ^ q / 10 ^ j / 2 := by
    rw [abs_le]
    constructor <;> refine le_of_mul_le_mul_right ?_ positive <;> linarith
  have scale : (2 : ℚ) ^ q = 2 ^ q / 10 ^ j * 10 ^ j :=
    (div_mul_cancel₀ _ (Decimal.ten_zpow_pos j).ne').symm
  calc |(c : ℚ) * 10 ^ j - m * 2 ^ q| = |(c : ℚ) - m * (2 ^ q / 10 ^ j)| * 10 ^ j := by
        rw [← abs_of_pos (Decimal.ten_zpow_pos j), ← abs_mul, abs_of_pos (Decimal.ten_zpow_pos j),
          sub_mul, mul_assoc (m : ℚ), ← scale]
    _ ≤ 2 ^ q / 10 ^ j / 2 * 10 ^ j := by gcongr
    _ = 2 ^ q / 2 := by rw [div_right_comm, div_mul_cancel₀ _ (Decimal.ten_zpow_pos j).ne']

/-- With seventeen digits the nearer neighbour is in the cell of the double. -/
theorem exists_digitsAt? (nonzero : m ≠ 0) (mantissa : m < twos 53) (lower : minExponent ≤ q) :
    ∃ c, digitsAt? m q (decimalExponent m q - 17) = some c := by
  set j := decimalExponent m q - 17 with j_eq
  have positive := step_pos q j
  -- a unit of the digit is much smaller than the double
  have fine : 10 ^ 16 * step q j ≤ 4 * m * quarter q j := by
    have large : (10 : ℚ) ^ 16 ≤ m * 2 ^ q / 10 ^ j := by
      rw [le_div_iff₀ (Decimal.ten_zpow_pos j), ← zpow_natCast, ← zpow_add₀ (by norm_num)]
      have top : ((16 : Nat) : ℤ) + j = decimalExponent m q - 1 := by omega
      rw [top]
      exact pow_decimalExponent_le nonzero lower
    rw [← middle_div_step, le_div_iff₀ (by exact_mod_cast positive)] at large
    exact_mod_cast large
  obtain ⟨above, below⟩ := nearer_bounds (4 * m * quarter q j) positive
  have wide := Nat.mul_le_mul_right (quarter q j) mantissa.le
  have bits : twos 53 = 9007199254740992 := rfl
  rw [bits] at wide
  rw [Nat.mul_assoc] at fine above below
  have member :
      inside m q (quarter q j) (nearer (4 * m * quarter q j) (step q j) * step q j) = true := by
    refine inside_of_lt ?_ ?_
    · unfold cell
      dsimp only
      split
      next lowest =>
        -- the cell of a power of two is smaller on this side
        rw [Bool.and_eq_true, decide_eq_true_eq] at lowest
        have least : m = 4503599627370496 := lowest.1
        rw [Nat.sub_mul, Nat.mul_assoc]
        rw [least] at fine above ⊢
        omega
      next =>
        rw [Nat.sub_mul, Nat.mul_assoc]
        omega
    · change _ < (4 * m + 2) * _
      rw [Nat.add_mul, Nat.mul_assoc]
      omega
  have some_digit : 0 < nearer (4 * m * quarter q j) (step q j) := by
    refine Nat.pos_of_ne_zero fun none => ?_
    rw [Nat.mul_assoc] at none
    rw [none, Nat.zero_mul] at above
    omega
  rw [digitsAt?_eq, member, decide_eq_true some_digit]
  exact ⟨_, rfl⟩

/-- At the `n`-th digit there are at most `n` digits. -/
theorem le_pow_of_digitsAt? {n : Nat} (found : digitsAt? m q (decimalExponent m q - n) = some c) :
    c ≤ 10 ^ n := by
  refine Nat.lt_succ_iff.1 ?_
  have below : (c : ℚ) < 10 ^ n + 1 := by
    calc (c : ℚ) ≤ m * 2 ^ q / 10 ^ (decimalExponent m q - n) + 1 := le_of_digitsAt? found
      _ < 10 ^ decimalExponent m q / 10 ^ (decimalExponent m q - n) + 1 := by
        gcongr
        exact lt_decimalExponent m q
      _ = 10 ^ n + 1 := by rw [← zpow_sub₀ (by norm_num), sub_sub_cancel, zpow_natCast]
  exact_mod_cast below

/-- The search finds digits, at one of the seventeen places. -/
theorem exists_shortest (nonzero : m ≠ 0) (mantissa : m < twos 53) (lower : minExponent ≤ q) :
    ∃ (n : Nat) (c : Nat), n ≤ 17 ∧ digitsAt? m q (decimalExponent m q - n) = some c ∧
      shortest m q = Precision.stripZeros c (decimalExponent m q - n)
        (decimalExponent m q - n + 20) := by
  unfold shortest
  dsimp only
  split
  next c j found =>
    obtain ⟨n, member, tried⟩ := List.exists_of_findSome?_eq_some found
    obtain ⟨_, digits, ⟨⟩⟩ := Option.map_eq_some_iff.1 tried
    exact ⟨n + 1, c, List.mem_range.1 member, digits, rfl⟩
  next none =>
    obtain ⟨c, digits⟩ := exists_digitsAt? nonzero mantissa lower
    have last := List.findSome?_eq_none_iff.1 none 16 (by decide)
    rw [Option.map_eq_none_iff] at last
    cases last.symm.trans digits

/-- The shortest digits of a double are at most seventeen, and their exponent has at most three. -/
theorem shortest_bounds (nonzero : m ≠ 0) (mantissa : m < twos 53) (lower : minExponent ≤ q)
    (upper : q ≤ 971) :
    (shortest m q).1 ≤ 10 ^ 17 ∧ -416 ≤ (shortest m q).2 ∧ (shortest m q).2 ≤ 329 := by
  obtain ⟨n, c, few, digits, eq⟩ := exists_shortest nonzero mantissa lower
  have top := decimalExponent_bounds mantissa upper
  have widest : c ≤ 10 ^ 17 :=
    (le_pow_of_digitsAt? digits).trans (Nat.pow_le_pow_right (by decide) few)
  have stripped := Precision.stripZeros_bounds c (decimalExponent m q - n)
    (decimalExponent m q - n + 20)
  rw [eq]
  exact ⟨stripped.1.trans widest, by omega, by omega⟩

/-- The shortest digits differ from the double by half a unit of its last binary place at most. -/
theorem abs_shortest_sub_le (nonzero : m ≠ 0) (mantissa : m < twos 53)
    (lower : minExponent ≤ q) :
    |((shortest m q).1 : ℚ) * 10 ^ (shortest m q).2 - m * 2 ^ q| ≤ 2 ^ q / 2 := by
  obtain ⟨n, c, -, digits, eq⟩ := exists_shortest nonzero mantissa lower
  rw [eq, Decimal.stripZeros_value]
  exact abs_digitsAt?_sub_le digits

end Binary64

end Reckon
