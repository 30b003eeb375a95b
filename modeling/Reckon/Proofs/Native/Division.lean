import Reckon.Proofs.Decimal.Division
import Reckon.Proofs.Native

/-!
# Division of whole numbers and remainders

`div` and `mod` are the quotient toward zero and its remainder. Both are exact. They are refused
together if the quotient has more digits than the precision of the rules; a quotient that has not
but is beyond the exponent range is an overflow, while its remainder is found.

Results: `div_mod_truncated`.
-/

namespace Reckon

namespace Rule

variable {p : Precision} {a b : Decimal} {x y : ℚ}

/-- Division by a number that is not zero. -/
theorem eval_quotient (right : b.toRat? = some y) (nonzero : y ≠ 0) :
    quotient.eval p [a, b] = Value.decimal <$> dividing quotient a b (p.quot a b) := by
  rw [eval, Decimal.isZero_eq_false right nonzero, if_neg Bool.false_ne_true]

theorem eval_remainder (right : b.toRat? = some y) (nonzero : y ≠ 0) :
    remainder.eval p [a, b] = Value.decimal <$> dividing remainder a b (p.rem a b) := by
  rw [eval, Decimal.isZero_eq_false right nonzero, if_neg Bool.false_ne_true]

end Rule

namespace Native

variable (precision : Nat) (unit : AngleUnit) {div mod : Native} {a b : Decimal} {x y : ℚ}

/-- What becomes of the quotient `k` and the remainder `z`: neither is found if the quotient has
more digits than the precision of the rules, and otherwise only the quotient may be too large. -/
structure DivisionOutcome (precision : Nat) (a b : Decimal) (k : ℤ) (z : ℚ)
    (quotient remainder : Except Fault Term) : Prop where
  refused : 10 ^ (precision + guardDigits) ≤ |k| →
    quotient = .error (.domain (.quotientTooLong "div" a.scientific b.scientific)) ∧
      remainder = .error (.domain (.quotientTooLong "mod" a.scientific b.scientific))
  remainder_ok : |k| < 10 ^ (precision + guardDigits) →
    ∃ r, remainder = .ok (.numeric r) ∧ r.toRat? = some z
  quotient_ok : |k| < 10 ^ (precision + guardDigits) → |(k : ℚ)| < 10 ^ (maxExponent + 1) →
    ∃ q, quotient = .ok (.numeric q) ∧ q.toRat? = some (k : ℚ)
  overflow : |k| < 10 ^ (precision + guardDigits) → 10 ^ (maxExponent + 1) ≤ |(k : ℚ)| →
    quotient = .error (.signal .overflow)

theorem exists_outcome (isDiv : div.IsPair .quotient) (isMod : mod.IsPair .remainder)
    (left : a.toRat? = some x) (right : b.toRat? = some y) (nonzero : y ≠ 0)
    (held : (nativePrecision precision).Holds x) (held' : (nativePrecision precision).Holds y) :
    ∃ (k : ℤ) (z : ℚ), TruncatedDivision x y k z ∧
      DivisionOutcome precision a b k z
        (div.apply precision unit [.numeric a, .numeric b])
        (mod.apply precision unit [.numeric a, .numeric b]) := by
  have digits := nativePrecision_digits_pos precision
  have evalDiv : Rule.quotient.eval (nativePrecision precision) [a, b] = _ :=
    Rule.eval_quotient right nonzero
  have evalMod : Rule.remainder.eval (nativePrecision precision) [a, b] = _ :=
    Rule.eval_remainder right nonzero
  obtain ⟨k, z, division, found | refused⟩ :=
    Precision.quot_rem_cases digits left right nonzero held.written held'.written
  · obtain ⟨short, ⟨q, quot, qValue⟩, rem⟩ := found
    have inside := division.abs_remainder_le.trans_lt held.below
    obtain ⟨r, rem, rValue⟩ := rem.exists_ok inside
    rw [quot] at evalDiv
    rw [rem] at evalMod
    have written := Precision.writes_int short
    refine ⟨k, z, division, fun long => absurd short long.not_gt, fun _ => ?_, fun _ below => ?_,
      fun _ large => ?_⟩
    · exact isMod.apply_held evalMod rValue ⟨division.writes held.written held'.written, inside⟩
    · exact isDiv.apply_held evalDiv qValue ⟨written, below⟩
    · rw [isDiv.apply_ok evalDiv, (Precision.round_gives digits qValue written).eq_overflow large]
      rfl
  · obtain ⟨long, quot, rem⟩ := refused
    rw [quot] at evalDiv
    rw [rem] at evalMod
    exact ⟨k, z, division, fun _ => ⟨isDiv.apply_error evalDiv, isMod.apply_error evalMod⟩,
      fun short => absurd short long.not_gt, fun short _ => absurd short long.not_gt,
      fun short _ => absurd short long.not_gt⟩

/-- `div` and `mod` are the truncated division pair of all numbers that the precision of the rules
holds: both are exact unless the quotient is too long, which both refuse, or too large. -/
theorem div_mod_truncated (divMember : div ∈ all) (divName : div.name = "div")
    (modMember : mod ∈ all) (modName : mod.name = "mod")
    (left : a.toRat? = some x) (right : b.toRat? = some y) (nonzero : y ≠ 0)
    (held : (nativePrecision precision).Holds x) (held' : (nativePrecision precision).Holds y) :
    ∃ (k : ℤ) (z : ℚ), TruncatedDivision x y k z ∧
      DivisionOutcome precision a b k z
        (div.apply precision unit [.numeric a, .numeric b])
        (mod.apply precision unit [.numeric a, .numeric b]) :=
  exists_outcome precision unit (isPair_of_name divMember (by rw [divName]; rfl))
    (isPair_of_name modMember (by rw [modName]; rfl)) left right nonzero held held'

/-- Minus seven is two times minus three less one. -/
theorem div_mod_truncated_seven : ∃ div ∈ all, ∃ mod ∈ all, ∃ q r,
    div.name = "div" ∧ mod.name = "mod" ∧
    div.apply 10 .radians [.numeric (.finite true 7 0), .numeric 2] = .ok (.numeric q) ∧
    mod.apply 10 .radians [.numeric (.finite true 7 0), .numeric 2] = .ok (.numeric r) ∧
    q.toRat? = some (-3) ∧ r.toRat? = some (-1) := by
  obtain ⟨div, divMember, divName⟩ : ∃ n ∈ all, n.name = "div" := by decide +kernel
  obtain ⟨mod, modMember, modName⟩ : ∃ n ∈ all, n.name = "mod" := by decide +kernel
  have small : ∀ n : ℤ, |n| < 10 → (nativePrecision 10).Holds n := fun n less =>
    have fits : Representable 1 (n : ℚ) := representable_int (by simpa using less) (by decide)
    Precision.holds_of_representable (fits.mono (by decide))
  have left : (Decimal.finite true 7 0).toRat? = some ((-7 : ℤ) : ℚ) := by simp [Decimal.toRat?]
  have right : (2 : Decimal).toRat? = some ((2 : ℤ) : ℚ) := Decimal.toRat?_ofNat 2
  obtain ⟨k, z, found, outcome⟩ :=
    div_mod_truncated 10 .radians divMember divName modMember modName left right (by norm_num)
      (small _ (by decide)) (small _ (by decide))
  have division : TruncatedDivision ((-7 : ℤ) : ℚ) ((2 : ℤ) : ℚ) (-3) (-1) :=
    ⟨by norm_num, by norm_num, .inr (by norm_num [sign_neg])⟩
  obtain ⟨rfl, rfl⟩ := division.unique found
  obtain ⟨r, modDone, rValue⟩ := outcome.remainder_ok (by decide)
  obtain ⟨q, divDone, qValue⟩ := outcome.quotient_ok (by decide) (small (-3) (by decide)).below
  exact ⟨div, divMember, mod, modMember, q, r, divName, modName, divDone, modDone,
    by simpa using qValue, rValue⟩

/-- A power of ten divided by a tenth. -/
theorem truncatedDivision_tens (m : Nat) :
    TruncatedDivision (10 ^ (m : ℤ)) (10 ^ (-1 : ℤ)) (10 ^ (m + 1)) 0 where
  sum := by
    push_cast
    rw [add_zero, ← zpow_natCast, ← zpow_add₀ (by norm_num)]
    congr 1
    push_cast
    ring
  less := by
    rw [abs_zero]
    exact abs_pos.2 (Decimal.ten_zpow_pos _).ne'
  sign := .inl rfl

/-- With a precision beyond the exponent range a quotient can be short enough and too large. -/
theorem div_overflow_mod_exact : ∃ div ∈ all, ∃ mod ∈ all, ∃ r,
    div.name = "div" ∧ mod.name = "mod" ∧
    (nativePrecision 999996).Holds (10 ^ (999999 : ℤ)) ∧
    (nativePrecision 999996).Holds (10 ^ (-1 : ℤ)) ∧
    div.apply 999996 .radians [.numeric (.finite false 1 999999), .numeric (.finite false 1 (-1))] =
      .error (.signal .overflow) ∧
    mod.apply 999996 .radians [.numeric (.finite false 1 999999), .numeric (.finite false 1 (-1))] =
      .ok (.numeric r) ∧ r.toRat? = some 0 := by
  obtain ⟨div, divMember, divName⟩ : ∃ n ∈ all, n.name = "div" := by decide +kernel
  obtain ⟨mod, modMember, modName⟩ : ∃ n ∈ all, n.name = "mod" := by decide +kernel
  have isDiv : div.IsPair .quotient := isPair_of_name divMember (by rw [divName]; rfl)
  have isMod : mod.IsPair .remainder := isPair_of_name modMember (by rw [modName]; rfl)
  have held : (nativePrecision 999996).Holds (10 ^ (999999 : ℤ)) :=
    Precision.holds_of_representable ((representable_tens (by decide) (by decide)).mono (by decide))
  have held' : (nativePrecision 999996).Holds (10 ^ (-1 : ℤ)) :=
    Precision.holds_of_representable ((representable_tens (by decide) (by decide)).mono (by decide))
  obtain ⟨k, z, division, outcome⟩ := exists_outcome 999996 .radians isDiv isMod
    (Decimal.toRat?_tens 999999) (Decimal.toRat?_tens (-1)) (Decimal.ten_zpow_pos _).ne' held held'
  obtain ⟨rfl, rfl⟩ := (truncatedDivision_tens 999999).unique division
  have short : |(10 : ℤ) ^ (999999 + 1)| < 10 ^ (999996 + guardDigits) := by
    rw [abs_of_pos (pow_pos (by norm_num) _)]
    exact pow_lt_pow_right₀ (by norm_num) (by decide)
  have large : (10 : ℚ) ^ (maxExponent + 1) ≤ |((10 ^ (999999 + 1) : ℤ) : ℚ)| := by
    rw [Int.cast_pow, Int.cast_ofNat, ← zpow_natCast, abs_of_pos (Decimal.ten_zpow_pos _)]
    exact zpow_le_zpow_right₀ (by norm_num) (by decide)
  obtain ⟨r, modDone, rValue⟩ := outcome.remainder_ok short
  exact ⟨div, divMember, mod, modMember, r, divName, modName, held, held',
    outcome.overflow short large, modDone, rValue⟩

end Native

end Reckon
