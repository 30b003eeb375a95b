import Mathlib.Data.Fintype.CardEmbedding
import Mathlib.Data.Nat.Choose.Basic
import Reckon.Proofs.Native

/-!
# Permutations and combinations

`perm` and `comb` divide factorials. No product is rounded if the factorials have no more digits
than the precision of the rules, and the quotients are whole because factorials divide each other:
they count the selections. The factorial of a negative number is one, so that the quotients are not
zero for more items than there are, although there is no such selection.

Results: `factorialFrom_exact`, `perm_comb_count`.
-/

namespace Reckon

namespace Precision

/-- A number below the largest ones with no more digits than the precision. -/
structure Small (p : Precision) (n : Nat) : Prop where
  short : n < 10 ^ p.digits
  moderate : (n : ℚ) < 10 ^ maxExponent

variable {p : Precision} {m n : Nat}

theorem Small.of_le (small : p.Small n) (le : m ≤ n) : p.Small m where
  short := le.trans_lt small.short
  moderate := lt_of_le_of_lt (by exact_mod_cast le) small.moderate

theorem Small.representable {z : ℤ} (small : p.Small z.natAbs) :
    Representable p.digits (z : ℚ) := by
  have size : |(z : ℚ)| = (z.natAbs : ℚ) := by
    rw [Nat.cast_natAbs, Int.cast_abs]
  refine ⟨⟨z, 0, by simp, ?_⟩, ?_⟩
  · rw [Int.abs_eq_natAbs]
    exact_mod_cast small.short
  · by_cases zero : z = 0
    · exact .inl (by rw [zero, Int.cast_zero])
    · refine inRange_of_le (by exact_mod_cast Int.one_le_abs zero) ?_ le_rfl
      rw [size]
      exact small.moderate.le

theorem Small.representable_nat (small : p.Small n) : Representable p.digits (n : ℚ) := by
  have fits := Small.representable (p := p) (z := n) small
  rwa [Int.cast_natCast] at fits

/-- The factorials that are computed at all are far from the largest numbers. -/
theorem small_factorial (few : n ≤ Rule.factorialLimit) (short : n.factorial < 10 ^ p.digits) :
    p.Small n.factorial := by
  refine ⟨short, ?_⟩
  have bound : n.factorial ≤ 10 ^ (4 * n) :=
    calc n.factorial ≤ n ^ n := Nat.factorial_le_pow n
      _ ≤ (10 ^ 4) ^ n := Nat.pow_le_pow_left few n
      _ = 10 ^ (4 * n) := (pow_mul 10 4 n).symm
  calc (n.factorial : ℚ) ≤ 10 ^ ((4 * n : Nat) : ℤ) := by
        rw [zpow_natCast]
        exact_mod_cast bound
    _ < 10 ^ maxExponent := by
        refine zpow_lt_zpow_right₀ (by norm_num) ?_
        have limit : (4 * Rule.factorialLimit : ℤ) < maxExponent := by decide
        push_cast
        omega

/-- The quotient of small numbers is neither among the largest nor subnormal. -/
theorem Small.div_bounds (small : p.Small m) (small' : p.Small n) (positive : 0 < m)
    (positive' : 0 < n) :
    10 ^ minExponent ≤ |(m : ℚ) / n| ∧ |(m : ℚ) / n| < 10 ^ maxExponent := by
  have one : (1 : ℚ) ≤ m := by exact_mod_cast positive
  have one' : (1 : ℚ) ≤ n := by exact_mod_cast positive'
  have opposite : minExponent = -maxExponent := by decide
  rw [abs_of_nonneg (by positivity), opposite, zpow_neg]
  constructor
  · calc ((10 : ℚ) ^ maxExponent)⁻¹ ≤ (n : ℚ)⁻¹ :=
          inv_anti₀ (zero_lt_one.trans_le one') small'.moderate.le
      _ ≤ m / n := by
          rw [div_eq_mul_inv]
          exact le_mul_of_one_le_left (by positivity) one
  · exact (div_le_self (Nat.cast_nonneg m) one').trans_lt small.moderate

end Precision

namespace Rule

variable {p : Precision} {a b v product : Decimal} {n k : Nat}

/-! ## Factorials -/

/-- Nothing is multiplied once the factor is no longer positive. -/
theorem factorialFrom_of_nonpos {z : ℤ} (value : v.toRat? = some (z : ℚ)) (nonpos : z ≤ 0)
    (fuel : Nat) : factorialFrom p (fuel + 1) product v = .ok product := by
  have less : Decimal.less 0 v = .ok false := by
    rw [Decimal.less_eq Decimal.toRat?_zero value,
      decide_eq_false (by exact_mod_cast nonpos.not_gt)]
  rw [factorialFrom, less]
  rfl

/-- The product of the loop times the factorial of the factor that comes next stays the same. -/
theorem factorialFrom_exact (m : Nat) : ∀ {fuel : Nat} {product v : Decimal} {q : Nat}, m < fuel →
    product.toRat? = some (q : ℚ) → v.toRat? = some (m : ℚ) → 0 < q → p.Small (q * m.factorial) →
    ∃ r, factorialFrom p fuel product v = .ok r ∧
      r.toRat? = some ((q * m.factorial : Nat) : ℚ) := by
  induction m with
  | zero =>
    intro fuel product v q enough productValue value _ _
    obtain ⟨fuel, rfl⟩ := Nat.exists_eq_add_of_lt enough
    refine ⟨product, ?_, by simpa using productValue⟩
    rw [Nat.zero_add]
    exact factorialFrom_of_nonpos (z := 0) (by exact_mod_cast value) le_rfl fuel
  | succ m ih =>
    intro fuel product v q enough productValue value positive small
    obtain ⟨fuel, rfl⟩ := Nat.exists_eq_add_of_lt enough
    have whole : q * (m + 1).factorial = q * (m + 1) * m.factorial := by
      rw [Nat.factorial_succ, Nat.mul_assoc]
    rw [whole] at small ⊢
    have factors : q * (m + 1) ≤ q * (m + 1) * m.factorial :=
      Nat.le_mul_of_pos_right _ (Nat.factorial_pos m)
    have next : m ≤ q * (m + 1) := by nlinarith
    have less : Decimal.less 0 v = .ok true := by
      rw [Decimal.less_eq Decimal.toRat?_zero value, decide_eq_true (by positivity)]
    obtain ⟨product', multiplied, productValue'⟩ := Precision.mul_exact productValue value
      (by exact_mod_cast (small.of_le factors).representable_nat)
    have difference : ((m + 1 : Nat) : ℚ) - 1 = m := by
      push_cast
      ring
    obtain ⟨v', lowered, value'⟩ := Precision.sub_exact (p := p) value Decimal.toRat?_one (by
      rw [difference]
      exact (small.of_le (next.trans factors)).representable_nat)
    rw [difference] at value'
    obtain ⟨r, done, rValue⟩ := ih (show m < m + 1 + fuel by omega)
      (by exact_mod_cast productValue') value' (by positivity) small
    refine ⟨r, ?_, rValue⟩
    rw [factorialFrom, less]
    change (p.mul product v >>= fun product => p.sub v 1 >>= fun v => _) = _
    rw [multiplied]
    change (p.sub v 1 >>= fun v => _) = _
    rw [lowered]
    exact done

/-- The factorial of a whole number, which is one for a negative number. -/
theorem factorialOf_exact {z : ℤ} (value : v.toRat? = some (z : ℚ)) (few : z ≤ factorialLimit)
    (small : p.Small (z.toNat.factorial)) :
    ∃ r, factorialOf p v = .ok r ∧ r.toRat? = some (z.toNat.factorial : ℚ) := by
  have limited : Decimal.less (.ofInt factorialLimit) v = .ok false := by
    rw [Decimal.less_eq (Decimal.toRat?_ofInt _) value,
      decide_eq_false (by exact_mod_cast few.not_gt)]
  have computed : ∃ r, factorialFrom p (factorialLimit + 1) 1 v = .ok r ∧
      r.toRat? = some (z.toNat.factorial : ℚ) := by
    rcases le_total z 0 with nonpos | nonneg
    · refine ⟨1, factorialFrom_of_nonpos value nonpos _, ?_⟩
      rw [Int.toNat_of_nonpos nonpos]
      simp
    · have whole : (z : ℚ) = (z.toNat : ℚ) := by
        exact_mod_cast (Int.toNat_of_nonneg nonneg).symm
      rw [whole] at value
      have found : ∃ r, factorialFrom p (factorialLimit + 1) 1 v = .ok r ∧
          r.toRat? = some ((1 * z.toNat.factorial : Nat) : ℚ) :=
        factorialFrom_exact z.toNat (by omega) (by simp) value one_pos (by rwa [Nat.one_mul])
      rwa [Nat.one_mul] at found
  obtain ⟨r, done, rValue⟩ := computed
  refine ⟨r, ?_, rValue⟩
  rw [factorialOf, limited]
  change liftSignal (factorialFrom p (factorialLimit + 1) 1 v) = _
  rw [done]
  rfl

theorem factorialOf_nat (value : v.toRat? = some (n : ℚ)) (few : n ≤ factorialLimit)
    (small : p.Small n.factorial) :
    ∃ r, factorialOf p v = .ok r ∧ r.toRat? = some (n.factorial : ℚ) := by
  have found := factorialOf_exact (p := p) (v := v) (z := n) (by exact_mod_cast value)
    (by exact_mod_cast few)
  rw [Int.toNat_natCast] at found
  exact found small

/-! ## Quotients of factorials -/

/-- The difference of small numbers is small. -/
theorem sub_nat_exact (left : a.toRat? = some (n : ℚ)) (right : b.toRat? = some (k : ℚ))
    (small : p.Small n) (small' : p.Small k) :
    ∃ r, p.sub a b = .ok r ∧ r.toRat? = some (((n : ℤ) - k : ℤ) : ℚ) := by
  have between : p.Small ((n : ℤ) - k).natAbs := by
    rcases le_total n k with less | more
    · exact small'.of_le (by omega)
    · exact small.of_le (by omega)
  have cast : (((n : ℤ) - k : ℤ) : ℚ) = n - k := by
    push_cast
    rfl
  rw [cast]
  exact Precision.sub_exact left right (cast ▸ between.representable)

theorem ordered_pos (n k : Nat) : 0 < n.factorial / (n - k).factorial :=
  Nat.div_pos (Nat.factorial_le (Nat.sub_le n k)) (n - k).factorial_pos

section Selections

variable (digits : 0 < p.digits) (left : a.toRat? = some (n : ℚ)) (right : b.toRat? = some (k : ℚ))
  (few : n ≤ factorialLimit) (small : p.Small n.factorial) (small' : p.Small k.factorial)
include digits left right few small small'

theorem permutationsOf_exact : ∃ r, permutationsOf p a b = .ok r ∧
    r.toRat? = some ((n.factorial / (n - k).factorial : Nat) : ℚ) := by
  have divides : (n - k).factorial ∣ n.factorial := Nat.factorial_dvd_factorial (Nat.sub_le n k)
  have rest : (((n : ℤ) - k).toNat) = n - k := by omega
  obtain ⟨whole, wholeDone, wholeValue⟩ := factorialOf_nat left few small
  obtain ⟨difference, lowered, value⟩ := sub_nat_exact left right
    (small.of_le n.self_le_factorial) (small'.of_le k.self_le_factorial)
  obtain ⟨orders, ordersDone, ordersValue⟩ := factorialOf_exact value (by omega) (by
    rw [rest]
    exact small.of_le (Nat.factorial_le (Nat.sub_le n k)))
  rw [rest] at ordersValue
  have quotient : (n.factorial : ℚ) / (n - k).factorial =
      ((n.factorial / (n - k).factorial : Nat) : ℚ) := (Nat.cast_div_charZero divides).symm
  obtain ⟨r, divided, rValue⟩ := Precision.div_held digits wholeValue ordersValue
    (by exact_mod_cast (n - k).factorial_ne_zero) (by
      rw [quotient]
      exact Precision.holds_of_representable
        (small.of_le (Nat.div_le_self _ _)).representable_nat)
  rw [quotient] at rValue
  refine ⟨r, ?_, rValue⟩
  rw [permutationsOf, wholeDone]
  change (liftSignal (p.sub a b) >>= fun v => factorialOf p v >>= fun rest =>
    liftSignal (p.div whole rest)) = _
  rw [lowered]
  change (factorialOf p difference >>= fun rest => liftSignal (p.div whole rest)) = _
  rw [ordersDone]
  change liftSignal (p.div whole orders) = _
  rw [divided]
  rfl

/-- The last division is the only one that may round. -/
theorem combinationsOf_rounded (few' : k ≤ factorialLimit) : ∃ r, combinationsOf p a b = .ok r ∧
    r.toRat? =
      some (p.rounded ((n.factorial / (n - k).factorial : Nat) / (k.factorial : ℚ))) := by
  obtain ⟨ordered, orderedDone, orderedValue⟩ :=
    permutationsOf_exact digits left right few small small'
  obtain ⟨orders, ordersDone, ordersValue⟩ := factorialOf_nat right few' small'
  have bounds := (small.of_le (Nat.div_le_self _ (n - k).factorial)).div_bounds small'
    (ordered_pos n k) k.factorial_pos
  obtain ⟨r, divided, rValue⟩ := Precision.div_rounded digits orderedValue ordersValue
    (by positivity) (Precision.abs_rounded_lt bounds.2)
  refine ⟨r, ?_, rValue⟩
  rw [combinationsOf, orderedDone]
  change (factorialOf p b >>= fun orders => liftSignal (p.div ordered orders)) = _
  rw [ordersDone]
  change liftSignal (p.div ordered orders) = _
  rw [divided]
  rfl

end Selections

end Rule

/-! ## Calls -/

namespace Native

variable (precision : Nat) (unit : AngleUnit) {perm comb : Native} {a b : Decimal} {n k : Nat}

/-- The number of ordered selections. -/
theorem card_ordered (within : k ≤ n) :
    Fintype.card (Fin k ↪ Fin n) = n.factorial / (n - k).factorial := by
  rw [Fintype.card_embedding_eq, Fintype.card_fin, Fintype.card_fin,
    Nat.descFactorial_eq_div within]

/-- The number of unordered selections. -/
theorem card_unordered (within : k ≤ n) :
    ((Finset.univ : Finset (Fin n)).powersetCard k).card =
      n.factorial / (n - k).factorial / k.factorial := by
  rw [Finset.card_powersetCard, Finset.card_univ, Fintype.card_fin,
    Nat.choose_eq_descFactorial_div_factorial, Nat.descFactorial_eq_div within]

/-- The orders of the selected items divide the ordered selections, so nothing is rounded. -/
theorem rounded_unordered {p : Precision} (within : k ≤ n) (small : p.Small n.factorial) :
    p.rounded ((n.factorial / (n - k).factorial : Nat) / (k.factorial : ℚ)) =
      ((Finset.univ : Finset (Fin n)).powersetCard k).card := by
  have divides : k.factorial ∣ n.factorial / (n - k).factorial := by
    rw [← Nat.descFactorial_eq_div within]
    exact Nat.factorial_dvd_descFactorial n k
  have least : n.factorial / (n - k).factorial / k.factorial ≤ n.factorial :=
    (Nat.div_le_self _ _).trans (Nat.div_le_self _ _)
  rw [card_unordered within, ← Nat.cast_div_charZero divides]
  exact (Precision.holds_of_representable
    (small.of_le least).representable_nat).written.rounded_eq

section Selections

variable (left : a.toRat? = some (n : ℚ)) (right : b.toRat? = some (k : ℚ))
  (few : n ≤ Rule.factorialLimit) (few' : k ≤ Rule.factorialLimit)
  (short : n.factorial < 10 ^ (precision + guardDigits))
  (short' : k.factorial < 10 ^ (precision + guardDigits))
include left right few few' short short'

theorem permutations_apply (isPerm : perm.IsPair .permutations) :
    ∃ r, perm.apply precision unit [.numeric a, .numeric b] = .ok (.numeric r) ∧
      r.toRat? = some ((n.factorial / (n - k).factorial : Nat) : ℚ) := by
  have small : (nativePrecision precision).Small n.factorial := Precision.small_factorial few short
  have small' : (nativePrecision precision).Small k.factorial :=
    Precision.small_factorial few' short'
  obtain ⟨r, done, value⟩ := Rule.permutationsOf_exact (nativePrecision_digits_pos precision)
    left right few small small'
  have evaluated : Rule.permutations.eval (nativePrecision precision) [a, b] =
      .ok (.decimal r) := by
    rw [Rule.eval, done]
    rfl
  exact isPerm.apply_held evaluated value (Precision.holds_of_representable
    (small.of_le (Nat.div_le_self _ _)).representable_nat)

theorem combinations_apply (isComb : comb.IsPair .combinations) :
    ∃ r, comb.apply precision unit [.numeric a, .numeric b] = .ok (.numeric r) ∧
      r.toRat? = some ((nativePrecision precision).rounded
        ((n.factorial / (n - k).factorial : Nat) / (k.factorial : ℚ))) := by
  have small : (nativePrecision precision).Small n.factorial := Precision.small_factorial few short
  have small' : (nativePrecision precision).Small k.factorial :=
    Precision.small_factorial few' short'
  have digits := nativePrecision_digits_pos precision
  obtain ⟨r, done, value⟩ := Rule.combinationsOf_rounded digits left right few small small' few'
  have evaluated : Rule.combinations.eval (nativePrecision precision) [a, b] =
      .ok (.decimal r) := by
    rw [Rule.eval, done]
    rfl
  have bounds := (small.of_le (Nat.div_le_self _ (n - k).factorial)).div_bounds small'
    (Rule.ordered_pos n k) k.factorial_pos
  exact isComb.apply_held evaluated value (Precision.holds_rounded digits bounds.1 bounds.2)

end Selections

/-- `perm` and `comb` count the ordered and the unordered selections of `k` items from `n`, if there
are so many items. If there are fewer, the quotients are taken with one for the factorial of the
negative difference. -/
theorem perm_comb_count (permMember : perm ∈ all) (permName : perm.name = "perm")
    (combMember : comb ∈ all) (combName : comb.name = "comb")
    (left : a.toRat? = some (n : ℚ)) (right : b.toRat? = some (k : ℚ))
    (few : n ≤ Rule.factorialLimit) (few' : k ≤ Rule.factorialLimit)
    (short : n.factorial < 10 ^ (precision + guardDigits))
    (short' : k.factorial < 10 ^ (precision + guardDigits)) :
    ∃ r s, perm.apply precision unit [.numeric a, .numeric b] = .ok (.numeric r) ∧
      comb.apply precision unit [.numeric a, .numeric b] = .ok (.numeric s) ∧
      (k ≤ n →
        r.toRat? = some (Fintype.card (Fin k ↪ Fin n) : ℚ) ∧
        Fintype.card (Fin k ↪ Fin n) = n.factorial / (n - k).factorial ∧
        s.toRat? = some (((Finset.univ : Finset (Fin n)).powersetCard k).card : ℚ) ∧
        ((Finset.univ : Finset (Fin n)).powersetCard k).card =
          n.factorial / ((n - k).factorial * k.factorial)) ∧
      (n < k →
        r.toRat? = some (n.factorial : ℚ) ∧
        s.toRat? = some ((nativePrecision precision).rounded (n.factorial / k.factorial))) := by
  have isPerm : perm.IsPair .permutations := isPair_of_name permMember (by rw [permName]; rfl)
  have isComb : comb.IsPair .combinations := isPair_of_name combMember (by rw [combName]; rfl)
  obtain ⟨r, permDone, rValue⟩ :=
    permutations_apply precision unit left right few few' short short' isPerm
  obtain ⟨s, combDone, sValue⟩ :=
    combinations_apply precision unit left right few few' short short' isComb
  refine ⟨r, s, permDone, combDone, fun within => ?_, fun beyond => ?_⟩
  · rw [← card_ordered within] at rValue
    rw [rounded_unordered within (Precision.small_factorial few short)] at sValue
    exact ⟨rValue, card_ordered within, sValue,
      by rw [card_unordered within, Nat.div_div_eq_div_mul]⟩
  · have none : n - k = 0 := Nat.sub_eq_zero_of_le beyond.le
    rw [none, Nat.factorial_zero, Nat.div_one] at rValue sValue
    exact ⟨rValue, sValue⟩

/-- Two of five items. -/
theorem perm_comb_count_five : ∃ perm ∈ all, ∃ comb ∈ all, ∃ r s,
    perm.name = "perm" ∧ comb.name = "comb" ∧
    perm.apply 10 .radians [.numeric 5, .numeric 2] = .ok (.numeric r) ∧
    comb.apply 10 .radians [.numeric 5, .numeric 2] = .ok (.numeric s) ∧
    r.toRat? = some 20 ∧ s.toRat? = some 10 := by
  obtain ⟨perm, permMember, permName⟩ : ∃ n ∈ all, n.name = "perm" := by decide +kernel
  obtain ⟨comb, combMember, combName⟩ : ∃ n ∈ all, n.name = "comb" := by decide +kernel
  obtain ⟨r, s, permDone, combDone, within, -⟩ :=
    perm_comb_count 10 .radians permMember permName combMember combName
      (Decimal.toRat?_ofNat 5) (Decimal.toRat?_ofNat 2) (by decide) (by decide)
      (by norm_num [Nat.factorial, guardDigits]) (by norm_num [Nat.factorial, guardDigits])
  obtain ⟨rValue, ordered, sValue, unordered⟩ := within (by decide)
  rw [ordered] at rValue
  rw [unordered] at sValue
  exact ⟨perm, permMember, comb, combMember, r, s, permName, combName, permDone, combDone,
    by simpa [Nat.factorial] using rValue, by simpa [Nat.factorial] using sValue⟩

/-- Three of two items: no selection is counted as two ordered ones and a third. -/
theorem selections_of_too_many : Fintype.card (Fin 3 ↪ Fin 2) = 0 ∧
    ((Finset.univ : Finset (Fin 2)).powersetCard 3).card = 0 ∧
    ∃ perm ∈ all, ∃ comb ∈ all, perm.name = "perm" ∧ comb.name = "comb" ∧
      perm.apply 10 .radians [.numeric 2, .numeric 3] = .ok (.numeric 2) ∧
      comb.apply 10 .radians [.numeric 2, .numeric 3] =
        .ok (.numeric (.finite false 333333333333333 (-15))) := by
  exact ⟨by rw [Fintype.card_embedding_eq]; rfl, by decide, by decide +kernel⟩

end Native

end Reckon
