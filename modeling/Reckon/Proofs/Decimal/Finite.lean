import Reckon.Proofs.Decimal.Numeral
import Reckon.Proofs.Decimal.Rounding

/-!
# Finite numbers

Sums, products, opposites and roundings of finite numbers are finite, and so is what the text of a
finite number denotes. A comparison has no answer for what is no number, so that an answer tells
that a number is finite, or that its magnitude is below a bound whether it is rounded before or not.

Results: `finite_of_sub`, `finite_of_quantize`, `finite_of_ofText_plain`, `magnitude_mono`,
`unsigned_less_of_abs_less`.
-/

namespace Reckon

namespace Decimal

/-- A number with a rational value. -/
def IsFinite (a : Decimal) : Prop :=
  ∃ q, a.toRat? = some q

theorem isFinite_finite (s : Bool) (c : Nat) (e : ℤ) : (finite s c e).IsFinite :=
  ⟨_, rfl⟩

theorem isFinite_iff {a : Decimal} : a.IsFinite ↔ ∃ s c e, a = .finite s c e := by
  constructor
  · rintro ⟨q, value⟩
    obtain ⟨s, c, e, rfl, -⟩ := exists_of_toRat? value
    exact ⟨s, c, e, rfl⟩
  · rintro ⟨s, c, e, rfl⟩
    exact isFinite_finite s c e

/-- The magnitude as it is, not rounded. -/
def unsigned (a : Decimal) : Decimal :=
  if a.signed then a.flip else a

theorem toRat?_unsigned {a : Decimal} {q : ℚ} (value : a.toRat? = some q) :
    a.unsigned.toRat? = some |q| := by
  obtain ⟨s, c, e, rfl, rfl⟩ := exists_of_toRat? value
  have positive := ten_zpow_pos e
  rw [abs_mul, abs_signedCoefficient, abs_of_pos positive]
  cases s <;> simp [unsigned, signed, flip, toRat?]

end Decimal

namespace Precision

open Decimal

variable {p : Precision} {a b r : Decimal}

/-! ## Operations -/

theorem finite_of_finish {s : Bool} {c : Nat} {e : ℤ} (done : p.finish s c e = .ok r) :
    r.IsFinite := by
  unfold finish at done
  dsimp only at done
  repeat' split at done
  all_goals cases done
  all_goals exact isFinite_finite _ _ _

theorem finite_of_round (finite : a.IsFinite) (done : p.round a = .ok r) : r.IsFinite := by
  obtain ⟨s, c, e, rfl⟩ := isFinite_iff.1 finite
  exact finite_of_finish done

theorem finite_of_neg (finite : a.IsFinite) (done : p.neg a = .ok r) : r.IsFinite := by
  obtain ⟨s, c, e, rfl⟩ := isFinite_iff.1 finite
  exact finite_of_finish done

theorem finite_of_mul (first : a.IsFinite) (second : b.IsFinite) (done : p.mul a b = .ok r) :
    r.IsFinite := by
  obtain ⟨s, c, e, rfl⟩ := isFinite_iff.1 first
  obtain ⟨t, d, f, rfl⟩ := isFinite_iff.1 second
  exact finite_of_finish done

theorem finite_of_sub (first : a.IsFinite) (second : b.IsFinite) (done : p.sub a b = .ok r) :
    r.IsFinite := by
  obtain ⟨s, c, e, rfl⟩ := isFinite_iff.1 first
  obtain ⟨t, d, f, rfl⟩ := isFinite_iff.1 second
  exact finite_of_finish done

theorem finite_of_quantize {exponent : ℤ} (finite : a.IsFinite)
    (done : p.quantize a exponent = .ok r) : r.IsFinite := by
  obtain ⟨s, c, e, rfl⟩ := isFinite_iff.1 finite
  have whole : ∀ {refused : Bool} {rescaled : Nat},
      (if refused then .error .invalidOperation else .ok (.finite s rescaled exponent)) =
        (.ok r : Except Signal Decimal) → r.IsFinite := by
    intro refused rescaled done
    cases refused with
    | true => cases done
    | false =>
      cases done
      exact isFinite_finite s rescaled exponent
  rw [quantize] at done
  split at done
  · cases done
  · exact whole done

end Precision

/-! ## Texts -/

namespace Decimal

theorem isDigit_cases {c : Char} (digit : c.isDigit = true) : c ∈ "0123456789".toList := by
  obtain ⟨above, below⟩ := toNat_of_isDigit digit
  rw [← Char.ofNat_toNat c]
  interval_cases c.toNat <;> decide

theorem asciiDigit_cases (c : Char) : asciiDigit c = c ∨ (asciiDigit c).isDigit = true := by
  unfold asciiDigit
  split
  next d found =>
    right
    obtain ⟨start, first, rfl⟩ := Option.map_eq_some_iff.1 found
    have bounds := List.find?_some first
    simp only [Bool.and_eq_true, decide_eq_true_eq] at bounds
    obtain ⟨k, below, rfl⟩ : ∃ k < 10, c.toNat - start = k := ⟨_, by omega, rfl⟩
    generalize c.toNat - start = k at below
    interval_cases k <;> rfl
  next => exact .inl rfl

/-- A letter that the words for infinity and for no number begin with, in either case. -/
def isInitial (c : Char) : Bool :=
  c.toLower ∈ ['i', 'n', 's']

theorem isInitial_of_ascii {c : Char} (digit : c.isDigit = true) : isInitial c = false :=
  eq_of_beq <| List.all_eq_true.1
    (by decide : "0123456789".toList.all fun c => isInitial c == false) c (isDigit_cases digit)

theorem finite_of_flip {a : Decimal} (finite : a.IsFinite) : a.flip.IsFinite := by
  obtain ⟨q, value⟩ := finite
  exact ⟨-q, toRat?_flip value⟩

variable {cs : List Char} {a : Decimal}

theorem finite_of_readNumeral? (found : readNumeral? cs = some a) : a.IsFinite := by
  unfold readNumeral? ofNumeral at found
  generalize spanDigits cs = split₁ at found
  obtain ⟨whole, rest⟩ := split₁
  dsimp only at found
  split at found
  -- the two ways to the fraction end alike
  all_goals
    split at found
    · cases found
    split at found
    · cases found
      exact isFinite_finite _ _ _
    · split at found
      · obtain ⟨k, -, rfl⟩ := Option.map_eq_some_iff.1 found
        exact isFinite_finite _ _ _
      · cases found
    · cases found

/-- What is no word for infinity is read as a number or not at all. -/
theorem finite_of_readUnsigned? (found : readUnsigned? cs = some a)
    (plain : ∀ c ∈ cs, isInitial c = false) : a.IsFinite := by
  -- no word begins like the text
  have other : ∀ {front w : List Char} {c : Char}, front ⊆ cs.map Char.toLower →
      c ∈ ['i', 'n', 's'] → c ∈ w → (front == w) = false := by
    intro front w c inside initial member
    rw [beq_eq_false_iff_ne]
    rintro rfl
    obtain ⟨d, there, rfl⟩ := List.mem_map.1 (inside member)
    have none := plain d there
    rw [isInitial, decide_eq_false_iff_not] at none
    exact none initial
  unfold readUnsigned? at found
  dsimp only at found
  rw [other (List.Subset.refl _) (c := 'i') (by decide) (by decide),
    other (List.Subset.refl _) (c := 'i') (by decide) (by decide), Bool.or_false,
    if_neg Bool.false_ne_true, other (List.take_subset 3 _) (c := 'n') (by decide) (by decide),
    if_neg Bool.false_ne_true, other (List.take_subset 4 _) (c := 's') (by decide) (by decide),
    if_neg Bool.false_ne_true] at found
  exact finite_of_readNumeral? found

theorem finite_of_readSigned? (found : readSigned? cs = some a)
    (plain : ∀ c ∈ cs, isInitial c = false) : a.IsFinite := by
  unfold readSigned? at found
  split at found
  · obtain ⟨b, read, rfl⟩ := Option.map_eq_some_iff.1 found
    exact finite_of_flip (finite_of_readUnsigned? read fun c member => plain c (.tail _ member))
  · exact finite_of_readUnsigned? found fun c member => plain c (.tail _ member)
  · exact finite_of_readUnsigned? found plain

theorem mem_of_mem_trimBlanks {c : Char} (member : c ∈ Text.trimBlanks cs) : c ∈ cs := by
  rw [Text.trimBlanks, List.mem_reverse] at member
  have dropped := (List.dropWhile_sublist _).subset member
  rw [List.mem_reverse] at dropped
  exact (List.dropWhile_sublist _).subset dropped

theorem finite_of_ofText? {s : String} (found : ofText? s = some a)
    (plain : ∀ c ∈ s.toList, isInitial c = false) : a.IsFinite := by
  obtain ⟨read, -⟩ := Option.filter_eq_some_iff.1 found
  refine finite_of_readSigned? read fun c member => ?_
  obtain ⟨d, inside, rfl⟩ := List.mem_map.1 member
  rcases asciiDigit_cases d with same | digit
  · rw [same]
    exact plain d (mem_of_mem_trimBlanks (List.mem_of_mem_filter inside))
  · exact isInitial_of_ascii digit

/-- The plain text of a finite number is a numeral after a sign. -/
theorem exists_numeral_plain (finite : a.IsFinite) : ∃ (s : Bool) (n : Numeral),
    a.plain.toList = sign s ++ n.chars := by
  unfold plain
  split
  next r rounded =>
    obtain ⟨s, c, e, rfl⟩ := isFinite_iff.1 (Precision.finite_of_round finite rounded)
    exact ⟨s, exists_numeral_shown s c e⟩
  next =>
    obtain ⟨s, c, e, rfl⟩ := isFinite_iff.1 finite
    exact ⟨s, exists_numeral_shown s c e⟩

theorem finite_of_ofText_plain {b : Decimal} (finite : a.IsFinite)
    (done : ofText a.plain = .ok b) : b.IsFinite := by
  unfold ofText at done
  split at done
  next found =>
    cases done
    obtain ⟨s, n, shape⟩ := exists_numeral_plain finite
    refine finite_of_ofText? found fun c member => ?_
    rw [shape, List.mem_append] at member
    rcases member with inSign | inNumeral
    · cases s with
      | false => cases inSign
      | true =>
        rw [List.mem_singleton.1 inSign]
        decide
    · rcases n.digit_or_point inNumeral with digit | rfl
      · exact isInitial_of_ascii digit
      · decide
  next => cases done

end Decimal

/-! ## Magnitudes and bounds -/

theorem Rounding.nearest_mono (mode : Rounding) {x y : ℚ} (le : x ≤ y) :
    mode.nearest x ≤ mode.nearest y := by
  rcases (Int.floor_le_floor le).eq_or_lt with same | less
  · have fraction : Int.fract x ≤ Int.fract y := by
      rw [Int.fract, Int.fract, same]
      exact sub_le_sub_right le _
    have up : mode.goesUp ⌊x⌋ (Int.fract x) = true → mode.goesUp ⌊y⌋ (Int.fract y) = true := by
      rw [same]
      cases mode with
      | halfUp =>
        rw [goesUp, goesUp, decide_eq_true_eq, decide_eq_true_eq]
        exact fun half => half.trans fraction
      | halfEven =>
        simp only [goesUp, Bool.or_eq_true, Bool.and_eq_true, decide_eq_true_eq, beq_iff_eq]
        rintro (more | ⟨half, odd⟩)
        · exact .inl (more.trans_le fraction)
        · rw [half] at fraction
          exact fraction.lt_or_eq.imp id fun same => ⟨same.symm, odd⟩
    rw [nearest, nearest, same]
    rw [same] at up
    split
    next holds => rw [if_pos (up holds)]
    next => split <;> omega
  · have above := mode.floor_le_nearest y
    have below : mode.nearest x ≤ ⌊x⌋ + 1 := by
      unfold nearest
      split <;> omega
    omega

namespace Precision

open Decimal

variable {p : Precision} {x y t : ℚ}

/-- Rounding keeps the order. -/
theorem magnitude_mono (digits : 0 < p.digits) (nonneg : 0 ≤ x) (le : x ≤ y) :
    p.magnitude x ≤ p.magnitude y := by
  rcases nonneg.eq_or_lt with rfl | positive
  · rw [magnitude_zero]
    exact magnitude_nonneg le
  have leads : Int.log 10 x ≤ Int.log 10 y := Int.log_mono_right positive le
  have places : p.lowest x ≤ p.lowest y := max_le_max_right _ (by omega)
  rcases places.eq_or_lt with same | lower
  · have unit := Decimal.ten_zpow_pos (p.lowest y)
    rw [magnitude, magnitude, same]
    refine mul_le_mul_of_nonneg_right ?_ unit.le
    exact_mod_cast p.rounding.nearest_mono (div_le_div_of_nonneg_right le unit.le)
  · -- the power of ten in between is kept
    unfold lowest at lower
    have lead : (10 : ℚ) ^ Int.log 10 y ≤ y := by
      simpa using Int.zpow_log_le_self (b := 10) (by norm_num) (positive.trans_le le)
    have upper : x < 10 ^ (Int.log 10 x + 1) := by
      simpa using Int.lt_zpow_succ_log_self (b := 10) (by norm_num) x
    have between : x ≤ ((1 : ℤ) : ℚ) * 10 ^ Int.log 10 y := by
      rw [Int.cast_one, one_mul]
      exact upper.le.trans (zpow_le_zpow_right₀ (by norm_num) (by omega))
    have grid : p.lowest x ≤ Int.log 10 y := by
      unfold lowest
      omega
    calc p.magnitude x ≤ ((1 : ℤ) : ℚ) * 10 ^ Int.log 10 y := magnitude_le grid between
      _ = 10 ^ Int.log 10 y := by rw [Int.cast_one, one_mul]
      _ ≤ p.magnitude y :=
          pow_log_le_magnitude digits (positive.trans_le le) (by omega) lead

end Precision

namespace Decimal

variable {p : Precision} {a m bound : Decimal}

/-- A magnitude that is below a bound is that of a finite number. -/
theorem finite_of_abs_less (magnitude : p.abs a = .ok m) (below : m.less bound = .ok true) :
    a.IsFinite := by
  cases a with
  | finite s c e => exact isFinite_finite s c e
  | infinity s =>
    cases magnitude
    cases bound with
    | finite t d f => cases below
    | infinity t => cases t <;> cases below
    | nan t q payload => cases below
  | nan s q payload =>
    cases q with
    | true => cases magnitude
    | false =>
      cases magnitude
      cases bound <;> cases below

/-- A magnitude that a bound is not below is that of a finite number. -/
theorem finite_of_not_less_abs (finite : bound.IsFinite) (magnitude : p.abs a = .ok m)
    (below : bound.less m = .ok false) : a.IsFinite := by
  obtain ⟨t, d, f, rfl⟩ := isFinite_iff.1 finite
  cases a with
  | finite s c e => exact isFinite_finite s c e
  | infinity s =>
    cases magnitude
    cases below
  | nan s q payload =>
    cases q <;> cases magnitude
    cases below

/-- A bound that needs no rounding is kept by a magnitude that is below it when it is rounded. -/
theorem unsigned_less_of_abs_less (digits : 0 < p.digits)
    (fits : ∀ t, bound.toRat? = some t → Representable p.digits t)
    (magnitude : p.abs a = .ok m) (below : m.less bound = .ok true) :
    a.unsigned.less bound = .ok true := by
  obtain ⟨q, value⟩ := finite_of_abs_less magnitude below
  have exact := toRat?_unsigned value
  obtain ⟨rounded, -⟩ := Precision.abs_magnitude digits value magnitude
  cases shape : bound.toRat? with
  | some t =>
    rw [less_eq exact shape]
    rw [less_eq rounded shape, Except.ok.injEq, decide_eq_true_eq] at below
    rw [Except.ok.injEq, decide_eq_true_eq]
    by_contra reached
    rcases le_or_gt 0 t with nonneg | negative
    · have kept := Precision.magnitude_mono digits nonneg (not_lt.1 reached)
      rw [Precision.magnitude_eq_self nonneg (fits t shape)] at kept
      exact below.not_ge kept
    · exact below.not_ge (negative.le.trans (Precision.magnitude_nonneg (abs_nonneg q)))
  | none =>
    -- no number is below what is no number, and every finite one is below infinity
    obtain ⟨s, c, e, unsigned⟩ := isFinite_iff.1 ⟨_, exact⟩
    obtain ⟨s', c', e', rfl⟩ := isFinite_iff.1 ⟨_, rounded⟩
    rw [unsigned]
    cases bound with
    | finite t d f => cases shape
    | infinity t => exact below
    | nan t q payload => cases below

/-- A magnitude that is below a power of ten when both are rounded is below it. -/
theorem exists_abs_lt_of_less_power {n : ℤ} (digits : 0 < p.digits)
    (power : p.powerOfTen n = .ok bound) (magnitude : p.abs a = .ok m)
    (below : m.less bound = .ok true) : ∃ q, a.toRat? = some q ∧ |q| < 10 ^ n := by
  obtain ⟨q, value⟩ := finite_of_abs_less magnitude below
  obtain ⟨rounded, -⟩ := Precision.abs_magnitude digits value magnitude
  have positive := ten_zpow_pos n
  unfold Precision.powerOfTen at power
  split at power
  · cases power
  obtain ⟨shown, -⟩ := Precision.finish_rounded digits (q := 10 ^ n) (by simp) power
  rw [Precision.rounded, if_neg positive.le.not_gt] at shown
  rw [less_eq rounded shown, Except.ok.injEq, decide_eq_true_eq] at below
  exact ⟨q, value, not_le.1 fun reached =>
    below.not_ge (Precision.magnitude_mono digits positive.le reached)⟩

end Decimal

end Reckon
