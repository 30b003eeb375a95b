import Reckon.Binary64.Exact
import Reckon.Proofs.Decimal.Value

/-!
# The parts of a finite double

The eleven bits of the exponent are all ones in infinities and in what is no number, so that
`decode?` gives parts of every other double (`exists_decode?`). They are a mantissa of at most
fifty-three bits and an exponent between -1074 and 971 (`bounds_of_decode?`), and the mantissa is
zero where the double is equal to zero (`mantissa_eq_zero`).
-/

namespace Reckon.Binary64

open Float.Model

variable {x : Float} {s : Bool} {m : Nat} {q : Int}

/-! ## The fields of the bits -/

theorem toNat_unpackExponent (b : BitVec Format.binary64.numBits) :
    (UnpackedFloat.unpackExponent b).toNat = b.toNat / twos 52 % twos 11 := by
  simp [UnpackedFloat.unpackExponent, Nat.shiftRight_eq_div_pow, twos]

theorem toNat_unpackMantissa (b : BitVec Format.binary64.numBits) :
    (UnpackedFloat.unpackMantissa b).toNat = b.toNat % twos 52 := by
  simp [UnpackedFloat.unpackMantissa, twos]

/-- The exponent field can be taken from the bits without their sign. -/
theorem field_eq (bits : Nat) : bits % twos 63 / twos 52 = bits / twos 52 % twos 11 := by
  rw [show twos 63 = twos 52 * twos 11 by decide, Nat.mod_mul_right_div_self]

theorem fraction_eq (bits : Nat) : bits % twos 63 % twos 52 = bits % twos 52 :=
  Nat.mod_mod_of_dvd _ (by decide)

/-- From infinity on, the exponent field is all ones. -/
theorem infinityBits_le_iff (bits : Nat) :
    infinityBits ≤ bits % twos 63 ↔ bits / twos 52 % twos 11 = 2047 := by
  have below : bits / twos 52 % twos 11 < twos 11 := Nat.mod_lt _ (twos_pos 11)
  have count : twos 11 = 2048 := rfl
  rw [infinityBits, ← Nat.le_div_iff_mul_le (twos_pos 52), field_eq]
  omega

/-! ## The parts -/

/-- A finite double has parts. -/
theorem exists_decode? (finite : x.isFinite = true) : ∃ s m q, decode? x = some ⟨s, m, q⟩ := by
  unfold decode?
  dsimp only
  rw [if_neg]
  · split <;> exact ⟨_, _, _, rfl⟩
  · rw [infinityBits_le_iff]
    intro full
    change (UnpackedFloat.unpack Format.binary64 x.toBits.toBitVec).isFinite = true at finite
    have ones : @UnpackedFloat.unpackExponent Format.binary64 x.toBits.toBitVec = -1#_ := by
      rw [← BitVec.toNat_inj, toNat_unpackExponent]
      exact full
    unfold UnpackedFloat.unpack at finite
    dsimp only at finite
    rw [if_pos ones] at finite
    split at finite <;> cases finite

/-- The mantissa has at most fifty-three bits, and the exponent is in the range of its field. -/
theorem bounds_of_decode? (parts : decode? x = some ⟨s, m, q⟩) :
    m < twos 53 ∧ minExponent ≤ q ∧ q ≤ 971 := by
  unfold decode? at parts
  dsimp only at parts
  have low : x.toBits.toNat % twos 63 % twos 52 < twos 52 := Nat.mod_lt _ (twos_pos 52)
  have double : twos 53 = twos 52 + twos 52 := by decide
  split at parts
  next => cases parts
  next below =>
    rw [infinityBits, not_le, ← Nat.div_lt_iff_lt_mul (twos_pos 52)] at below
    split at parts
    next =>
      cases parts
      exact ⟨by omega, le_rfl, by decide⟩
    next =>
      cases parts
      refine ⟨by omega, by omega, ?_⟩
      unfold minExponent
      omega

/-- A double that is equal to zero is unpacked as a zero of some sign. -/
theorem exists_unpack_zero (zero : (x == 0) = true) :
    ∃ sign, UnpackedFloat.unpack Format.binary64 x.toBits.toBitVec = .zero sign := by
  change (x.toModel.unpack.compare (.zero .positive) == some .eq) = true at zero
  change ∃ sign, x.toModel.unpack = .zero sign
  cases shape : x.toModel.unpack with
  | zero sign => exact ⟨sign, rfl⟩
  | notANumber => rw [shape] at zero; cases zero
  | infinity sign => rw [shape] at zero; cases sign <;> cases zero
  | finite sign mantissa exponent positive => rw [shape] at zero; cases sign <;> cases zero

/-- The fields of bits that are unpacked as a zero are zero. -/
theorem fields_eq_zero {b : BitVec Format.binary64.numBits} {sign : UnpackedFloat.Sign}
    (unpacked : UnpackedFloat.unpack Format.binary64 b = .zero sign) :
    b.toNat / twos 52 % twos 11 = 0 ∧ b.toNat % twos 52 = 0 := by
  rw [← toNat_unpackExponent, ← toNat_unpackMantissa]
  unfold UnpackedFloat.unpack at unpacked
  dsimp only at unpacked
  by_cases ones : UnpackedFloat.unpackExponent b = -1#_
  · rw [if_pos ones] at unpacked
    split at unpacked <;> cases unpacked
  rw [if_neg ones] at unpacked
  by_cases subnormal : UnpackedFloat.unpackExponent b = 0#_
  · rw [if_pos subnormal] at unpacked
    by_cases zero : UnpackedFloat.unpackMantissa b = 0#_
    · rw [subnormal, zero]
      exact ⟨rfl, rfl⟩
    · rw [dif_neg zero] at unpacked
      cases unpacked
  · rw [if_neg subnormal] at unpacked
    cases unpacked

theorem mantissa_eq_zero (parts : decode? x = some ⟨s, m, q⟩) (zero : (x == 0) = true) :
    m = 0 := by
  obtain ⟨sign, unpacked⟩ := exists_unpack_zero zero
  obtain ⟨field, fraction⟩ := fields_eq_zero unpacked
  change x.toBits.toNat / twos 52 % twos 11 = 0 at field
  change x.toBits.toNat % twos 52 = 0 at fraction
  unfold decode? at parts
  dsimp only at parts
  rw [field_eq, fraction_eq, field, fraction, if_pos rfl] at parts
  split at parts <;> cases parts
  rfl

/-! ## The value of the parts -/

/-- The number that the parts stand for. -/
def Parts.toRat (p : Parts) : ℚ :=
  Decimal.signedCoefficient p.negative p.mantissa * 2 ^ p.exponent

/-- The number differs from the double by half a unit of its last binary place at most. -/
def WithinHalfUnit (x : Float) (y : ℚ) : Prop :=
  ∃ p, decode? x = some p ∧ |y - p.toRat| ≤ 2 ^ p.exponent / 2

@[simp]
theorem cast_twos (k : Nat) : ((twos k : Nat) : ℚ) = (2 : ℚ) ^ (k : ℤ) := by
  rw [twos, zpow_natCast]
  exact_mod_cast rfl

/-- A power with its positive exponents above and its negative ones below the bar. -/
theorem zpow_toNat_div {a : ℚ} (positive : 0 < a) (k : ℤ) :
    a ^ (k.toNat : ℤ) / a ^ ((-k).toNat : ℤ) = a ^ k := by
  rw [← zpow_sub₀ positive.ne']
  congr 1
  omega

theorem fraction_value (m : Nat) (q : ℤ) :
    ((fraction m q).1 : ℚ) / (fraction m q).2 = m * 2 ^ q := by
  rw [fraction, Nat.cast_mul, cast_twos, cast_twos, mul_div_assoc, zpow_toNat_div (by norm_num)]

/-- A finite double has at most 309 digits before its point. -/
theorem value_lt (mantissa : m < twos 53) (exponent : q ≤ 971) :
    (m : ℚ) * 2 ^ q < 10 ^ (309 : ℤ) := by
  have top : (2 : ℚ) ^ q ≤ 2 ^ (971 : ℤ) := zpow_le_zpow_right₀ (by norm_num) exponent
  have wide : (m : ℚ) ≤ twos 53 := by exact_mod_cast mantissa.le
  have largest : ((twos 53 * twos 971 : Nat) : ℚ) < (tens 309 : Nat) :=
    Nat.cast_lt.2 (by decide +kernel)
  calc (m : ℚ) * 2 ^ q ≤ (twos 53 : Nat) * 2 ^ (971 : ℤ) :=
      mul_le_mul wide top (zpow_nonneg (by norm_num) q) (Nat.cast_nonneg _)
    _ = (twos 53 * twos 971 : Nat) := by
      rw [Nat.cast_mul, cast_twos 971]
      rfl
    _ < 10 ^ (309 : ℤ) := by
      rw [cast_tens] at largest
      exact largest

end Reckon.Binary64
