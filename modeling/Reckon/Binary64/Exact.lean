import Reckon.Decimal.Rounding

/-!
# Double precision numbers as exact values

A finite double is `± m · 2 ^ q`. `decode?` gives the parts, and `nearest` the double that a
fraction rounds to, a half going to the even neighbour.
-/

namespace Reckon.Binary64

/-- Sign, integer mantissa and binary exponent of a finite double. -/
structure Parts where
  negative : Bool
  mantissa : Nat
  exponent : Int
deriving DecidableEq, Repr

/-- The smallest binary exponent. -/
def minExponent : Int := -1074

/-- The bits of infinity. -/
def infinityBits : Nat := 0x7ff * twos 52

/-- The parts of a finite double. -/
def decode? (x : Float) : Option Parts :=
  let bits := x.toBits.toNat
  let magnitude := bits % twos 63
  let negative := twos 63 ≤ bits
  let field : Nat := magnitude / twos 52
  let fraction := magnitude % twos 52
  if infinityBits ≤ magnitude then none
  else if field = 0 then some ⟨negative, fraction, minExponent⟩
  else some ⟨negative, fraction + twos 52, minExponent + ((field - 1 : Nat) : Int)⟩

/-- The double with the sign and the bits of a magnitude; infinity if they are too large. -/
def ofMagnitude (negative : Bool) (magnitude : Nat) : Float :=
  let bits := min magnitude infinityBits + if negative then twos 63 else 0
  Float.ofBits bits.toUInt64

/-- The binary exponent at which the positive fraction `n / d` has fifty-three bits. -/
def exponentOf (n d : Nat) : Int :=
  let low : Int := (n.log2 : Int) - d.log2 - 53
  let full := d * twos (low + 53).toNat ≤ n * twos (-(low + 53)).toNat
  max (if full then low + 1 else low) minExponent

/-- The magnitude bits of the double nearest to the fraction `n / d`. -/
def nearestMagnitude (n d : Nat) : Nat :=
  if n = 0 then 0
  else
    let q := exponentOf n d
    let m := Rounding.halfEven.divide (n * twos (-q).toNat) (d * twos q.toNat)
    (q - minExponent).toNat * twos 52 + m

/-- The double nearest to `± n / d`. -/
def nearest (negative : Bool) (n d : Nat) : Float :=
  ofMagnitude negative (nearestMagnitude n d)

/-- Numerator and denominator of `m · 2 ^ q`. -/
def fraction (m : Nat) (q : Int) : Nat × Nat :=
  (m * twos q.toNat, twos (-q).toNat)

/-- The double is a whole number. -/
def isWhole (x : Float) : Bool :=
  match decode? x with
  | some ⟨_, m, q⟩ => let (n, d) := fraction m q; n % d == 0
  | none => false

/-- The whole number that a double is; its integer part otherwise. -/
def truncated (x : Float) : Int :=
  match decode? x with
  | some ⟨s, m, q⟩ => let (n, d) := fraction m q; Decimal.signedCoefficient s (n / d)
  | none => 0

/-- The double nearest to a decimal; one beyond four hundred digits is infinite or zero. -/
def ofDecimal : Decimal → Float
  | .finite s c e =>
    let lead := e + digitCount c
    if c = 0 || lead < -400 then nearest s 0 1
    else if 400 < lead then ofMagnitude s infinityBits
    else nearest s (c * tens e.toNat) (tens (-e).toNat)
  | .infinity s => ofMagnitude s infinityBits
  | .nan .. => 0.0 / 0.0

end Reckon.Binary64
