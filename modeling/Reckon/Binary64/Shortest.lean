import Reckon.Binary64.Exact
import Reckon.Decimal.Text

/-!
# The shortest text of a double

The digits of a double are the fewest that read back as it, and of those the nearest. An exponent
is written below `1e-4` and from `1e16` on.
-/

namespace Reckon.Binary64

/-- The numbers that round to a double, in quarters of `2 ^ exponent`: the double itself, the
lower and the upper end, and whether the ends belong to it. -/
structure Cell where
  middle : Nat
  low : Nat
  high : Nat
  closed : Bool

/-- The cell of a positive double. Below a power of two the doubles are twice as dense. -/
def cell (m : Nat) (q : Int) : Cell :=
  { middle := 4 * m
    low := 4 * m - (if m = twos 52 && minExponent < q then 1 else 2)
    high := 4 * m + 2
    closed := m % 2 = 0 }

/-- The decimal exponent above a positive double `m · 2 ^ q`. -/
def decimalExponent (m : Nat) (q : Int) : Int :=
  let (n, d) := fraction m q
  digitCount (n * tens 400 / d) - (400 : Int)

/-- A number of digits that reads back as the double `m · 2 ^ q`, if there is one with the last
digit at `10 ^ j`: the nearer of the two neighbours, or the only one in the cell. -/
def digitsAt? (m : Nat) (q j : Int) : Option Nat :=
  let around := cell m q
  -- quarters of `2 ^ q` and multiples of `10 ^ j` on one scale
  let quarter := twos (q - 2).toNat * tens (-j).toNat
  let step := twos (2 - q).toNat * tens j.toNat
  let inside (c : Nat) : Bool :=
    let v := c * step
    let low := around.low * quarter
    let high := around.high * quarter
    if around.closed then low ≤ v && v ≤ high else low < v && v < high
  let exact := around.middle * quarter
  let below := exact / step
  let above := below + 1
  let gap := exact - below * step
  let nearer := if 2 * gap < step || (2 * gap == step && below % 2 == 0) then below else above
  if inside nearer && 0 < nearer then some nearer
  else if inside below && 0 < below then some below
  else if inside above then some above
  else none

/-- The shortest digits of a positive double, and the exponent of the last one. -/
def shortest (m : Nat) (q : Int) : Nat × Int :=
  let top := decimalExponent m q
  let found := (List.range 17).findSome? fun (n : Nat) =>
    let j := top - (n + 1 : Nat)
    (digitsAt? m q j).map fun c => (c, j)
  match found with
  | some (c, j) => Precision.stripZeros c j (j + 20)
  | none => (0, 0)

/-- The smallest decimal exponent that is written positionally. -/
def leastPositional : Int := -4

/-- The largest decimal exponent that is written positionally. -/
def mostPositional : Int := 15

/-- A decimal `c · 10 ^ e` with a point or with an exponent of at least two digits. -/
def layout (c : Nat) (e : Int) : List Char :=
  let ds := Decimal.digits c
  let lead := e + ds.length - 1
  if leastPositional ≤ lead && lead ≤ mostPositional then
    if 0 ≤ e then ds ++ Decimal.zeros e.toNat ++ ['.', '0'] else Decimal.pointed c (-e).toNat
  else
    let tail := ds.drop 1
    let exponent := Decimal.digits lead.natAbs
    ds.take 1 ++ (if tail.isEmpty then [] else '.' :: tail) ++
      'e' :: (if lead < 0 then '-' else '+') :: Decimal.zeros (2 - exponent.length) ++ exponent

/-- The shortest text that reads back as the double. -/
def text (x : Float) : String :=
  match decode? x with
  | some ⟨s, m, q⟩ =>
    if m = 0 then String.ofList (Decimal.sign s ++ "0.0".toList)
    else
      let (c, e) := shortest m q
      String.ofList (Decimal.sign s ++ layout c e)
  | none => if x.isNaN then "nan" else if x < 0 then "-inf" else "inf"

/-- The decimal that the text of a double denotes. -/
def toDecimal (x : Float) : Decimal :=
  (Decimal.ofText? (text x)).getD (.nan false false 0)

/-- Underscores stand between digits only. -/
def underscoresBetweenDigits : List Char → Bool
  | [] => true
  | '_' :: _ => false
  | c :: '_' :: d :: rest => c.isDigit && d.isDigit && underscoresBetweenDigits (d :: rest)
  | _ :: rest => underscoresBetweenDigits rest

/-- The double nearest to the number that a text denotes: outer blanks and underscores between
digits are ignored. -/
def ofText? (s : String) : Option Float :=
  let cs := (Text.trimBlanks s.toList).map Decimal.asciiDigit
  if !underscoresBetweenDigits cs then none
  else
    match Decimal.readSigned? (cs.filter (· != '_')) with
    | some (.nan _ signaling payload) =>
      if signaling || payload ≠ 0 || cs.any Char.isDigit then none else some (0.0 / 0.0)
    | some a => some (ofDecimal a)
    | none => none

end Reckon.Binary64
