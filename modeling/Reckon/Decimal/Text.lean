import Reckon.Decimal.Arithmetic
import Reckon.Text.Blank
import Reckon.Text.Digit

/-!
# The text of a decimal

`Decimal.scientific` shows coefficient and exponent as they are: `2.50`, `1E+5`, `1E-7`.
`Decimal.plain` shows the number alone: no exponent, no trailing zeros, no sign of a zero.
`Decimal.ofText?` reads either, and more: outer blanks, underscores, digits of any script.
-/

namespace Reckon

namespace Decimal

/-! ## Writing -/

/-- The digits of a coefficient. -/
def digits (c : Nat) : List Char :=
  Nat.toDigits 10 c

def zeros (n : Nat) : List Char :=
  List.replicate n '0'

/-- The digits of a coefficient with a point in front of the last `places` of them. -/
def pointed (c places : Nat) : List Char :=
  let ds := digits c
  let ds := zeros (places + 1 - ds.length) ++ ds
  ds.take (ds.length - places) ++ '.' :: ds.drop (ds.length - places)

/-- The number without an exponent, zeros at the end as they are. -/
def positional (c : Nat) (e : Int) : List Char :=
  if 0 ≤ e then digits c ++ zeros e.toNat else pointed c (-e).toNat

/-- The number with the point after its first digit and an exponent. -/
def exponential (c : Nat) (e : Int) : List Char :=
  let ds := digits c
  let lead := e + ds.length - 1
  let fraction := ds.drop 1
  ds.take 1 ++ (if fraction.isEmpty then [] else '.' :: fraction) ++
    'E' :: (if lead < 0 then '-' else '+') :: digits lead.natAbs

def sign (negative : Bool) : List Char :=
  if negative then ['-'] else []

/-- The text of a NaN shows a payload that is not zero. -/
def nanText (signaling : Bool) (payload : Nat) : List Char :=
  (if signaling then "sNaN" else "NaN").toList ++ if payload = 0 then [] else digits payload

/-- Coefficient and exponent as they are: an exponent is written if it is positive or if more
than five zeros would follow the point. -/
def scientific : Decimal → String
  | .finite s c e =>
    String.ofList <| sign s ++
      if e ≤ 0 && -6 ≤ e + (digits c).length - 1 then
        if e = 0 then digits c else pointed c (-e).toNat
      else exponential c e
  | .infinity s => String.ofList (sign s ++ "Infinity".toList)
  | .nan s q p => String.ofList (sign s ++ nanText q p)

/-- The digits that sums and products keep. -/
def exactDigits : Nat := 1000

/-- The number alone: plain notation without trailing zeros. A number of more than a thousand
digits is shown rounded; one that the exponent range is too small for is shown as a zero with its
sign. A number of `10^1000000` or more has no text and `Term.render` refuses it: what is evaluated
is written by `render`, and only in keys, faults and listings, and where no more than a question
about a text is asked, the refusal is left out. -/
def plain (a : Decimal) : String :=
  let shown := match (Precision.halfEven exactDigits).round a with
    | .ok r => r
    | .error _ => a
  match shown with
  | .finite s c e =>
    if c = 0 then String.ofList (sign s ++ ['0'])
    else
      let (c, e) := Precision.stripZeros c e 0
      String.ofList (sign s ++ positional c e)
  | .infinity s => String.ofList (sign s ++ "Infinity".toList)
  | .nan s q p => String.ofList (sign s ++ nanText q p)

/-! ## Reading -/

/-- The value of a list of ASCII digits. -/
def ofDigits (ds : List Char) : Nat :=
  ds.foldl (fun n d => 10 * n + (d.toNat - 48)) 0

/-- The leading ASCII digits and what follows them. -/
def spanDigits (cs : List Char) : List Char × List Char :=
  (cs.takeWhile Char.isDigit, cs.dropWhile Char.isDigit)

/-- The number written as digits, a point and more digits. -/
def ofNumeral (whole fraction : List Char) : Decimal :=
  .finite false (ofDigits (whole ++ fraction)) (-(fraction.length : Int))

/-- The largest exponent that a written number may have. -/
def writtenLimit : Int := 999999999999999999

/-- The exponent of a written number is in range. -/
def writable : Decimal → Bool
  | .finite s c e =>
    -(2 * writtenLimit - 1) ≤ e &&
      (if c = 0 then e ≤ writtenLimit else (finite s c e).adjusted ≤ writtenLimit)
  | _ => true

/-- An integer with an optional sign. -/
def readExponent? (cs : List Char) : Option Int :=
  let (negative, ds) := match cs with
    | '-' :: ds => (true, ds)
    | '+' :: ds => (false, ds)
    | ds => (false, ds)
  if ds.isEmpty || !ds.all Char.isDigit then none
  else some (signedCoefficient negative (ofDigits ds))

/-- Digits with an optional point and an optional exponent. -/
def readNumeral? (cs : List Char) : Option Decimal :=
  let (whole, rest) := spanDigits cs
  let (fraction, rest) := match rest with
    | '.' :: rest => spanDigits rest
    | rest => ([], rest)
  if whole.isEmpty && fraction.isEmpty then none
  else
    match ofNumeral whole fraction, rest with
    | a, [] => some a
    | .finite s c e, mark :: rest =>
      if mark == 'e' || mark == 'E' then (readExponent? rest).map fun k => .finite s c (e + k)
      else none
    | _, _ => none

/-- A NaN with an optional payload. -/
def readNaN? (signaling : Bool) (cs : List Char) : Option Decimal :=
  if cs.all Char.isDigit then some (.nan false signaling (ofDigits cs)) else none

/-- An unsigned number, infinity or NaN. -/
def readUnsigned? (cs : List Char) : Option Decimal :=
  let lower := cs.map Char.toLower
  if lower == "inf".toList || lower == "infinity".toList then some (.infinity false)
  else if lower.take 3 == "nan".toList then readNaN? false (cs.drop 3)
  else if lower.take 4 == "snan".toList then readNaN? true (cs.drop 4)
  else readNumeral? cs

/-- A signed number. -/
def readSigned? : List Char → Option Decimal
  | '-' :: cs => (readUnsigned? cs).map flip
  | '+' :: cs => readUnsigned? cs
  | cs => readUnsigned? cs

/-- A digit of any script as an ASCII digit. -/
def asciiDigit (c : Char) : Char :=
  match Text.digitValue? c with
  | some d => Char.ofNat (48 + d)
  | none => c

/-- The number that a text denotes: outer blanks and underscores are ignored. -/
def ofText? (s : String) : Option Decimal :=
  let cs := (Text.trimBlanks s.toList).filter (· != '_')
  (readSigned? (cs.map asciiDigit)).filter writable

/-- The number that a text denotes, or the signal that it denotes none. -/
def ofText (s : String) : Except Signal Decimal :=
  match ofText? s with
  | some a => .ok a
  | none => .error .conversion

end Decimal

end Reckon
