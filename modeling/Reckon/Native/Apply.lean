import Reckon.Native
import Reckon.Term.Arithmetic
import Reckon.Binary64.Shortest

/-!
# Applying native functions

Every rule works with the precision and five digits more. Trigonometric and hyperbolic functions
go through doubles; everything else stays in decimal arithmetic. If some argument is not a number
the call is kept as a text.
-/

namespace Reckon

/-! ## Functions on doubles -/

namespace RealFunction

def eval : RealFunction → Float → Float
  | sin => Float.sin
  | cos => Float.cos
  | tan => Float.tan
  | sinh => Float.sinh
  | cosh => Float.cosh
  | tanh => Float.tanh
  | asin => Float.asin
  | acos => Float.acos
  | atan => Float.atan

/-- The function grows beyond all doubles. -/
def grows : RealFunction → Bool
  | sinh | cosh => true
  | _ => false

/-- The value at a double; refused outside of the domain and where it is too large. -/
def apply (f : RealFunction) (x : Float) : Except Fault Float :=
  let y := f.eval x
  if y.isNaN && !x.isNaN then .error (.domain .outsideDomain)
  else if y.isInf && x.isFinite then
    .error (if f.grows then .range .outsideRange else .domain .outsideDomain)
  else .ok y

end RealFunction

/-- A denominator smaller than this counts as zero. -/
def smallestDenominator : Float := 1e-15

/-- One over a double. -/
def reciprocalOf (x : Float) : Except Fault Float :=
  if x == 0 then .error .floatDivision else .ok (1 / x)

/-! ## Decimal rules -/

namespace Rule

/-- The name that the rule gives itself in a fault. -/
def name : Rule → String
  | reciprocal .tan => "cot"
  | reciprocal .cos => "sec"
  | reciprocal _ => "csc"
  | inverseReciprocal .acos => "asec"
  | inverseReciprocal _ => "acsc"
  | remainder => "mod"
  | quotient => "div"
  | _ => ""

/-- The largest argument of a factorial. -/
def factorialLimit : Nat := 10000

/-- Multiplies `product` by `n`, `n - 1` and so on while they are positive. -/
def factorialFrom (p : Precision) : (fuel : Nat) → (product n : Decimal) → Except Signal Decimal
  | 0, product, _ => .ok product
  | fuel + 1, product, n => do
    if ← Decimal.less 0 n then
      let product ← p.mul product n
      let n ← p.sub n 1
      factorialFrom p fuel product n
    else return product

/-- The product of `n`, `n - 1` and so on down to the last positive one. -/
def factorialOf (p : Precision) (n : Decimal) : Except Fault Decimal := do
  if ← liftSignal (Decimal.less (.ofInt factorialLimit) n) then
    throw (.range (.factorial n.scientific))
  liftSignal (factorialFrom p (factorialLimit + 1) 1 n)

/-- `n! / (n - k)!` -/
def permutationsOf (p : Precision) (n k : Decimal) : Except Fault Decimal := do
  let whole ← factorialOf p n
  let rest ← factorialOf p (← liftSignal (p.sub n k))
  liftSignal (p.div whole rest)

/-- `n! / ((n - k)! k!)` -/
def combinationsOf (p : Precision) (n k : Decimal) : Except Fault Decimal := do
  let ordered ← permutationsOf p n k
  let orders ← factorialOf p k
  liftSignal (p.div ordered orders)

/-- An integer division by a number that is not zero; an invalid one is out of range. -/
def dividing (rule : Rule) (a b : Decimal) (result : Except Signal Decimal) :
    Except Fault Decimal :=
  match result with
  | .ok r => .ok r
  | .error .divisionByZero => .error (.signal .divisionByZero)
  | .error .overflow => .error (.signal .overflow)
  | .error _ => .error (.domain (.quotientTooLong rule.name a.scientific b.scientific))

/-- Euclid's algorithm with remainders toward zero. -/
def euclid (p : Precision) : (fuel : Nat) → (a b : Decimal) → Except Signal Decimal
  | 0, a, _ => p.abs a
  | fuel + 1, a, b =>
    if b.isZero then p.abs a
    else do
      let r ← p.rem a b
      euclid p fuel b r

/-- The number of digits between the first and the last one of two numbers. -/
def span (a b : Decimal) : Nat :=
  match a, b with
  | .finite _ c e, .finite _ d f => digitCount c + digitCount d + (e - f).natAbs
  | _, _ => 0

/-- The greatest common factor. Of five remainders one is at least a digit shorter. -/
def commonFactorOf (p : Precision) (a b : Decimal) : Except Fault Decimal :=
  if b.isZero then .error (.division (.gcfByZero a.scientific))
  else liftSignal (euclid p (6 * span a b + 10) a b)

/-- The cube root, with the sign of the number. -/
def cubeRootOf (p : Precision) (x : Decimal) : Except Signal Decimal := do
  if x.isZero then return 0
  let root ← p.powReal (← p.abs x) (← p.div 1 3)
  if ← Decimal.less 0 x then return root else p.neg root

/-- The value of a rule as a decimal or as a double. -/
inductive Value where
  | decimal (n : Decimal)
  | double (x : Float)

/-- The value of a rule on as many numbers as it takes. -/
def eval (rule : Rule) (p : Precision) (args : List Decimal) : Except Fault Value :=
  match rule, args with
  | direct f, [x] => .double <$> f.apply (Binary64.ofDecimal x)
  | reciprocal f, [x] => do
    let denominator ← f.apply (Binary64.ofDecimal x)
    if denominator.abs < smallestDenominator then
      throw (.division (.undefinedAt rule.name x.scientific))
    return .double (1 / denominator)
  | inverseReciprocal f, [x] => do
    if x.isZero then throw (.division (.undefinedAt rule.name "0"))
    return .double (← f.apply (← reciprocalOf (Binary64.ofDecimal x)))
  | arccotangent, [x] => do
    if x.isZero then return .double (3.141592653589793 / 2)
    return .double (← RealFunction.atan.apply (← reciprocalOf (Binary64.ofDecimal x)))
  | squareRoot, [x] => do
    if ← liftSignal (x.less 0) then throw (.domain (.sqrtNegative x.scientific))
    .decimal <$> liftSignal (p.sqrt x)
  | cubeRoot, [x] => .decimal <$> liftSignal (cubeRootOf p x)
  | absolute, [x] => .decimal <$> liftSignal (p.abs x)
  | naturalLog, [x] => do
    if ← liftSignal (x.atMost 0) then throw (.domain (.logarithm "ln" x.scientific))
    .decimal <$> liftSignal (p.ln x)
  | commonLog, [x] => do
    if ← liftSignal (x.atMost 0) then throw (.domain (.logarithm "log" x.scientific))
    .decimal <$> liftSignal (p.log10 x)
  | factorial, [n] => .decimal <$> factorialOf p n
  | permutations, [n, k] => .decimal <$> permutationsOf p n k
  | combinations, [n, k] => .decimal <$> combinationsOf p n k
  | remainder, [a, b] =>
    if b.isZero then .error (.division .modByZero)
    else .decimal <$> dividing rule a b (p.rem a b)
  | quotient, [a, b] =>
    if b.isZero then .error (.division .divByZero)
    else .decimal <$> dividing rule a b (p.quot a b)
  | commonFactor, [a, b] => .decimal <$> commonFactorOf p a b
  | rule, args => .error (.kind (.arguments rule.arity args.length))

end Rule

/-! ## Calls -/

/-- The working precision of native functions, any number of digits: that the arithmetic has a
largest precision, which a setting near 10^18 exceeds, is left out. -/
def nativePrecision (precision : Nat) : Precision := .halfEven (precision + guardDigits)

namespace Native

/-- An angle in degrees as an angle in radians. -/
def fromDegrees (p : Precision) (a : Decimal) : Except Signal Decimal := do
  p.div (← p.mul a Constant.pi.value) 180

/-- An angle in radians as an angle in degrees. -/
def toDegrees (p : Precision) (a : Decimal) : Except Signal Decimal := do
  p.div (← p.mul a 180) Constant.pi.value

/-- The value of a function on numbers, the arguments being those of `texts`. -/
def evalNumbers (n : Native) (precision : Nat) (unit : AngleUnit) (args : List Decimal)
    (texts : Except Fault (List String)) : Except Fault Decimal := do
  let p := nativePrecision precision
  let degrees := n.trigonometric && unit == .degrees
  let args ← if degrees && !n.inverse then liftSignal (args.mapM (fromDegrees p)) else pure args
  let result ← match ← n.rule.eval p args with
    | .decimal r => pure r
    | .double y =>
      if y.isFinite then pure (Binary64.toDecimal y)
      else throw (.domain (.undefinedAt n.name (", ".intercalate (← texts))))
  let result ← if degrees && n.inverse then liftSignal (toDegrees p result) else pure result
  liftSignal (p.round result)

/-- The value of a function that takes values. -/
def apply (n : Native) (precision : Nat) (unit : AngleUnit) (inputs : List Term) :
    Except Fault Term := do
  checkArity n.signature n.params.length inputs.length
  let texts := inputs.mapM (Term.render · none)
  match inputs.mapM Term.value? with
  | some args => return .numeric (← evalNumbers n precision unit args texts)
  | none => return .ofName (n.name ++ "(" ++ ", ".intercalate (← texts) ++ ")")

end Native

end Reckon
