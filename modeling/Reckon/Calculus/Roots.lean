import Reckon.Calculus.Derivative
import Reckon.Calculus.Degree

/-!
# Roots

The real roots of an expression in one variable by Newton's method.

A bracket `[-a, a]` is doubled from one until the function changes its sign. The iteration starts
from the ends of the bracket, from plus and minus one, from zero and from the negation of every
root found. Each new root is searched on the function with the known roots divided out, so that
the iteration cannot fall back into one of them. The search ends with as many roots as the degree,
or when no start gives a new one.
-/

namespace Reckon

namespace Roots

/-- The function and its derivative. -/
structure Search where
  function : Function
  derivative : Function

/-- The value of a function at a number. -/
def valueAt (f : Function) (x : Decimal) : Calc Decimal :=
  sample (callFunction depthLimit) ambientDigits f x

/-- A step of the bracket search that failed is skipped. -/
def skipsBracket : Fault → Bool
  | .division _ | .domain _ | .range _ => true
  | _ => false

/-- A step of the iteration that failed ends it. -/
def endsIteration : Fault → Bool
  | .division _ | .domain _ | .range _ | .floatDivision | .signal .divisionByZero => true
  | _ => false

/-- The arithmetic of signs, doublings and comparisons. -/
abbrev ambient : Precision := Monomial.ambient

/-- Doubles `a` until the function is zero at an end of `[-a, a]` or changes its sign in it. -/
def bracketFrom (f : Function) : (fuel : Nat) → (a : Decimal) → Calc (Option (Decimal × Decimal))
  | 0, _ => return none
  | fuel + 1, a => do
    let ends ← Calc.attempt skipsBracket do
      let low ← valueAt f (← Calc.decimal (ambient.neg a))
      let high ← valueAt f a
      return (low, high)
    let found ← match ends with
      | none => pure false
      | some (low, high) =>
        if low.isZero || high.isZero then pure true
        else pure ((← Calc.decimal (low.less 0)) != (← Calc.decimal (high.less 0)))
    if found then return some (← Calc.decimal (ambient.neg a), a)
    else bracketFrom f fuel (← Calc.decimal (ambient.mul a 2))

/-- A number beyond this is no root. -/
def divergenceLimit : Decimal := .finite false 1 30

/-- The slope of the function with the known roots divided out: `y' - y · Σ 1 / (x - r)`. -/
def deflatedSlope (p : Precision) (known : List Decimal) (x y slope : Decimal) :
    Except Signal Decimal := do
  let total ← known.foldlM
    (fun total r => do p.add total (← p.div 1 (← p.sub x r))) (0 : Decimal)
  p.sub slope (← p.mul y total)

/-- The magnitude of a number is below a bound. -/
def smaller (x bound : Decimal) : Calc Bool :=
  Calc.decimal (do (← ambient.abs x).less bound)

/-- Newton's iteration from `x`. A point is a root if the function is zero there, or small with a
zero slope, or if the function was small and the step to the point short. -/
def newton (s : Search) (known : List Decimal) (shortStep : Decimal) :
    (fuel : Nat) → (x : Decimal) → Calc (Option Decimal)
  | 0, _ => return none
  | fuel + 1, x => do
    let sampled ← Calc.attempt endsIteration do
      let y ← valueAt s.function x
      if y.isZero then return (y, none)
      let slope ← valueAt s.derivative x
      let p := nativePrecision (← Calc.look (·.params.precision))
      return (y, some (← Calc.decimal (deflatedSlope p known x y slope)))
    match sampled with
    | none => return none
    | some (_, none) => return some x
    | some (y, some slope) =>
      let params ← Calc.look (·.params)
      let small := smaller y params.newtonTolerance
      if slope.isZero then
        if ← small then return some x else return none
      else
        let p := nativePrecision params.precision
        let step ← Calc.decimal (p.div y slope)
        let next ← Calc.decimal (p.sub x step)
        let settled ← if ← small then smaller step shortStep else pure false
        if settled then return some next
        else if ← Calc.decimal (do divergenceLimit.less (← ambient.abs next)) then return none
        else newton s known shortStep fuel next

/-- A root rounded to decimal places, a half going up, without trailing zeros. -/
def roundRoot (places : Int) (root : Decimal) : Except Signal Decimal := do
  let digits := max (ambientDigits : Int) (places + root.adjusted + 2)
  let rounded ← (Precision.halfUp digits.toNat).quantize root (-places)
  Decimal.ofText rounded.plain

/-- The iteration from each start in turn, each number once, up to a root that is new after
rounding. -/
def nextRoot (s : Search) (known seen : List Decimal) :
    (tried starts : List Decimal) → Calc (Option Decimal)
  | _, [] => return none
  | tried, start :: rest => do
    if tried.any (·.same start) then nextRoot s known seen tried rest
    else
      let params ← Calc.look (·.params)
      let shortStep ← Calc.decimal (ambient.powerOfTen (-(params.rootPlaces + 1)))
      match ← newton s known shortStep params.newtonSteps start with
      | none => nextRoot s known seen (start :: tried) rest
      | some root =>
        let rounded ← Calc.decimal (roundRoot params.rootPlaces root)
        if seen.any (·.same rounded) then nextRoot s known seen (start :: tried) rest
        else return some root

/-- Searches until `fuel` more roots are known: `known` are the roots as found, `roots` the
rounded ones. -/
def gather (s : Search) (starts : List Decimal) :
    (fuel : Nat) → (known roots : List Decimal) → Calc (List Decimal)
  | 0, _, roots => return roots
  | fuel + 1, known, roots => do
    let places ← Calc.look (·.params.rootPlaces)
    let opposites ← Calc.decimal (roots.mapM ambient.neg)
    let seen ← Calc.decimal (known.mapM (roundRoot places))
    match ← nextRoot s known seen [] (starts ++ opposites) with
    | none => return roots
    | some root =>
      let rounded ← Calc.decimal (roundRoot places root)
      gather s starts fuel (known ++ [root]) (roots ++ [rounded])

/-- Not above, as numbers. -/
def notAbove (a b : Decimal) : Bool :=
  a.order? b != some .gt

/-- The roots of an expression in a variable, in increasing order. -/
def find (e : Expr) (name : String) : Calc (List Decimal) := do
  let inlined ← e.inline
  let body ← (← Calc.look (·.replaceConstants inlined)).simplify
  if !body.mentions name then Calc.fail (.domain (.independent e.text name))
  let others := (← Calc.look (·.freeNames body)).filter (· != name)
  if !others.isEmpty then Calc.fail (.domain (.otherVariables e.text name others))
  let degree ← Calc.lift body.degree
  let slope ← (← body.derivative name).simplify
  let roots ← Calc.withScope do
    let function ← synthesize [name] body
    let derivative ← synthesize [name] slope
    let doublings ← Calc.look (·.params.bracketDoublings)
    let ends := match ← bracketFrom function doublings 1 with
      | some (low, high) => [low, high]
      | none => []
    gather ⟨function, derivative⟩ (ends ++ [1, .ofInt (-1), 0]) degree.toNat [] []
  if roots.isEmpty then Calc.fail (.convergence (.noRoots e.text))
  return roots.mergeSort notAbove

end Roots

end Reckon
