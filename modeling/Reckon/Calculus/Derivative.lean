import Reckon.Calculus.Inline

/-!
# Derivatives

The derivative of a tree with respect to a variable, by the rules for sums, products, quotients
and powers and the formulas of the native functions. Factors that do not vary are pulled out.
-/

namespace Reckon

namespace Expr

/-- The derivative of `base ^ exponent`; `dBase` is that of the base and is used only if the base
varies, `dExponent` likewise. -/
def derivePower (base exponent : Expr) (dBase dExponent : Calc Expr)
    (baseVaries exponentVaries : Bool) : Calc Expr := do
  let dBase ← if baseVaries then dBase else pure (.number 0)
  if !exponentVaries then
    match ← exponent.value? with
    | some n =>
      let reduced ← Calc.decimal (Monomial.ambient.sub n 1)
      let power ←
        if reduced.isZero then pure (.number 1)
        else buildPower base <$> Calc.decimal (Monomial.literal reduced)
      let factor ← Calc.decimal (Monomial.literal n)
      return buildProduct (buildProduct factor power) dBase
    | none =>
      let reduced := Expr.binary .minus false exponent (.number 1)
      return buildProduct (buildProduct exponent (buildPower base reduced)) dBase
  else
    let dExponent ← dExponent
    let power := buildPower base exponent
    let log ← buildLog base
    if !baseVaries then return buildProduct (buildProduct power log) dExponent
    else
      return buildProduct power
        (buildSum (buildProduct dExponent log)
          (buildProduct exponent (buildQuotient dBase base)))

/-- The derivative of `left op right` from those of its operands. -/
def deriveBinary (wrt : String) (op : Operator) (left right : Expr)
    (dLeft dRight : Calc Expr) : Calc Expr := do
  if op = .plus then return buildSum (← dLeft) (← dRight)
  else if op = .minus then return buildDifference (← dLeft) (← dRight)
  else if op.isComparison then Calc.fail (.calculus (.differentiateComparison op.symbol))
  else
    let leftVaries := left.mentions wrt
    let rightVaries := right.mentions wrt
    if !leftVaries && !rightVaries then return .number 0
    else match op with
      | .times =>
        if !leftVaries then return buildProduct left (← dRight)
        else if !rightVaries then return buildProduct (← dLeft) right
        else
          let first := buildProduct (← dLeft) right
          return buildSum first (buildProduct left (← dRight))
      | .divide =>
        if !rightVaries then return buildQuotient (← dLeft) right
        else
          let first := buildProduct (← dLeft) right
          let numerator := buildDifference first (buildProduct left (← dRight))
          return buildQuotient numerator (buildPower right (.number 2))
      | _ => derivePower left right dLeft dRight leftVaries rightVaries

/-- The derivative of a call of a native function whose first argument has the derivative
`dArg`. -/
def deriveCall (wrt : String) (name : String) (args : List Expr) (dArg : Calc Expr) :
    Calc Expr := do
  match ← Calc.look (·.native? name) with
  | none => Calc.fail (.unknown (.function name))
  | some n =>
    Calc.lift (checkArity n.signature n.params.length args.length)
    if !(Expr.call name args).mentions wrt then return .number 0
    else match n.derivative, args with
      | some formula, arg :: _ =>
        let outer ← ofFormula formula arg
        return buildProduct outer (← dArg)
      | _, _ => Calc.fail (.calculus (.differentiateFunction name))

mutual

/-- The derivative of a tree; calls of functions are left to `onCall`. -/
def deriveWith (onCall : Expr → Calc Expr) (wrt : String) : Expr → Calc Expr
  | .literal .. => return .number 0
  | .empty => return .number 0
  | .var name => return .number (if name == wrt then 1 else 0)
  | .unary sign e => do
    let d ← e.deriveWith onCall wrt
    match sign with
    | .negative => return buildNegation d
    | .positive => return d
  | .binary op _ l r => deriveBinary wrt op l r (l.deriveWith onCall wrt) (r.deriveWith onCall wrt)
  | .call name args => do
    if (← Calc.look (·.lookupFunction name)).isSome then onCall (.call name args)
    else deriveCall wrt name args (deriveFirst onCall wrt args)
  | e => Calc.fail (.kind (.differentiate e.kind))

/-- The derivative of the first of several trees. -/
def deriveFirst (onCall : Expr → Calc Expr) (wrt : String) : List Expr → Calc Expr
  | [] => return .number 0
  | e :: _ => e.deriveWith onCall wrt

end

/-- The derivative of a tree without calls of functions. -/
def deriveInlined (wrt : String) (e : Expr) : Calc Expr :=
  e.deriveWith (fun _ => Calc.fail (.depth .inlining)) wrt

/-- The derivative of a tree with respect to a variable. -/
def derivative (wrt : String) (e : Expr) : Calc Expr :=
  e.deriveWith (fun e => do deriveInlined wrt (← e.inline)) wrt

end Expr

end Reckon
