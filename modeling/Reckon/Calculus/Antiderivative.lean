import Reckon.Calculus.Derivative

/-!
# Antiderivatives

Sums are integrated term by term, factors that do not vary are pulled out, and powers of the
variable follow the power rule. A product of two factors that both vary is refused.
-/

namespace Reckon

namespace Expr

/-- The antiderivatives of native functions, as formulas in `x`. -/
def integrals : List (String × String) :=
  [("sin", "-cos(x)"), ("cos", "sin(x)"), ("sinh", "cosh(x)"), ("cosh", "sinh(x)")]

/-- The tree is this variable. -/
def isVar (name : String) : Expr → Bool
  | .var n => n == name
  | _ => false

/-- The tree is a variable. -/
def isAnyVar : Expr → Bool
  | .var _ => true
  | _ => false

/-- The antiderivative of the power `base ^ exponent`, whose text is `text`. -/
def integratePower (wrt : String) (base exponent : Expr) (text : String) : Calc Expr := do
  let x := Expr.var wrt
  if base.isVar wrt && !exponent.mentions wrt then
    match ← exponent.value? with
    | some n =>
      if n.same (.ofInt (-1)) then return buildLogMagnitude x
      else
        let raised ← Calc.decimal (Monomial.ambient.add n 1)
        let literal ← Calc.decimal (Monomial.literal raised)
        return buildQuotient (buildPower x literal) literal
    | none =>
      let raised := Expr.binary .plus false exponent (.number 1)
      return buildQuotient (buildPower x raised) raised
  else if !base.mentions wrt && exponent.isVar wrt then
    return buildQuotient (buildPower base x) (← buildLog base)
  else Calc.fail (.calculus (.integratePower text))

/-- The antiderivative of a tree with respect to a variable, without a constant. -/
def antiderivative (wrt : String) : Expr → Calc Expr
  | .var name =>
    if name == wrt then
      return buildQuotient (buildPower (.var wrt) (.number 2)) (.number 2)
    else return buildProduct (.var name) (.var wrt)
  | .unary sign e => do
    if !(Expr.unary sign e).mentions wrt then return buildProduct (.unary sign e) (.var wrt)
    else
      let inner ← e.antiderivative wrt
      match sign with
      | .negative => return buildNegation inner
      | .positive => return inner
  | .binary op attached l r => do
    let whole := Expr.binary op attached l r
    if !whole.mentions wrt then return buildProduct whole (.var wrt)
    else match op with
      | .plus => return buildSum (← l.antiderivative wrt) (← r.antiderivative wrt)
      | .minus => return buildDifference (← l.antiderivative wrt) (← r.antiderivative wrt)
      | .times =>
        if !l.mentions wrt then return buildProduct l (← r.antiderivative wrt)
        else if !r.mentions wrt then return buildProduct (← l.antiderivative wrt) r
        else Calc.fail (.calculus (.integrateProduct whole.text))
      | .divide =>
        if !r.mentions wrt then return buildQuotient (← l.antiderivative wrt) r
        else if r.isAnyVar && !l.mentions wrt then
          return buildProduct l (buildLogMagnitude (.var wrt))
        else Calc.fail (.calculus (.integrateQuotient whole.text))
      | .power => integratePower wrt l r whole.text
      | _ => Calc.fail (.calculus (.integrate whole.text))
  | e => do
    if !e.mentions wrt then return buildProduct e (.var wrt)
    else match e with
      | .call name [arg] =>
        match integrals.lookup name with
        | some formula =>
          if arg.isVar wrt && (← Calc.look (·.isNative name)) then ofFormula formula (.var wrt)
          else Calc.fail (.calculus (.integrate e.text))
        | none => Calc.fail (.calculus (.integrate e.text))
      | e => Calc.fail (.calculus (.integrate e.text))

end Expr

end Reckon
