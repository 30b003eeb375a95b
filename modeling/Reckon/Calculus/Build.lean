import Reckon.Simplify

/-!
# Building trees

Sums, products, quotients and powers that leave out zeros and ones, so that a derivative does not
fill up with them.
-/

namespace Reckon

namespace Expr

/-- The tree is a literal of this value. -/
def isLiteral (n : Decimal) : Expr → Bool
  | .literal m _ => m.same n
  | _ => false

def buildSum (a b : Expr) : Expr :=
  if a.isLiteral 0 then b
  else if b.isLiteral 0 then a
  else .binary .plus false a b

/-- A minus sign is taken away where there is one. -/
def buildNegation (a : Expr) : Expr :=
  if a.isLiteral 0 then a
  else match a with
    | .unary .negative e => e
    | e => .unary .negative e

def buildDifference (a b : Expr) : Expr :=
  if b.isLiteral 0 then a
  else if a.isLiteral 0 then buildNegation b
  else .binary .minus false a b

def buildProduct (a b : Expr) : Expr :=
  if a.isLiteral 0 || b.isLiteral 0 then .number 0
  else if a.isLiteral 1 then b
  else if b.isLiteral 1 then a
  else .binary .times false a b

def buildQuotient (a b : Expr) : Expr :=
  if a.isLiteral 0 then a
  else if b.isLiteral 1 then a
  else .binary .divide false a b

def buildPower (a b : Expr) : Expr :=
  if b.isLiteral 1 then a else .binary .power false a b

/-- The logarithm; that of Euler's number is one. -/
def buildLog (a : Expr) : Calc Expr := do
  match a with
  | .var "e" =>
    if ← Calc.look (·.isConstant "e") then return .number 1 else return .call "ln" [a]
  | a => return .call "ln" [a]

/-- The logarithm of the magnitude. -/
def buildLogMagnitude (a : Expr) : Expr :=
  .call "ln" [.call "abs" [a]]

/-- A formula in `x` with a tree in place of `x`. -/
def ofFormula (formula : String) (x : Expr) : Calc Expr := do
  return (← Calc.tree formula ["x"]).substitute [("x", x)]

end Expr

end Reckon
