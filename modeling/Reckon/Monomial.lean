import Reckon.Evaluate

/-!
# Monomials

A monomial is a coefficient, variables with numeric exponents and a list of other factors, such
as calls or powers of sums, that are compared by their texts. Coefficients keep a thousand
digits; exponents and changed signs keep twenty-eight.
-/

namespace Reckon

structure Monomial where
  coefficient : Decimal := 1
  /-- Variables with their exponents, each variable once, in order of appearance. -/
  powers : List (String × Decimal) := []
  others : List Expr := []
deriving Inhabited

namespace Monomial

/-- The arithmetic of exponents and signs. -/
def ambient : Precision := .halfEven ambientDigits

/-- The arithmetic of coefficients. -/
def exact : Precision := .halfEven Decimal.exactDigits

/-- The monomial of a number. -/
def ofNumber (n : Decimal) : Monomial :=
  { coefficient := n }

/-- The power of a variable. -/
def ofPower (name : String) (exponent : Decimal) : Monomial :=
  { powers := [(name, exponent)] }

/-- Any other factor. -/
def ofFactor (e : Expr) : Monomial :=
  { others := [e] }

/-- What monomials that differ only in their coefficients have in common. -/
structure Key where
  powers : List (String × Decimal)
  others : List String

/-- Keys are equal if the exponents are equal as numbers. -/
def Key.same (k l : Key) : Bool :=
  k.powers.length == l.powers.length &&
    (k.powers.zip l.powers).all (fun ((m, a), (n, b)) => m == n && (a == b || a.same b)) &&
    k.others == l.others

/-- The powers that are not one and the texts of the other factors, both sorted. -/
def key (m : Monomial) : Key :=
  { powers := (m.powers.filter fun (_, n) => !n.isZero).mergeSort fun a b => a.1 ≤ b.1
    others := (m.others.map Expr.text).mergeSort fun a b => a ≤ b }

def isConstant (m : Monomial) : Bool :=
  m.key.powers.isEmpty && m.others.isEmpty

/-- Adds an exponent to that of a variable. -/
def addPower (name : String) (n : Decimal) :
    List (String × Decimal) → Except Signal (List (String × Decimal))
  | [] => return [(name, ← ambient.add 0 n)]
  | (m, old) :: rest =>
    if m == name then return (m, ← ambient.add old n) :: rest
    else return (m, old) :: (← addPower name n rest)

/-- The product of two monomials: the exponents of a variable are added. -/
def mul (a b : Monomial) : Except Signal Monomial := do
  let powers ← b.powers.foldlM (fun powers (name, n) => addPower name n powers) a.powers
  let coefficient ← exact.mul a.coefficient b.coefficient
  return { coefficient, powers, others := a.others ++ b.others }

def negate (m : Monomial) : Except Signal Monomial :=
  return { m with coefficient := ← ambient.neg m.coefficient }

/-- The monomial or its negation. -/
def withSign (m : Monomial) : Sign → Except Signal Monomial
  | .positive => .ok m
  | .negative => m.negate

/-- A number as a literal, under a minus sign if it is negative. -/
def literal (n : Decimal) : Except Signal Expr := do
  if ← n.less 0 then return .unary .negative (.number (← ambient.neg n)) else return .number n

/-- The trees of the powers of variables. -/
def powerFactors : List (String × Decimal) → Except Signal (List Expr)
  | [] => return []
  | (name, n) :: rest => do
    if n.isZero then powerFactors rest
    else if n.same 1 then return .var name :: (← powerFactors rest)
    else
      let factor := Expr.binary .power false (.var name) (← literal n)
      return factor :: (← powerFactors rest)

/-- The factors after a coefficient. -/
def product (magnitude : Decimal) : List Expr → Expr
  | [] => .number magnitude
  | factor :: factors =>
    let e := factors.foldl .juxtaposed factor
    if magnitude.same 1 then e else .juxtaposed (.number magnitude) e

/-- The tree of a monomial: the coefficient first, under a minus sign if it is negative. -/
def toExpr (m : Monomial) : Except Signal Expr := do
  let factors := (← powerFactors m.powers) ++ m.others
  let e := product (← ambient.abs m.coefficient) factors
  if ← m.coefficient.less 0 then return .unary .negative e else return e

/-! ## Sums -/

/-- Adds a monomial to the first one with the same key, or at the end. -/
def addTo (m : Monomial) : List Monomial → Except Signal (List Monomial)
  | [] => return [m]
  | first :: rest =>
    if first.key.same m.key then
      return { first with coefficient := ← exact.add first.coefficient m.coefficient } :: rest
    else return first :: (← addTo m rest)

/-- Like monomials added up, in order of first appearance; zeros are dropped and numbers come
last. -/
def collect (ms : List Monomial) : Except Signal (List Monomial) := do
  let terms ← ms.foldlM (fun terms m => addTo m terms) []
  let terms := terms.filter (!·.coefficient.isZero)
  return terms.filter (!·.isConstant) ++ terms.filter (·.isConstant)

/-- A chain of additions and subtractions; nothing is zero. -/
def sum : List Monomial → Except Signal Expr
  | [] => return .number 0
  | first :: rest => do
    rest.foldlM
      (fun e m => do
        if ← m.coefficient.less 0 then
          return .binary .minus false e (← (← m.negate).toExpr)
        else return .binary .plus false e (← m.toExpr))
      (← first.toExpr)

end Monomial

end Reckon
