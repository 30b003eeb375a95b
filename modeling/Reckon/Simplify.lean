import Reckon.Monomial

/-!
# Simplifying expressions

`Expr.expand` multiplies out products of sums, from the leaves up; `Expr.fold` adds like terms
of sums. Both leave what they do not understand as it is.
-/

namespace Reckon

namespace Expr

/-- Products of sums with more pairs of terms than this are left alone. -/
def expansionLimit : Nat := 256

/-- The terms of nested sums and differences with their signs; a minus sign changes the sign of
everything under it. -/
def terms (sign : Sign) : Expr → List (Sign × Expr)
  | .binary .plus _ l r => l.terms sign ++ r.terms sign
  | .binary .minus _ l r => l.terms sign ++ r.terms sign.opposite
  | .unary s e => e.terms (s.times sign)
  | e => [(sign, e)]

/-- The tree has no part that `value?` does not evaluate. -/
def isArithmetic : Expr → Bool
  | .unary _ e => e.isArithmetic
  | .binary _ _ l r => l.isArithmetic && r.isArithmetic
  | .call .. | .definition .. | .vector _ | .matrix _ => false
  | .literal .. | .var _ | .empty => true

/-- The value of a tree that is a number without calling a function. -/
def value? (e : Expr) : Calc (Option Decimal) := do
  if !e.isArithmetic then return none
  else if !(← Calc.look fun ctx => e.names.all ctx.isBound) then return none
  else return (← e.eval).value?

/-- A tree as a monomial. -/
def monomial : Expr → Calc Monomial
  | .var name => do
    match ← (Expr.var name).value? with
    | some n => return .ofNumber n
    | none => return .ofPower name 1
  | .unary sign e => do
    match ← (Expr.unary sign e).value? with
    | some n => return .ofNumber n
    | none => Calc.decimal ((← e.monomial).withSign sign)
  | .binary op attached l r => do
    let whole := Expr.binary op attached l r
    match ← whole.value? with
    | some n => return .ofNumber n
    | none =>
      match op, l with
      | .times, l =>
        let a ← l.monomial
        let b ← r.monomial
        Calc.decimal (a.mul b)
      | .power, .var name =>
        if ← Calc.look (·.isBound name) then return .ofFactor whole
        else match ← r.value? with
          | some n => return .ofPower name n
          | none => return .ofFactor whole
      | _, _ => return .ofFactor whole
  | e => do
    match ← e.value? with
    | some n => return .ofNumber n
    | none => return .ofFactor e

/-- The products of one monomial with each of several terms. -/
def productsWith (sign : Sign) (m : Monomial) : List (Sign × Expr) → Calc (List Monomial)
  | [] => return []
  | (s, e) :: rest => do
    let product ← Calc.decimal (m.mul (← e.monomial))
    let product ← Calc.decimal (product.withSign (s.times sign))
    return product :: (← productsWith sign m rest)

/-- The products of every term on the left with every term on the right. -/
def products (right : List (Sign × Expr)) : List (Sign × Expr) → Calc (List Monomial)
  | [] => return []
  | (sign, e) :: rest => do
    let first ← productsWith sign (← e.monomial) right
    return first ++ (← products right rest)

/-- The sum of like monomials as a tree. -/
def ofMonomials (ms : List Monomial) : Calc Expr :=
  Calc.decimal (do Monomial.sum (← Monomial.collect ms))

/-- The product of two trees, multiplied out. -/
def expandProduct (attached : Bool) (l r : Expr) : Calc Expr := do
  let left := l.terms .positive
  let right := r.terms .positive
  if expansionLimit < left.length * right.length then return .binary .times attached l r
  else ofMonomials (← products right left)

mutual

/-- The tree with its products multiplied out: `(x+1)(x-1)` gives `x^2-1`. Long chains of
operators are deep trees, for which an interpreter runs out of frames; that is left out here. -/
def expand : Expr → Calc Expr
  | .binary .times attached l r => do
    let l ← l.expand
    let r ← r.expand
    expandProduct attached l r
  | .binary op attached l r => return .binary op attached (← l.expand) (← r.expand)
  | .unary sign e => return .unary sign (← e.expand)
  | .call name args => return .call name (← expandAll args)
  | .definition name params body source => return .definition name params (← body.expand) source
  | e => return e

/-- `expand` on several trees. -/
def expandAll : List Expr → Calc (List Expr)
  | [] => return []
  | e :: es => return (← e.expand) :: (← expandAll es)

end

/-- A term of a sum as a list of one monomial. -/
def signedTerm (sign : Sign) (e : Expr) : Calc (List Monomial) := do
  return [← Calc.decimal ((← e.monomial).withSign sign)]

mutual

/-- The tree with the like terms of its sums added up: `x+2x` gives `3x`. As in `expand`, a tree
of any depth is taken. -/
def fold : Expr → Calc Expr
  | .binary .plus _ l r => do
    ofMonomials ((← l.foldTerms .positive) ++ (← r.foldTerms .positive))
  | .binary .minus _ l r => do
    ofMonomials ((← l.foldTerms .positive) ++ (← r.foldTerms .negative))
  | .unary sign e => do ofMonomials (← e.foldTerms sign)
  | .binary op attached l r => return .binary op attached (← l.fold) (← r.fold)
  | .call name args => return .call name (← foldAll args)
  | .definition name params body source => return .definition name params (← body.fold) source
  | e => return e

/-- The monomials of the folded terms of a sum. -/
def foldTerms (sign : Sign) : Expr → Calc (List Monomial)
  | .binary .plus _ l r => return (← l.foldTerms sign) ++ (← r.foldTerms sign)
  | .binary .minus _ l r => return (← l.foldTerms sign) ++ (← r.foldTerms sign.opposite)
  | .unary s e => e.foldTerms (s.times sign)
  | .binary op attached l r => do
    let e := Expr.binary op attached (← l.fold) (← r.fold)
    signedTerm sign e
  | .call name args => do signedTerm sign (.call name (← foldAll args))
  | .definition name params body source => do
    signedTerm sign (.definition name params (← body.fold) source)
  | e => signedTerm sign e

/-- `fold` on several trees. -/
def foldAll : List Expr → Calc (List Expr)
  | [] => return []
  | e :: es => return (← e.fold) :: (← foldAll es)

end

/-- The tree multiplied out and added up. -/
def simplify (e : Expr) : Calc Expr := do
  (← e.expand).fold

end Expr

end Reckon
