import Reckon.Term.Arithmetic

/-!
# Combining terms

Two numbers are computed; otherwise the texts are joined by the operator, with parentheses around
an operand that binds more loosely. A product with a name in it is written with its coefficient
first and without a sign where that cannot be misread.
-/

namespace Reckon

namespace Term

/-- Which operand of an operator a term is. -/
inductive Side where
  | left
  | right
deriving DecidableEq, Repr

/-- The direction of grouping in which an operand of equal binding has to be wrapped. -/
def Side.wrapping : Side → Associativity
  | left => .rightToLeft
  | right => .leftToRight

/-- An operand with this text and binding needs parentheses next to the operator. -/
def needsParens (op : Operator) (side : Side) (text : String) (binding : Binding) : Bool :=
  if binding < op.binding then true
  else if binding = op.binding then op.associativity = side.wrapping
  else side = .right && text.startsWith "-"

/-- The text of a term as an operand. -/
def operandText (t : Term) (op : Operator) (precision : Option Nat) (side : Side) :
    Except Fault String := do
  let text ← t.render precision
  let binding ← liftSignal t.binding
  return if needsParens op side text binding && !isWrapped text.toList then "(" ++ text ++ ")"
    else text

/-- The operator applied to two terms. The precision is that of quotients and of the numbers in
texts. -/
def operation (op : Operator) (precision : Option Nat) (a b : Term) : Except Fault Term :=
  match a, b with
  | numeric m, numeric n =>
    let digits := match precision with
      | some (p + 1) => p + 1
      | _ => defaultPrecision
    return .numeric (← Arithmetic.apply op digits m n)
  | a, b => do
    let left ← a.operandText op precision .left
    let right ← b.operandText op precision .right
    return .symbolic (left ++ op.symbol ++ right) (some op.binding)

/-- Two factors can stand side by side: a digit or a parenthesis before a letter or a
parenthesis. -/
def adjoin (left right : Char) : Bool :=
  (Text.isDigit left || left == ')') && (Text.isLetter right || right == '(')

/-- The texts of two terms as a product. -/
def productText (precision : Option Nat) (a b : Term) : Except Fault Term := do
  let left ← a.operandText .times precision .left
  let right ← b.operandText .times precision .right
  match left.toList.getLast?, right.toList.head? with
  | some l, some r =>
    return .symbolic (if adjoin l r then left ++ right else left ++ "*" ++ right)
      (some Binding.multiplicative)
  | _, _ => throw (.position .text)

/-- The product of two terms as a text with the coefficient first; zero and one are left out.
`digits` is what a changed sign is rounded to. -/
def product (digits : Nat) (precision : Option Nat) (a b : Term) : Except Fault Term :=
  let (a, b) := if b.isNumeric && !a.isNumeric then (b, a) else (a, b)
  match a with
  | numeric n =>
    if n.isZero then .ok (.numeric 0)
    else if n.same 1 then .ok b
    else if n.same (.ofInt (-1)) then b.negate digits
    else productText precision a b
  | symbolic .. => productText precision a b

/-- A name stands in the term. A number that has no text is refused. -/
def hasName (t : Term) : Except Fault Bool := do
  let _ ← t.render none
  return t.nameChar?.isSome

/-- A name stands in one of two terms; the second is looked at if there is none in the first. -/
def eitherHasName (a b : Term) : Except Fault Bool := do
  if ← a.hasName then return true
  b.hasName

/-- The value of a binary expression from the values of its operands. -/
def combine (digits : Nat) (op : Operator) (precision : Option Nat) (a b : Term) :
    Except Fault Term :=
  if op = .times then do
    if ← eitherHasName a b then product digits precision a b else operation op precision a b
  else operation op precision a b

end Term

end Reckon
