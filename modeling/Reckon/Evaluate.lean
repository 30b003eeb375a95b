import Reckon.Context
import Reckon.Native.Apply

/-!
# Evaluating expressions

`Expr.evalWith` follows the tree; a call of a function is left to a caller that is given to it,
and `callFunction` ties the knot, with a bound on how deeply calls are nested.

A literal longer than the precision raises it. A changed sign is rounded to the `digits` of the
surrounding arithmetic: twenty-eight, or the working precision of a series while it is summed.
-/

namespace Reckon

/-- The digits that a changed sign is rounded to outside of a series. -/
def ambientDigits : Nat := 28

/-- How a function is called: the digits of the surrounding arithmetic, its name and its
arguments. -/
abbrev Caller := (digits : Nat) → String → List Term → Calc Term

/-- Raises the precision to the length of a written literal. -/
def raisePrecision (n : Decimal) : Calc Unit :=
  Calc.update fun ctx =>
    if ctx.params.precision < n.significantDigits then
      { ctx with params := { ctx.params with precision := n.significantDigits } }
    else ctx

/-! ## Series -/

/-- Adds a function with a generated name to the current scope. -/
def synthesize (params : List String) (body : Expr) : Calc Function := do
  let f : Function := { name := ← Calc.freshName, params, body, source := none }
  Calc.define f
  return f

/-- The value of a function of one number, which has to be a number. -/
def sample (call : Caller) (digits : Nat) (f : Function) (x : Decimal) : Calc Decimal := do
  match ← call digits f.name [.numeric x] with
  | .numeric y => return y
  | .symbolic .. => Calc.fail (.domain (.freeSample f.body.text))

/-- Adds the terms from the `n`-th on until two partial sums differ by less than `epsilon`; none
if that does not happen within the given number of terms. -/
def sumFrom (term : Decimal → Calc Decimal) (p : Precision) (epsilon : Decimal) :
    (fuel n : Nat) → (total : Decimal) → Calc (Option Decimal)
  | 0, _, _ => return none
  | fuel + 1, n, total => do
    let next ← Calc.decimal (p.add total (← term (.ofInt n)))
    if 1 ≤ n then
      let change ← Calc.decimal (do p.abs (← p.sub next total))
      if ← Calc.decimal (change.less epsilon) then return some next
    sumFrom term p epsilon fuel (n + 1) next

/-- The sum of an expression over its only free variable, at zero, one, two and so on. -/
def seriesSum (call : Caller) (e : Expr) : Calc Term := do
  let params ← Calc.look (·.params)
  let body ← Calc.look (·.replaceConstants e)
  let names ← Calc.look (·.freeNames body)
  if 1 < names.length then Calc.fail (.domain (.seriesVariables e.text names))
  let p := nativePrecision params.precision
  let result ← Calc.withScope do
    let f ← synthesize [names.head?.getD "n"] body
    sumFrom (sample call p.digits f) p params.zeroEpsilon params.maxTerms.toNat 0 0
  match result with
  | some total => return .numeric total
  | none => Calc.fail (.convergence (.series e.text params.maxTerms))

/-- The value of a native function that takes expressions. -/
def applyToExpressions (call : Caller) (n : Native) (args : List Expr) : Calc Term := do
  Calc.lift (checkArity n.signature n.params.length args.length)
  match args with
  | [e] => seriesSum call e
  | _ => Calc.fail (.kind (.arguments n.rule.arity args.length))

/-- The value of a native function that takes values. -/
def applyToValues (n : Native) (inputs : List Term) : Calc Term := do
  let params ← Calc.look (·.params)
  Calc.lift (n.apply params.precision params.angleUnit inputs)

/-! ## Trees -/

mutual

/-- The value of an expression. -/
def Expr.evalWith (call : Caller) (digits : Nat) : Expr → Calc Term
  | .literal n written => do
    if written then raisePrecision n
    return .numeric n
  | .var name => do
    return (← Calc.look (·.lookupVariable name)).getD (.ofName name)
  | .unary sign e => do
    let t ← e.evalWith call digits
    match sign with
    | .negative => Calc.lift (t.negate digits)
    | .positive => return t
  | .binary op _ l r => do
    let a ← l.evalWith call digits
    let b ← r.evalWith call digits
    let precision ← Calc.look (·.params.precision)
    Calc.lift (Term.combine digits op (some precision) a b)
  | .call name args => do
    if (← Calc.look (·.lookupFunction name)).isSome then
      call digits name (← evalAllWith call digits args)
    else match ← Calc.look (·.native? name) with
      | some n =>
        if n.takesExpressions then applyToExpressions call n args
        else applyToValues n (← evalAllWith call digits args)
      | none => Calc.fail (.unknown (.function name))
  | .definition name params body source => do
    Calc.define { name, params, body, source }
    return .ofName (signatureText name params)
  | .vector _ => Calc.fail (.kind .vectorTerm)
  | .matrix _ => Calc.fail (.kind .matrixTerm)
  | .empty => return .numeric 0

/-- The values of several expressions, from left to right. -/
def Expr.evalAllWith (call : Caller) (digits : Nat) : List Expr → Calc (List Term)
  | [] => return []
  | e :: es => do
    let t ← e.evalWith call digits
    let ts ← evalAllWith call digits es
    return t :: ts

end

/-- The value of a function on terms: its body in a new scope that holds the arguments. Calls
nested deeper than `fuel` are refused. -/
def callFunction : (fuel : Nat) → Caller
  | 0, _, _, _ => Calc.fail (.depth .evaluating)
  | fuel + 1, digits, name, inputs => do
    match ← Calc.look (·.lookupFunction name) with
    | none => Calc.fail (.unknown (.function name))
    | some f =>
      Calc.lift (checkArity f.signature f.params.length inputs.length)
      Calc.withScope do
        Calc.update fun ctx =>
          (f.params.zip inputs).foldl (fun ctx (name, t) => ctx.bind name t) ctx
        f.body.evalWith (callFunction fuel) digits

/-- How deeply calls may be nested. It stands for what the interpreter has frames for, which the
program does not set: only that there is a limit is known of it. -/
def depthLimit : Nat := 300

/-- The value of an expression. -/
def Expr.eval (e : Expr) : Calc Term :=
  e.evalWith (callFunction depthLimit) ambientDigits

/-- The value of a function on terms. -/
def call (name : String) (inputs : List Term) : Calc Term :=
  callFunction depthLimit ambientDigits name inputs

/-- What a native function that takes expressions makes of terms: they are no trees. -/
def refuseTerms (n : Native) (inputs : List Term) : Calc Term := do
  Calc.lift (checkArity n.signature n.params.length inputs.length)
  match inputs with
  | [t] => Calc.fail (.kind (.substitution t.kind))
  | _ => Calc.fail (.kind (.arguments n.rule.arity inputs.length))

/-- What a native function that takes values makes of expressions: the first is asked whether it
is a number. -/
def refuseExpressions (n : Native) (args : List Expr) : Calc Term := do
  Calc.lift (checkArity n.signature n.params.length args.length)
  match args with
  | e :: _ => Calc.fail (.noOperation e.nodeKind "is_numeric")
  | [] => Calc.fail (.kind (.arguments n.rule.arity 0))

/-- The value of a native function on terms. -/
def callNative (name : String) (inputs : List Term) : Calc Term := do
  match ← Calc.look (·.native? name) with
  | some n => if n.takesExpressions then refuseTerms n inputs else applyToValues n inputs
  | none => Calc.fail (.unknown (.native name))

/-- The value of a native function on expressions. -/
def callNativeOn (name : String) (args : List Expr) : Calc Term := do
  match ← Calc.look (·.native? name) with
  | some n =>
    if n.takesExpressions then applyToExpressions (callFunction depthLimit) n args
    else refuseExpressions n args
  | none => Calc.fail (.unknown (.native name))

end Reckon
