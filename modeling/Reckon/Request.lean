import Reckon.Calculus.Antiderivative
import Reckon.Calculus.Roots
import Reckon.Linear.Solve

/-!
# Requests

What can be asked of a context. A request runs on a copy of the settings, so that a long literal
raises the precision for this request only; the derivation of `differentiate` and `integrate` is
done before the copy is made.
-/

namespace Reckon

/-! ## Values -/

/-- The value of a variable for one request. -/
inductive Supplied where
  | term (t : Term)
  /-- An expression, evaluated where the earlier variables have their values. -/
  | expression (source : String)

/-- A value as an answer: a number near zero is zero, any other number is rounded to the
precision, and a text loses its outer parentheses. -/
def Term.settle (t : Term) : Calc Term := do
  match t with
  | .numeric n =>
    let params ← Calc.look (·.params)
    let small ← Calc.decimal (do (← Monomial.ambient.abs n).less params.zeroEpsilon)
    if small then return .numeric 0 else Calc.lift (t.rounded params.precision)
  | .symbolic .. => return t.removeParens

/-- The tree that is evaluated in place of a tree: with the values of constants and simplified,
as the settings say. -/
def Expr.prepare (e : Expr) : Calc Expr := do
  let params ← Calc.look (·.params)
  let e ← if params.inlineConstants then Calc.look (·.replaceConstants e) else pure e
  match e with
  | .definition .. => return e
  | e => if params.simplify then e.simplify else return e

/-- The answer to a tree, on the settings as they are. -/
def Expr.answer : Expr → Calc Term
  | .empty => return .numeric 0
  | e => do (← (← e.prepare).eval).settle

/-- Evaluates a tree. -/
def evaluateTree (e : Expr) : Calc Term :=
  Calc.withParams e.answer

/-- Evaluates an expression. -/
def evaluate (source : String) : Calc Term :=
  Calc.withParams do (← Calc.tree source []).answer

/-- Gives variables their values in the current scope, one after the other. -/
def bindAll : List (String × Supplied) → Calc Unit
  | [] => return ()
  | (name, value) :: rest => do
    let t ← match value with
      | .term t => pure t
      | .expression source => evaluate source
    Calc.update (·.bind name t)
    bindAll rest

/-- Evaluates an expression in a scope of its own where variables have values. -/
def evaluateWith (bindings : List (String × Supplied)) (source : String) : Calc Term :=
  if bindings.isEmpty then evaluate source
  else Calc.withScope do
    bindAll bindings
    evaluate source

/-- Evaluates an expression and then the text of its value. -/
def evaluateTwice (source : String) : Calc (Term × Term) := do
  let first ← evaluate source
  return (first, ← evaluate (← Calc.lift (first.render none)))

/-! ## Trees -/

/-- The simplified tree of an expression. -/
def simplify (source : String) : Calc Expr := do
  let e ← Calc.tree source []
  Calc.withParams e.simplify

/-- The derivative of an expression, evaluated. -/
def differentiate (source wrt : String) : Calc Term := do
  let e ← (← Calc.tree source []).inline
  evaluateTree (← e.derivative wrt)

/-- An antiderivative of an expression, evaluated. -/
def integrate (source wrt : String) : Calc Term := do
  let e ← (← Calc.tree source []).inline
  evaluateTree (← e.antiderivative wrt)

/-- The names to solve for: those given, or the free ones of the tree. -/
def unknowns (e : Expr) (given : List String) : Calc (List String) := do
  if given.isEmpty then
    let inlined ← e.inline
    Calc.look fun ctx => ctx.freeNames (ctx.replaceConstants inlined)
  else return given

/-- The real roots of an expression in one variable, in increasing order. -/
def findRoots (source : String) (given : List String) : Calc (List Decimal) := do
  let e ← Calc.tree source []
  match ← unknowns e given with
  | [name] => Calc.withParams (Roots.find e name)
  | names => Calc.fail (.domain (.oneVariable names))

/-! ## Definitions -/

/-- Adds a function from a text such as `f(x, y) = x^2 + y`. -/
def defineFunction (source : String) : Calc Function := do
  match ← Calc.tree source [] with
  | .definition name params body text =>
    let f : Function := { name, params, body, source := text }
    Calc.define f
    return f
  | _ =>
    Calc.fail (.badSyntax ⟨.definitionExpected, 0, max 1 source.length⟩ source)

/-- Takes a function away. -/
def removeFunction (name : String) : Calc Function := fun ctx =>
  match ctx.remove name with
  | .ok (f, ctx') => (.ok f, ctx')
  | .error fault => (.error fault, ctx)

/-- A scope on top of the others. -/
def pushScope : Calc Unit :=
  Calc.update Context.push

/-- Drops the current scope. -/
def popScope : Calc Unit := fun ctx =>
  match ctx.pop with
  | .ok ctx' => (.ok (), ctx')
  | .error fault => (.error fault, ctx)

/-- Several generated names. -/
def freshNames : (count : Nat) → Calc (List String)
  | 0 => return []
  | n + 1 => return (← Calc.freshName) :: (← freshNames n)

/-! ## Looking up -/

/-- The native function of a name. -/
def findNative (name : String) : Calc Native := do
  match ← Calc.look (·.native? name) with
  | some n => return n
  | none => Calc.fail (.unknown (.native name))

/-- The constant of a name. -/
def findConstant (name : String) : Calc Constant := do
  match ← Calc.look (·.constant? name) with
  | some c => return c
  | none => Calc.fail (.unknown (.constant name))

/-- The listing of a function or else of a constant. -/
def describe (name : String) : Calc String := do
  match ← Calc.look (·.lookupFunction name) with
  | some f => return f.summary
  | none => return (← findConstant name).summary

/-! ## Settings -/

/-- Changes the settings. -/
def setParams (f : Params → Params) : Calc Unit :=
  Calc.update fun ctx => { ctx with params := f ctx.params }

/-- The integer that a text denotes: outer blanks, a sign, and underscores between digits. -/
def readInteger (s : String) : Except Fault Int :=
  let cs := (Text.trimBlanks s.toList).map Decimal.asciiDigit
  let integer? :=
    if Binary64.underscoresBetweenDigits cs then Decimal.readExponent? (cs.filter (· != '_'))
    else none
  match integer? with
  | some n => .ok n
  | none => .error (.domain (.integerText s))

/-- Sets the significant digits of results. -/
def setPrecision (digits : Int) : Calc Unit :=
  if digits < 1 then Calc.fail (.domain (.precisionTooSmall digits))
  else setParams fun p => { p with precision := digits.toNat }

/-- Sets the significant digits of results to what a text denotes. -/
def setPrecisionText (s : String) : Calc Unit := do
  setPrecision (← Calc.lift (readInteger s))

/-- Sets the unit of angles by its name. -/
def setAngleUnit (name : String) : Calc Unit :=
  match AngleUnit.ofName? name with
  | some u => setParams fun p => { p with angleUnit := u }
  | none => Calc.fail (.domain (.angleUnit name))

/-! ## Matrices -/

/-- The number that an entry of a matrix evaluates to. -/
def matrixEntry (e : Expr) : Calc Float := do
  match ← evaluateTree e with
  | .numeric n => return Binary64.ofDecimal n
  | t => Calc.fail (.domain (.entryNotNumber t.text))

/-- The rows of a matrix literal; a vector is a matrix of one row. -/
def Expr.matrixRows? : Expr → Option (List (List Expr))
  | .vector es => some [es]
  | .matrix rows => some (rows.map Expr.elements)
  | _ => none

/-- The matrix of a literal such as `[1 2][3 4]`, whose entries are evaluated. -/
def readMatrix (source : String) : Calc Linear.Matrix64 := do
  match (← Calc.tree source []).matrixRows? with
  | some rows => return Grid.ofRows (← rows.mapM (·.mapM matrixEntry))
  | none => Calc.fail (.domain (.notMatrix source))

end Reckon
