import Reckon.Fault
import Reckon.Text.Blank

/-!
# Built-in functions

A native function is a rule with a name, parameter names and a help text. Several names may have
the same rule.
-/

namespace Reckon

/-- The unit of angles. -/
inductive AngleUnit where
  | radians
  | degrees
deriving DecidableEq, Repr

namespace AngleUnit

def name : AngleUnit → String
  | radians => "radians"
  | degrees => "degrees"

/-- The unit that a name stands for: its first three letters decide. -/
def ofName? (s : String) : Option AngleUnit :=
  let key := ((Text.trimBlanks s.toList).map Char.toLower).take 3
  if key == "rad".toList then some .radians
  else if key == "deg".toList then some .degrees
  else none

end AngleUnit

/-- A function on doubles. -/
inductive RealFunction where
  | sin | cos | tan | sinh | cosh | tanh | asin | acos | atan
deriving DecidableEq, Repr

/-- How a native function computes its result. -/
inductive Rule where
  /-- The function of the argument. -/
  | direct (f : RealFunction)
  /-- One over the function of the argument. -/
  | reciprocal (f : RealFunction)
  /-- The function of one over the argument. -/
  | inverseReciprocal (f : RealFunction)
  | arccotangent
  | squareRoot | cubeRoot | absolute | naturalLog | commonLog
  | factorial | permutations | combinations
  | remainder | quotient | commonFactor
  /-- The sum of an expression over its variable; the argument is not evaluated first. -/
  | series
deriving DecidableEq, Repr

/-- The number of arguments that a rule takes. -/
def Rule.arity : Rule → Nat
  | permutations | combinations | remainder | quotient | commonFactor => 2
  | _ => 1

structure Native where
  name : String
  params : List String
  rule : Rule
  help : String
  /-- The argument or, if `inverse`, the result is an angle. -/
  trigonometric : Bool := false
  inverse : Bool := false
  /-- The derivative as a formula in `x`, if there is one. -/
  derivative : Option String := none
deriving DecidableEq, Repr

namespace Native

def signature (n : Native) : String :=
  n.name ++ "(" ++ ", ".intercalate n.params ++ ")"

/-- The argument reaches the rule as an expression. -/
def takesExpressions (n : Native) : Bool :=
  n.rule == .series

/-- A function of an angle. -/
def angle (name : String) (rule : Rule) (derivative help : String) : Native :=
  { name, params := ["θ"], rule, help, trigonometric := true, derivative := some derivative }

/-- A hyperbolic function. -/
def hyperbolic (name : String) (f : RealFunction) (derivative help : String) : Native :=
  { name, params := ["x"], rule := .direct f, help, derivative := some derivative }

/-- A function with an angle as its result, under a short and a long name. -/
def arc (stem : String) (rule : Rule) (derivative help : String) : List Native :=
  ["a", "arc"].map fun start =>
    { name := start ++ stem, params := ["x"], rule, help, trigonometric := true, inverse := true,
      derivative := some derivative }

/-- A function without a derivative. -/
def plain (name : String) (params : List String) (rule : Rule) (help : String) : Native :=
  { name, params, rule, help }

/-- The native functions, in the order in which they are listed. -/
def all : List Native :=
  [ angle "sin" (.direct .sin) "cos(x)" "Sine of `θ`",
    angle "cos" (.direct .cos) "-sin(x)" "Cosine of `θ`",
    angle "tan" (.direct .tan) "sec(x)^2" "Tangent of `θ`",
    angle "cot" (.reciprocal .tan) "-csc(x)^2" "Cotangent of `θ`",
    angle "sec" (.reciprocal .cos) "sec(x)*tan(x)" "Secant of `θ`",
    angle "csc" (.reciprocal .sin) "-csc(x)*cot(x)" "Cosecant of `θ`",
    hyperbolic "sinh" .sinh "cosh(x)" "Hyperbolic sine of `x`",
    hyperbolic "cosh" .cosh "sinh(x)" "Hyperbolic cosine of `x`",
    hyperbolic "tanh" .tanh "1/cosh(x)^2" "Hyperbolic tangent of `x`" ] ++
  arc "sin" (.direct .asin) "1/sqrt(1-x^2)" "Inverse sine of `x`" ++
  arc "cos" (.direct .acos) "-1/sqrt(1-x^2)" "Inverse cosine of `x`" ++
  arc "tan" (.direct .atan) "1/(x^2+1)" "Inverse tangent of `x`" ++
  arc "cot" .arccotangent "-1/(x^2+1)" "Inverse cotangent of `x`" ++
  arc "sec" (.inverseReciprocal .acos) "1/(abs(x)*sqrt(x^2-1))" "Inverse secant of `x`" ++
  arc "csc" (.inverseReciprocal .asin) "-1/(abs(x)*sqrt(x^2-1))" "Inverse cosecant of `x`" ++
  [ plain "sqrt" ["x"] .squareRoot "Square root of `x`",
    plain "cbrt" ["x"] .cubeRoot "Cube root of `x`",
    plain "abs" ["x"] .absolute "Absolute value of `x`",
    plain "ln" ["x"] .naturalLog "Natural logarithm of `x`",
    plain "log" ["x"] .commonLog "Base 10 logarithm of `x`",
    plain "fac" ["n"] .factorial
      "Factorial of `n`, the product n(n-1)(n-2)... of its positive terms",
    plain "perm" ["n", "k"] .permutations "Number of ordered selections of `k` items from `n`",
    plain "comb" ["n", "k"] .combinations "Number of unordered selections of `k` items from `n`",
    plain "mod" ["a", "b"] .remainder "Remainder of `a` divided by `b`, with the sign of `a`",
    plain "div" ["a", "b"] .quotient
      "Integer quotient of `a` divided by `b`, truncated toward zero",
    plain "gcf" ["a", "b"] .commonFactor "Greatest common factor of `a` and `b`",
    plain "sum" ["f"] .series
      "Sum of `f` over n = 0, 1, 2, ... until the terms become negligible" ]

/-- Once the arity is checked, every rule has the arguments that it takes. -/
theorem length_params_of_mem_all : ∀ n ∈ all, n.params.length = n.rule.arity := by decide

end Native

/-- A named number. -/
structure Constant where
  name : String
  value : Decimal
  help : String
deriving DecidableEq, Repr

namespace Constant

def pi : Constant :=
  { name := "pi"
    value := .finite false 314159265358979323846264338327950288419716939937510 (-50)
    help := "Ratio of a circle's circumference to its diameter" }

def e : Constant :=
  { name := "e"
    value := .finite false 271828182845904523536028747135266249775724709369995 (-50)
    help := "Euler's number" }

def all : List Constant := [pi, e]

def text (c : Constant) : String :=
  c.name ++ " = " ++ c.value.scientific

end Constant

/-- The number of arguments has to be that of the parameters. -/
def checkArity (signature : String) (expected given : Nat) : Except Fault Unit :=
  if given = expected then .ok () else .error (.arity signature expected given)

end Reckon
