import Reckon.Token
import Reckon.Text.Quoted

/-!
# Faults

Everything that can go wrong, by cause. `Fault.message` holds the wording and `Fault.label` the
name under which a fault is reported.
-/

namespace Reckon

/-- A division that has no result. -/
inductive DivisionCause where
  | byZero
  | zeroToNegativePower
  | undefinedAt (function point : String)
  | modByZero
  | divByZero
  | gcfByZero (a : String)
deriving DecidableEq, Repr

def DivisionCause.message : DivisionCause → String
  | byZero => "division by zero"
  | zeroToNegativePower => "zero raised to a negative power"
  | undefinedAt function point => function ++ " is undefined at " ++ point
  | modByZero => "mod by zero"
  | divByZero => "div by zero"
  | gcfByZero a => "gcf(" ++ a ++ ", 0) is undefined"

/-- An operand outside of the domain of an operation. -/
inductive DomainCause where
  | negativeBase (base exponent : String)
  | sqrtNegative (x : String)
  | logarithm (function x : String)
  | quotientTooLong (function a b : String)
  | undefinedAt (function points : String)
  | outsideDomain
  | nanToInteger
  | freeSample (body : String)
  | independent (text name : String)
  | otherVariables (text name : String) (others : List String)
  | seriesVariables (text : String) (names : List String)
  | oneVariable (names : List String)
  | precisionTooSmall (digits : Int)
  | precisionRange
  | angleUnit (name : String)
  | integerText (text : String)
  | floatText (text : String)
  | floatNanToInteger
  | notMatrix (text : String)
  | entryNotNumber (text : String)
  | raggedRows
  | raggedColumns
  | raggedArray (dimensions : List Nat)
  | identitySize
deriving DecidableEq, Repr

/-- Dimensions in parentheses; a single one is followed by a comma. -/
def dimensionsText : List Nat → String
  | [n] => "(" ++ toString n ++ ",)"
  | ns => "(" ++ ", ".intercalate (ns.map toString) ++ ")"

def DomainCause.message : DomainCause → String
  | negativeBase base exponent =>
    "negative base " ++ base ++ " raised to non-integer power " ++ exponent
  | sqrtNegative x => "sqrt of negative number " ++ x
  | logarithm function x => function ++ " is undefined for " ++ x
  | quotientTooLong function a b => function ++ "(" ++ a ++ ", " ++ b ++ ") is out of range"
  | undefinedAt function points => function ++ " is undefined at " ++ points
  | outsideDomain => "math domain error"
  | nanToInteger => "cannot convert NaN to integer"
  | freeSample body => "'" ++ body ++ "' does not evaluate to a number, it has free variables"
  | independent text name => "'" ++ text ++ "' does not depend on '" ++ name ++ "'"
  | otherVariables text name others =>
    "'" ++ text ++ "' has free variables other than '" ++ name ++ "': " ++
      ", ".intercalate others
  | seriesVariables text names =>
    "sum expects one free variable, '" ++ text ++ "' has " ++ ", ".intercalate names
  | oneVariable names =>
    "find_roots solves for exactly one variable, got " ++
      if names.isEmpty then "none" else ", ".intercalate names
  | precisionTooSmall digits => "precision must be at least 1 digit, got " ++ toString digits
  | precisionRange => "valid range for prec is [1, MAX_PREC]"
  | angleUnit name => "Unknown angle mode '" ++ name ++ "'"
  | integerText text => "invalid literal for int() with base 10: " ++ Text.quote text
  | floatText text => "could not convert string to float: " ++ Text.quote text
  | floatNanToInteger => "cannot convert float NaN to integer"
  | notMatrix text => "'" ++ text ++ "' is not a matrix literal"
  | entryNotNumber text => "Matrix entry '" ++ text ++ "' is not a number"
  | raggedRows => "matrix rows must all have the same length"
  | raggedColumns => "matrix columns must all have the same length"
  | raggedArray dimensions =>
    "setting an array element with a sequence. The requested array has an inhomogeneous shape " ++
      "after " ++ toString dimensions.length ++ " dimensions. The detected shape was " ++
      dimensionsText dimensions ++ " + inhomogeneous part."
  | identitySize => "n must be at least 1"

/-- A result too large to be computed or represented. -/
inductive RangeCause where
  | factorial (n : String)
  | outsideRange
  | infinityToInteger
  | floatInfinityToInteger
  | roundedTooLarge
deriving DecidableEq, Repr

def RangeCause.message : RangeCause → String
  | factorial n => "fac(" ++ n ++ ") is too large"
  | outsideRange => "math range error"
  | infinityToInteger => "cannot convert Infinity to integer"
  | floatInfinityToInteger => "cannot convert float infinity to integer"
  | roundedTooLarge => "rounded value too large to represent"

/-- A name that a function cannot take. -/
inductive NameClash where
  | native (name : String)
  | constant (name : String)
  | function (name : String)
deriving DecidableEq, Repr

def NameClash.message : NameClash → String
  | native name => "Cannot redefine native function '" ++ name ++ "'"
  | constant name => "Cannot redefine constant '" ++ name ++ "'"
  | function name => "Function '" ++ name ++ "' is already defined"

/-- A name that nothing has. -/
inductive UnknownName where
  | function (name : String)
  | native (name : String)
  | constant (name : String)
deriving DecidableEq, Repr

def UnknownName.message : UnknownName → String
  | function name => "Function '" ++ name ++ "' not found"
  | native name => "Native function '" ++ name ++ "' not found"
  | constant name => "Constant '" ++ name ++ "' not found"

/-- A search that did not end with a result. -/
inductive ConvergenceCause where
  | noRoots (text : String)
  | series (text : String) (terms : Int)
deriving DecidableEq, Repr

def ConvergenceCause.message : ConvergenceCause → String
  | noRoots text => "No roots found for '" ++ text ++ "'"
  | series text terms =>
    "sum(" ++ text ++ ") did not converge within " ++ toString terms ++ " terms"

/-- A shape of expression that the calculus does not cover. -/
inductive CalculusCause where
  | differentiateComparison (symbol : String)
  | differentiateFunction (name : String)
  | integrateProduct (text : String)
  | integrateQuotient (text : String)
  | integratePower (text : String)
  | integrate (text : String)
deriving DecidableEq, Repr

def CalculusCause.message : CalculusCause → String
  | differentiateComparison symbol => "Can't differentiate the comparison '" ++ symbol ++ "'"
  | differentiateFunction name => "Can't differentiate the function '" ++ name ++ "'"
  | integrateProduct text => "Can't integrate the product '" ++ text ++ "'"
  | integrateQuotient text => "Can't integrate the quotient '" ++ text ++ "'"
  | integratePower text => "Can't integrate the power '" ++ text ++ "'"
  | integrate text => "Can't integrate '" ++ text ++ "'"

/-- A value of a kind that an operation does not take. -/
inductive KindCause where
  | vectorTerm
  | matrixTerm
  | differentiate (kind : String)
  | substitution (kind : String)
  | arguments (expected given : Nat)
  | product (left right : String)
  | column (kind : String)
deriving DecidableEq, Repr

def KindCause.message : KindCause → String
  | vectorTerm => "Vector literals do not evaluate to a term, use parse_matrix instead"
  | matrixTerm => "Matrix literals do not evaluate to a term, use parse_matrix instead"
  | differentiate kind => "Can't differentiate a " ++ kind
  | substitution kind => "Can't substitute into '" ++ kind ++ "'"
  | arguments expected given =>
    "takes " ++ toString expected ++ " positional argument" ++ (if expected = 1 then "" else "s") ++
      " but " ++ toString given ++ (if given = 1 then " was given" else " were given")
  | product left right =>
    "unsupported operand type(s) for *: '" ++ left ++ "' and '" ++ right ++ "'"
  | column kind => "matrix column must be a list or vector, not '" ++ kind ++ "'"

/-- Shapes that an operation on matrices and vectors does not take. -/
inductive ShapeCause where
  | vectors
  | matrixProduct
  | matrixVectorProduct
  | determinant (rows columns : Nat)
  | inverse (rows columns : Nat)
  | polynomial (rows columns : Nat)
  | notTwoDimensional
deriving DecidableEq, Repr

/-- A shape as `2x3`. -/
def shapeText (rows columns : Nat) : String :=
  toString rows ++ "x" ++ toString columns

def ShapeCause.message : ShapeCause → String
  | vectors => "vectors must be the same dimension"
  | matrixProduct => "incompatible shapes for matrix multiplication"
  | matrixVectorProduct => "incompatible shapes for matrix-vector multiplication"
  | determinant r c => "determinant requires a square matrix, got " ++ shapeText r c
  | inverse r c => "only square matrices have an inverse, got " ++ shapeText r c
  | polynomial r c => "characteristic polynomial requires a square matrix, got " ++ shapeText r c
  | notTwoDimensional => "incompatible shape for matrix"

/-- A position outside of a sequence. -/
inductive IndexCause where
  | text
  | list
deriving DecidableEq, Repr

def IndexCause.message : IndexCause → String
  | text => "string index out of range"
  | list => "list index out of range"

/-- Calls that are nested too deeply. -/
inductive DepthCause where
  /-- The interpreter has no frames left, be it to evaluate or to read. -/
  | evaluating
  /-- The calls of functions in a tree that is inlined. -/
  | inlining
deriving DecidableEq, Repr

def DepthCause.message : DepthCause → String
  | evaluating => "maximum recursion depth exceeded"
  | inlining => "Function calls are nested too deeply to inline"

/-- The name of a signal of decimal arithmetic. -/
def Signal.condition : Signal → String
  | invalidOperation => "InvalidOperation"
  | conversion => "ConversionSyntax"
  | divisionImpossible => "DivisionImpossible"
  | divisionUndefined => "DivisionUndefined"
  | divisionByZero => "DivisionByZero"
  | overflow => "Overflow"

/-- The name under which a signal is reported. -/
def Signal.label : Signal → String
  | divisionByZero => "DivisionByZero"
  | overflow => "Overflow"
  | _ => "InvalidOperation"

/-- Why a request fails. -/
inductive Fault where
  | badSyntax (fault : SyntaxFault) (source : String)
  | signal (signal : Signal)
  | arity (signature : String) (expected given : Nat)
  | division (cause : DivisionCause)
  | domain (cause : DomainCause)
  | range (cause : RangeCause)
  | clash (cause : NameClash)
  | unknown (cause : UnknownName)
  | globalScope
  | convergence (cause : ConvergenceCause)
  | calculus (cause : CalculusCause)
  | kind (cause : KindCause)
  | shape (cause : ShapeCause)
  | singular
  | depth (cause : DepthCause)
  | floatDivision
  | position (cause : IndexCause)
  | noSymbol (symbol : String)
  | noOperation (owner operation : String)
deriving DecidableEq, Repr

namespace Fault

/-- The name under which a fault is reported. -/
def label : Fault → String
  | badSyntax fault _ => if fault.cause.isLexical then "LexicalError" else "ExpressionSyntaxError"
  | signal s => s.label
  | arity .. => "ArityError"
  | division _ => "DivisionError"
  | domain _ => "ValueError"
  | range _ => "OverflowError"
  | clash _ => "DefinitionError"
  | unknown _ => "UnknownIdentifierError"
  | globalScope => "ContextError"
  | convergence _ => "ConvergenceError"
  | calculus _ => "NotImplementedError"
  | kind _ => "TypeError"
  | shape _ => "LinAlgError"
  | singular => "SingularMatrixError"
  | depth _ => "RecursionError"
  | floatDivision => "ZeroDivisionError"
  | position _ => "IndexError"
  | noSymbol _ => "KeyError"
  | noOperation .. => "AttributeError"

/-- The wording of a fault. -/
def message : Fault → String
  | badSyntax fault source => fault.report source
  | signal s => "[<class 'decimal." ++ s.condition ++ "'>]"
  | arity signature expected given =>
    signature ++ " expected " ++ toString expected ++ " argument" ++
      (if expected = 1 then "" else "s") ++ ", got " ++ toString given
  | division cause => cause.message
  | domain cause => cause.message
  | range cause => cause.message
  | clash cause => cause.message
  | unknown cause => cause.message
  | globalScope => "Cannot pop global scope"
  | convergence cause => cause.message
  | calculus cause => cause.message
  | kind cause => cause.message
  | shape cause => cause.message
  | singular => "matrix is singular"
  | depth cause => cause.message
  | floatDivision => "float division by zero"
  | position cause => cause.message
  | noSymbol symbol => symbol
  | noOperation owner operation =>
    "'" ++ owner ++ "' object has no attribute '" ++ operation ++ "'"

end Fault

/-- A decimal operation as a step that can fail. -/
def liftSignal (result : Except Signal α) : Except Fault α :=
  match result with
  | .ok a => .ok a
  | .error s => .error (.signal s)

end Reckon
