import Reckon.Operator
import Reckon.Decimal.Text

/-!
# Expressions

The syntax tree of an expression. A product that is not written, as in `3x` or `2(x+1)`, is
attached; a literal that stands in a text is written, and only those raise the precision.
-/

namespace Reckon

inductive Expr where
  | literal (value : Decimal) (written : Bool)
  | var (name : String)
  | unary (sign : Sign) (operand : Expr)
  | binary (op : Operator) (attached : Bool) (left right : Expr)
  | call (name : String) (args : List Expr)
  /-- `name(params) = body`, with the text it was read from. -/
  | definition (name : String) (params : List String) (body : Expr) (source : Option String)
  | vector (elements : List Expr)
  /-- Every row is a vector. -/
  | matrix (rows : List Expr)
  /-- An expression without tokens, which stands for zero. -/
  | empty
deriving Inhabited

/-- A function with named parameters that a definition has introduced. -/
structure Function where
  name : String
  params : List String
  body : Expr
  source : Option String
deriving Inhabited

/-- A name with its parameters: `f(x, y)`. -/
def signatureText (name : String) (params : List String) : String :=
  name ++ "(" ++ ", ".intercalate params ++ ")"

def Function.signature (f : Function) : String :=
  signatureText f.name f.params

namespace Expr

/-- A number that no text has written. -/
def number (value : Decimal) : Expr :=
  .literal value false

/-- A product that is written without its sign. -/
def juxtaposed (left right : Expr) : Expr :=
  .binary .times true left right

def isVector : Expr → Bool
  | vector _ => true
  | _ => false

/-- The elements of a vector. -/
def elements : Expr → List Expr
  | vector es => es
  | _ => []

/-- What the tree is at its root. -/
def kind : Expr → String
  | literal .. => "literal"
  | var _ => "variable"
  | unary .. => "unary"
  | binary .. => "binary"
  | call .. => "function call"
  | definition .. => "function definition"
  | vector _ => "vector"
  | matrix _ => "matrix"
  | empty => "space"

/-- The name of what the tree is where an operation does not take it. -/
def nodeKind : Expr → String
  | literal .. => "LiteralNode"
  | var _ => "VariableNode"
  | unary .. => "UnaryNode"
  | binary .. => "BinaryNode"
  | call .. => "FunctionCallNode"
  | definition .. => "FunctionDefinitionNode"
  | vector _ => "VectorNode"
  | matrix _ => "MatrixNode"
  | empty => "SpaceNode"

end Expr

/-- The digits of a number from its first one that is not zero. -/
def Decimal.significantDigits : Decimal → Nat
  | .finite _ c _ => digitCount c
  | .infinity _ => 1
  | .nan _ _ payload => digitCount payload

end Reckon
