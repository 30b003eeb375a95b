/-!
# Operators

The binary operators with their symbols, the tightness of their binding and the direction in
which a chain of them is read.
-/

namespace Reckon

/-- How tightly a form binds; a larger number binds more tightly. -/
abbrev Binding := Nat

namespace Binding

def comparison : Binding := 1
def additive : Binding := 2
def multiplicative : Binding := 3
def unary : Binding := 4
def exponent : Binding := 5
def atom : Binding := 9

end Binding

/-- The direction in which a chain of operators is grouped: `2/3/4` is `(2/3)/4`, but `2^3^4` is
`2^(3^4)`. -/
inductive Associativity where
  | leftToRight
  | rightToLeft
deriving DecidableEq, Repr

/-- The binary operators. -/
inductive Operator where
  | plus | minus | times | divide | power
  | greater | less | greaterEqual | lessEqual | notEqual | equal | increase
deriving DecidableEq, Repr

namespace Operator

/-- Every operator, in the order of declaration. -/
def all : List Operator :=
  [plus, minus, times, divide, power, greater, less, greaterEqual, lessEqual, notEqual, equal,
    increase]

theorem mem_all (op : Operator) : op ∈ all := by
  cases op <;> decide

def symbol : Operator → String
  | plus => "+"
  | minus => "-"
  | times => "*"
  | divide => "/"
  | power => "^"
  | greater => ">"
  | less => "<"
  | greaterEqual => ">="
  | lessEqual => "<="
  | notEqual => "!="
  | equal => "=="
  | increase => "+="

def binding : Operator → Binding
  | plus | minus => Binding.additive
  | times | divide => Binding.multiplicative
  | power => Binding.exponent
  | greater | less | greaterEqual | lessEqual | notEqual | equal | increase => Binding.comparison

def associativity : Operator → Associativity
  | power => .rightToLeft
  | _ => .leftToRight

def isComparison (op : Operator) : Bool :=
  op.binding == Binding.comparison

/-- The operator with a symbol. -/
def ofSymbol? (symbol : String) : Option Operator :=
  all.find? (·.symbol == symbol)

theorem ofSymbol?_symbol (op : Operator) : ofSymbol? op.symbol = some op := by
  cases op <;> decide

/-- Operators with two characters are tried before those with one. -/
def longestFirst : List Operator :=
  [greaterEqual, lessEqual, notEqual, equal, increase, plus, minus, times, divide, power, greater,
    less]

theorem mem_longestFirst (op : Operator) : op ∈ longestFirst := by
  cases op <;> decide

end Operator

/-- The sign in front of an operand. -/
inductive Sign where
  | positive
  | negative
deriving DecidableEq, Repr

namespace Sign

def symbol : Sign → String
  | positive => "+"
  | negative => "-"

/-- The sign of a product. -/
def times : Sign → Sign → Sign
  | positive, s => s
  | negative, positive => negative
  | negative, negative => positive

def opposite : Sign → Sign
  | positive => negative
  | negative => positive

end Sign

end Reckon
