import Reckon.Expr.Basic
import Reckon.Text.Letter
import Reckon.Text.Digit
import Reckon.Text.Quoted

/-!
# The text of an expression

Parentheses are written where the binding of the operators asks for them, and around a sign that
follows an operator. An attached product is written without its sign where its two factors still
read as a product.
-/

namespace Reckon

namespace Expr

/-- How tightly the root of the tree binds. -/
def binding : Expr → Binding
  | literal n _ => if n.isNegative then Binding.unary else Binding.atom
  | unary .. => Binding.unary
  | binary op .. => op.binding
  | definition .. => 0
  | _ => Binding.atom

def associativity : Expr → Associativity
  | unary .. => .rightToLeft
  | binary op .. => op.associativity
  | _ => .leftToRight

/-- The first form is evaluated before the second when both want the same operand. -/
def bindsBefore (first second : Expr) : Bool :=
  if first.binding ≠ second.binding then second.binding < first.binding
  else if first.associativity = second.associativity then first.associativity = .leftToRight
  else first.associativity = .rightToLeft

/-- The left operand of `parent` stands in parentheses. -/
def wrapsLeft (parent child : Expr) : Bool :=
  child.binding ≠ Binding.atom && !child.bindsBefore parent

/-- The operand of a sign stands in parentheses. -/
def wrapsOperand (parent child : Expr) : Bool :=
  child.binding ≠ Binding.atom && parent.bindsBefore child

/-- The right operand of `parent` stands in parentheses; one with a sign always does. -/
def wrapsRight (parent child : Expr) : Bool :=
  match child with
  | unary .. => true
  | literal n _ => n.isNegative || wrapsOperand parent child
  | _ => wrapsOperand parent child

/-- The text of the tree begins with a number. -/
def startsWithLiteral : Expr → Bool
  | literal .. => true
  | binary _ _ l _ => l.startsWithLiteral
  | _ => false

/-- A text in parentheses. -/
def parens (wrap : Bool) (s : String) : String :=
  if wrap then "(" ++ s ++ ")" else s

/-- The texts of two factors can stand side by side: the left one does not make the right one a
call or a longer name, and the right one does not begin with a number. -/
def juxtaposable (left right : List Char) (literalFirst : Bool) : Bool :=
  match left.getLast?, right.head? with
  | some l, some r =>
    !(literalFirst && r != '(') && !(Text.isLetter l && r == '(') &&
      (Text.isDigit l || Text.isLetter l || l == ')') && (Text.isLetter r || r == '(')
  | _, _ => false

/-- Two operands with the operator between them, unless it can be left out. -/
def joined (op : Operator) (attached literalFirst : Bool) (left right : String) : String :=
  if attached && op == .times && juxtaposable left.toList right.toList literalFirst then
    left ++ right
  else left ++ op.symbol ++ right

mutual

/-- The text of an expression. -/
def text : Expr → String
  | literal n _ => n.plain
  | var name => name
  | e@(unary sign child) => sign.symbol ++ parens (wrapsOperand e child) child.text
  | e@(binary op attached l r) =>
    joined op attached r.startsWithLiteral (parens (wrapsLeft e l) l.text)
      (parens (wrapsRight e r) r.text)
  | call name args => name ++ "(" ++ ", ".intercalate (texts args) ++ ")"
  | definition name params body _ => signatureText name params ++ " = " ++ body.text
  | vector es => "[" ++ " ".intercalate (texts es) ++ "]"
  | matrix rows => "".intercalate (texts rows)
  | empty => ""

/-- The texts of several expressions. -/
def texts : List Expr → List String
  | [] => []
  | e :: es => e.text :: texts es

end

end Expr

/-- The signature of a function with its body. -/
def Function.text (f : Function) : String :=
  f.signature ++ " = " ++ f.body.text

/-- A definition as a listing: what it is, its name and its parameters. -/
def definitionSummary (kind name : String) (params : List String) : String :=
  "<" ++ kind ++ " name=" ++ Text.quote name ++ ", args=" ++ Text.quoteList params ++ ">"

/-- The function as a listing. -/
def Function.summary (f : Function) : String :=
  definitionSummary "FunctionDefinition" f.name f.params

end Reckon
