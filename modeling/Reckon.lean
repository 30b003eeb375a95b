import Reckon.Binary64.Exact
import Reckon.Binary64.Places
import Reckon.Binary64.Shortest
import Reckon.Calculus.Antiderivative
import Reckon.Calculus.Build
import Reckon.Calculus.Degree
import Reckon.Calculus.Derivative
import Reckon.Calculus.Inline
import Reckon.Calculus.Roots
import Reckon.Console
import Reckon.Context
import Reckon.Decimal.Arithmetic
import Reckon.Decimal.Basic
import Reckon.Decimal.DigitCount
import Reckon.Decimal.Elementary
import Reckon.Decimal.Power
import Reckon.Decimal.Rounding
import Reckon.Decimal.Text
import Reckon.Evaluate
import Reckon.Expr.Basic
import Reckon.Expr.Depth
import Reckon.Expr.Names
import Reckon.Expr.Parser
import Reckon.Expr.Printer
import Reckon.Fault
import Reckon.Grid.Basic
import Reckon.Grid.Elimination
import Reckon.Grid.Polynomial
import Reckon.Linear.Product
import Reckon.Linear.Solve
import Reckon.Linear.Text
import Reckon.Linear.Value
import Reckon.Main
import Reckon.Monomial
import Reckon.Native
import Reckon.Native.Apply
import Reckon.Operator
import Reckon.Outline
import Reckon.Proofs.Binary64.Exact
import Reckon.Proofs.Binary64.Shortest
import Reckon.Proofs.Binary64.Text
import Reckon.Proofs.Calc
import Reckon.Proofs.Calculus.Antiderivative
import Reckon.Proofs.Calculus.Calling
import Reckon.Proofs.Calculus.Degree
import Reckon.Proofs.Calculus.Derivative
import Reckon.Proofs.Calculus.Inline
import Reckon.Proofs.Calculus.Renaming
import Reckon.Proofs.Calculus.Roots
import Reckon.Proofs.Calculus.Sampling
import Reckon.Proofs.Context.Asked
import Reckon.Proofs.Context.Fresh
import Reckon.Proofs.Context.Names
import Reckon.Proofs.Decimal.Division
import Reckon.Proofs.Decimal.Exact
import Reckon.Proofs.Decimal.Finite
import Reckon.Proofs.Decimal.Held
import Reckon.Proofs.Decimal.Numeral
import Reckon.Proofs.Decimal.Quotient
import Reckon.Proofs.Decimal.Representable
import Reckon.Proofs.Decimal.Rounding
import Reckon.Proofs.Decimal.Text
import Reckon.Proofs.Decimal.Value
import Reckon.Proofs.Evaluate
import Reckon.Proofs.Evaluate.Accurate
import Reckon.Proofs.Evaluate.Alike
import Reckon.Proofs.Evaluate.Faithful
import Reckon.Proofs.Evaluate.Locals
import Reckon.Proofs.Evaluate.Respelled
import Reckon.Proofs.Evaluate.Stripping
import Reckon.Proofs.Evaluate.Text
import Reckon.Proofs.Expr.Account
import Reckon.Proofs.Expr.Blanks
import Reckon.Proofs.Expr.Bracket
import Reckon.Proofs.Expr.Depth
import Reckon.Proofs.Expr.Joined
import Reckon.Proofs.Expr.Legible
import Reckon.Proofs.Expr.Letters
import Reckon.Proofs.Expr.Local
import Reckon.Proofs.Expr.Meaning
import Reckon.Proofs.Expr.Nesting
import Reckon.Proofs.Expr.Reading
import Reckon.Proofs.Expr.Regrouped
import Reckon.Proofs.Expr.Respelled
import Reckon.Proofs.Expr.RoundTrip
import Reckon.Proofs.Expr.Spans
import Reckon.Proofs.Expr.Spelling
import Reckon.Proofs.Expr.Splitting
import Reckon.Proofs.Expr.Trees
import Reckon.Proofs.Expr.Unsign
import Reckon.Proofs.Expr.Unwrap
import Reckon.Proofs.Expr.WithinNames
import Reckon.Proofs.Expr.Words
import Reckon.Proofs.Expr.Yield
import Reckon.Proofs.Form
import Reckon.Proofs.Form.Bracket
import Reckon.Proofs.Form.Read
import Reckon.Proofs.Form.Scan
import Reckon.Proofs.Form.Shape
import Reckon.Proofs.Frame
import Reckon.Proofs.Frame.Calculus
import Reckon.Proofs.Frame.Evaluate
import Reckon.Proofs.Frame.Request
import Reckon.Proofs.Frame.Simplify
import Reckon.Proofs.Grid
import Reckon.Proofs.Grid.Determinant
import Reckon.Proofs.Grid.Echelon
import Reckon.Proofs.Grid.Inverse
import Reckon.Proofs.Grid.Polynomial
import Reckon.Proofs.Grid.Product
import Reckon.Proofs.Grid.Reduced
import Reckon.Proofs.Grid.Sweep
import Reckon.Proofs.Linear.Polynomial
import Reckon.Proofs.Native
import Reckon.Proofs.Native.CommonFactor
import Reckon.Proofs.Native.Division
import Reckon.Proofs.Native.Selections
import Reckon.Proofs.Operation
import Reckon.Proofs.Request.Again
import Reckon.Proofs.Request.Answer
import Reckon.Proofs.Request.Binding
import Reckon.Proofs.Request.Constant
import Reckon.Proofs.Request.Scopes
import Reckon.Proofs.Request.Settings
import Reckon.Proofs.Request.Supply
import Reckon.Proofs.Scope
import Reckon.Proofs.Simplify
import Reckon.Proofs.Simplify.Combination
import Reckon.Proofs.Simplify.Expanded
import Reckon.Proofs.Simplify.Identity
import Reckon.Proofs.Simplify.Like
import Reckon.Proofs.Simplify.Longest
import Reckon.Proofs.Simplify.Monomial
import Reckon.Proofs.Simplify.Polynomial
import Reckon.Proofs.Simplify.Powers
import Reckon.Proofs.Simplify.Text
import Reckon.Proofs.Term.Accurate
import Reckon.Proofs.Term.Canonical
import Reckon.Proofs.Term.Faithful
import Reckon.Proofs.Term.Shape
import Reckon.Proofs.Term.Text
import Reckon.Proofs.Term.Wrapped
import Reckon.Proofs.Text.Classes
import Reckon.Proofs.Token
import Reckon.Proofs.Token.Replacing
import Reckon.Proofs.Token.Tiling
import Reckon.Request
import Reckon.Scale
import Reckon.Scope
import Reckon.Simplify
import Reckon.Term
import Reckon.Term.Arithmetic
import Reckon.Term.Combine
import Reckon.Term.Shape
import Reckon.Text.Blank
import Reckon.Text.Digit
import Reckon.Text.Letter
import Reckon.Text.Printable
import Reckon.Text.Quoted
import Reckon.Text.Ranges
import Reckon.Token
import Reckon.Token.Lexer
