import Reckon.Operator
import Reckon.Decimal.Text
import Reckon.Text.Quoted

/-!
# Tokens

The lexical units of an expression. A token keeps its exact text and the offset of its first
character, counted in characters.
-/

namespace Reckon

/-- What a token is, with the value of a number and the operator of a symbol. -/
inductive TokenKind where
  | number (value : Decimal)
  | identifier
  | operator (op : Operator)
  | equals
  | comma
  | openParen
  | closeParen
  | openBracket
  | closeBracket
  | space
deriving DecidableEq, Repr

/-- The name of a kind in listings. -/
def TokenKind.label : TokenKind → String
  | .number _ => "NUMBER"
  | .identifier => "IDENTIFIER"
  | .operator _ => "OPERATOR"
  | .equals => "EQUALS"
  | .comma => "COMMA"
  | .openParen => "LPAREN"
  | .closeParen => "RPAREN"
  | .openBracket => "LBRACKET"
  | .closeBracket => "RBRACKET"
  | .space => "SPACE"

structure Token where
  kind : TokenKind
  text : String
  start : Nat
deriving DecidableEq, Repr

namespace Token

/-- The offset behind the last character. -/
def stop (token : Token) : Nat :=
  token.start + token.text.length

def isSpace (token : Token) : Bool :=
  token.kind == .space

def isNumber (token : Token) : Bool :=
  match token.kind with
  | .number _ => true
  | _ => false

/-- The token can begin an operand of an unwritten product. -/
def startsOperand (token : Token) : Bool :=
  match token.kind with
  | .number _ | .identifier | .openParen => true
  | _ => false

/-- The token as a listing. -/
def summary (token : Token) : String :=
  "<Token type=" ++ token.kind.label ++ ", text=" ++ Text.quote token.text ++ ">"

end Token

/-- Why a text is no expression. -/
inductive SyntaxCause where
  | unrecognized (character : Char)
  | unexpected (text : String)
  | unexpectedEnd
  | operandExpected (found : String)
  | callExpected (function : String)
  | numbersAdjoin
  | parenNotClosed
  | closeParenExpected (found : String)
  | bracketNotClosed
  | elementAfterComma
  | elementBeforeComma
  | raggedRows
  | emptyRows
  | emptyBody
  | duplicateParameter (function : String) (parameters : List String)
  | definitionExpected
deriving DecidableEq, Repr

namespace SyntaxCause

def message : SyntaxCause → String
  | unrecognized c => "Unrecognized character '" ++ c.toString ++ "'"
  | unexpected text => "Unexpected '" ++ text ++ "'"
  | unexpectedEnd => "Unexpected end of expression"
  | operandExpected found => "Expected an operand but found '" ++ found ++ "'"
  | callExpected function => "Expected '(' after function '" ++ function ++ "'"
  | numbersAdjoin => "Missing operator between numbers"
  | parenNotClosed => "No matching close parenthesis"
  | closeParenExpected found => "Expected ')' but found '" ++ found ++ "'"
  | bracketNotClosed => "No matching close bracket"
  | elementAfterComma => "Expected an element after ','"
  | elementBeforeComma => "Expected an element before ','"
  | raggedRows => "Matrix rows must all have the same length"
  | emptyRows => "Matrix rows cannot be empty"
  | emptyBody => "Function body is empty"
  | duplicateParameter function parameters =>
    "Duplicate parameter name in " ++ function ++ "(" ++ ", ".intercalate parameters ++ ")"
  | definitionExpected => "Expected a function definition such as f(x)=x^2"

/-- The text could not even be cut into tokens. -/
def isLexical : SyntaxCause → Bool
  | unrecognized _ => true
  | _ => false

end SyntaxCause

/-- A cause with the place in the text: the offset and the number of characters to underline. -/
structure SyntaxFault where
  cause : SyntaxCause
  start : Nat
  width : Nat := 1
deriving DecidableEq, Repr

/-- A fault at a token. -/
def SyntaxFault.atToken (cause : SyntaxCause) (token : Token) : SyntaxFault :=
  ⟨cause, token.start, max 1 token.text.length⟩

/-- The message with the text and a line of carets under the place. -/
def SyntaxFault.report (fault : SyntaxFault) (source : String) : String :=
  fault.cause.message ++ "\n" ++ source ++ "\n" ++
    String.ofList (List.replicate fault.start ' ' ++ List.replicate fault.width '^')

end Reckon
