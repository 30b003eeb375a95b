import Reckon.Token
import Reckon.Text.Letter

/-!
# Cutting a text into tokens

Blanks are kept as tokens, because they separate the elements of a vector and keep two numbers
apart. Digits are ASCII digits; names are runs of letters and underscores; of two operators that
match, the longer one is taken.
-/

namespace Reckon

/-- A character of a name. -/
def isNameChar (c : Char) : Bool :=
  Text.isLetter c || c == '_'

/-- The longest operator that the characters begin with. -/
def matchOperator? (cs : List Char) : Option Operator :=
  Operator.longestFirst.find? fun op => op.symbol.toList.isPrefixOf cs

/-- The token kind of a punctuation mark. -/
def punctuation? : Char → Option TokenKind
  | '=' => some .equals
  | ',' => some .comma
  | '(' => some .openParen
  | ')' => some .closeParen
  | '[' => some .openBracket
  | ']' => some .closeBracket
  | _ => none

/-- A number begins with a digit or with a point and a digit. -/
def startsNumber : List Char → Bool
  | '.' :: d :: _ => d.isDigit
  | c :: _ => c.isDigit
  | [] => false

/-- The digits of a number before and after its point, and its text. -/
def numberParts (cs : List Char) : List Char × List Char × List Char :=
  let (whole, rest) := Decimal.spanDigits cs
  match rest with
  | '.' :: rest =>
    let fraction := rest.takeWhile Char.isDigit
    (whole, fraction, whole ++ '.' :: fraction)
  | _ => (whole, [], whole)

/-- Kind and text of the token that the characters begin with. -/
def lexeme? : List Char → Option (TokenKind × List Char)
  | [] => none
  | c :: cs =>
    if Text.isBlank c then
      some (.space, c :: cs.takeWhile Text.isBlank)
    else if startsNumber (c :: cs) then
      let (whole, fraction, text) := numberParts (c :: cs)
      some (.number (Decimal.ofNumeral whole fraction), text)
    else if isNameChar c then
      some (.identifier, c :: cs.takeWhile isNameChar)
    else
      match matchOperator? (c :: cs) with
      | some op => some (.operator op, op.symbol.toList)
      | none => (punctuation? c).map fun kind => (kind, [c])

/-- The tokens of the characters, the first of which has the offset `start`. -/
def scanFrom (start : Nat) (cs : List Char) : Except SyntaxFault (List Token) :=
  match cs with
  | [] => .ok []
  | c :: rest =>
    match lexeme? (c :: rest) with
    | none => .error ⟨.unrecognized c, start, 1⟩
    | some (kind, text) =>
      match scanFrom (start + max 1 text.length) (rest.drop (text.length - 1)) with
      | .error fault => .error fault
      | .ok tokens => .ok (⟨kind, String.ofList text, start⟩ :: tokens)
termination_by cs.length
decreasing_by simp only [List.length_drop, List.length_cons]; omega

/-- The tokens of a text. -/
def scan (source : String) : Except SyntaxFault (List Token) :=
  scanFrom 0 source.toList

end Reckon
