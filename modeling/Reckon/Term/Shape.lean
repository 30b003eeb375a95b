import Reckon.Operator
import Reckon.Text.Letter
import Reckon.Text.Digit

/-!
# The shape of a written expression

`isWrapped` tells whether one pair of parentheses encloses a text, and `looseness` how tightly
the loosest operation outside of all parentheses binds.
-/

namespace Reckon

/-! ## Enclosing parentheses -/

/-- With `depth` parentheses open, the last character and no earlier one closes all of them. -/
def closesAtEnd : (depth : Nat) → List Char → Bool
  | _, [] => false
  | depth, c :: cs =>
    if c == '(' then closesAtEnd (depth + 1) cs
    else if c == ')' then if depth ≤ 1 then cs.isEmpty else closesAtEnd (depth - 1) cs
    else closesAtEnd depth cs

/-- One pair of parentheses encloses the text: `(x+1)` but not `(x)+(1)`. -/
def isWrapped : List Char → Bool
  | '(' :: cs => closesAtEnd 1 cs
  | _ => false

/-- The text without its first and last character. -/
def inner (cs : List Char) : List Char :=
  (cs.drop 1).dropLast

theorem length_inner_lt {cs : List Char} (wrapped : isWrapped cs = true) :
    (inner cs).length < cs.length := by
  cases cs with
  | nil => simp [isWrapped] at wrapped
  | cons c cs => simp only [inner, List.drop_one, List.tail_cons, List.length_dropLast,
      List.length_cons]; omega

/-- The text without any enclosing parentheses. -/
def unwrap (cs : List Char) : List Char :=
  if _wrapped : isWrapped cs = true then unwrap (inner cs) else cs
termination_by cs.length
decreasing_by exact length_inner_lt _wrapped

/-! ## The loosest operation -/

/-- The characters of operators. -/
def isOperatorChar (c : Char) : Bool :=
  "+-*/^<>=!".toList.contains c

/-- Two neighbouring characters are the end of a factor and the beginning of the next one. -/
def adjoinAsProduct (previous c : Char) : Bool :=
  let numeral (d : Char) := Text.isDigit d || d == '.'
  let ends := numeral previous || Text.isLetter previous || previous == ')'
  let starts := numeral c || Text.isLetter c || c == '('
  ends && starts && !(numeral previous && numeral c) &&
    !(Text.isLetter previous && (Text.isLetter c || c == '('))

/-- How tightly the operation at the character `c` outside of parentheses binds; an atom where
there is none. -/
def bindingAt (previous : Option Char) (c : Char) : Binding :=
  if "<>=!".toList.contains c then Binding.comparison
  else if c == '+' || c == '-' then
    match previous with
    | none => Binding.unary
    | some p => if isOperatorChar p then Binding.atom else Binding.additive
  else if c == '*' || c == '/' then Binding.multiplicative
  else if c == '^' then Binding.exponent
  else if previous.any (adjoinAsProduct · c) then Binding.multiplicative
  else Binding.atom

/-- The depth after a character. -/
def depthAfter (depth : Int) (c : Char) : Int :=
  if c == '(' then depth + 1 else if c == ')' then depth - 1 else depth

/-- `looseness` from a character on, with the depth and the character before it. -/
def loosenessFrom (depth : Int) (previous : Option Char) : List Char → Binding
  | [] => Binding.atom
  | c :: cs =>
    let rest := loosenessFrom (depthAfter depth c) (some c) cs
    if depth = 0 then min (bindingAt previous c) rest else rest

/-- How tightly the loosest operation outside of all parentheses binds. -/
def looseness (s : String) : Binding :=
  loosenessFrom 0 none s.toList

end Reckon
