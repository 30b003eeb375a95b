import Reckon.Term.Shape
import Reckon.Fault

/-!
# Terms

The value of an expression is a number or, where names have no value, the text of what remains
to be computed. A text carries its binding if the operation that built it knew it; otherwise it is
found by looking at the text.
-/

namespace Reckon

inductive Term where
  | numeric (value : Decimal)
  | symbolic (text : String) (binding : Option Binding)
deriving DecidableEq, Repr

namespace Term

instance : Inhabited Term := ⟨.numeric 0⟩

/-- A text whose binding is yet to be found. -/
def ofName (text : String) : Term :=
  .symbolic text none

def isNumeric : Term → Bool
  | numeric _ => true
  | symbolic .. => false

def value? : Term → Option Decimal
  | numeric n => some n
  | symbolic .. => none

/-- What a term is, as it is named in listings and faults. -/
def kind : Term → String
  | numeric _ => "Numeric"
  | symbolic .. => "Symbolic"

/-- The text of a term: a number in plain notation. Where a number may be beyond the exponent
range, `render` is the text of it. -/
def text : Term → String
  | numeric n => n.plain
  | symbolic s _ => s

/-- The term as a listing: what it is and its text. -/
def summary (t : Term) : String :=
  t.kind ++ "(" ++ Text.quote t.text ++ ")"

/-- Terms are equal as numbers or as texts. -/
def same : Term → Term → Bool
  | numeric m, numeric n => m.same n
  | symbolic s _, symbolic t _ => s == t
  | _, _ => false

/-- The number that a text denotes, or else the text. -/
def ofText (s : String) : Term :=
  match Decimal.ofText? s with
  | some n => .numeric n
  | none => .ofName s

/-- How tightly the term binds; there is no answer for a NaN. -/
def binding : Term → Except Signal Binding
  | numeric n => do return if ← n.less 0 then Binding.unary else Binding.atom
  | symbolic s b => .ok (b.getD (looseness s))

/-- A number rounded to significant digits, a half going up. -/
def roundDigits (n : Decimal) (digits : Nat) : Except Fault Decimal :=
  if digits = 0 then .error (.domain .precisionRange)
  else liftSignal ((Precision.halfUp digits).round n)

/-- The text of a term, a number rounded to `precision` digits if that is given. A number beyond
the exponent range has no text. -/
def render (t : Term) (precision : Option Nat) : Except Fault String :=
  match t with
  | symbolic s _ => .ok s
  | numeric n => do
    let n ← match precision with
      | some digits => roundDigits n digits
      | none => pure n
    let _ ← liftSignal ((Precision.halfEven Decimal.exactDigits).round n)
    return n.plain

/-- A number within the exponent range has its text. -/
theorem render_numeric {n shown : Decimal}
    (rounded : (Precision.halfEven Decimal.exactDigits).round n = .ok shown) :
    (numeric n).render none = .ok n.plain := by
  dsimp only [render, bind, Except.bind, pure, Except.pure]
  rw [rounded]
  rfl

theorem eq_text_of_render {t : Term} {s : String} (done : t.render none = .ok s) :
    s = t.text := by
  cases t with
  | symbolic r b =>
    cases done
    rfl
  | numeric n =>
    dsimp only [render, bind, Except.bind, pure, Except.pure] at done
    split at done
    · cases done
    · cases done
      rfl

theorem eq_map_text_of_render : ∀ {ts : List Term} {texts : List String},
    ts.mapM (render · none) = .ok texts → texts = ts.map text
  | [], _, done => by
    cases done
    rfl
  | t :: ts, _, done => by
    rw [List.mapM_cons] at done
    dsimp only [bind, Except.bind, pure, Except.pure] at done
    split at done
    · cases done
    next s first =>
    split at done
    · cases done
    next texts others =>
    cases done
    rw [eq_text_of_render first, eq_map_text_of_render others, List.map_cons]

/-- A number rounded to significant digits; there is no rounding of a text. -/
def rounded (t : Term) (digits : Nat) : Except Fault Term :=
  match t with
  | numeric n => return .numeric (← roundDigits n digits)
  | symbolic .. => .error (.noOperation "Symbolic" "rounded")

/-! ## Looking at the text -/

/-- Negative if a minus stands before the first digit. -/
def signOfText : List Char → Sign
  | [] => .positive
  | c :: cs => if c == '-' then .negative else if Text.isDigit c then .positive else signOfText cs

def sign (t : Term) : Sign :=
  signOfText t.text.toList

/-- A character that belongs to no name. -/
def isPlainChar (c : Char) : Bool :=
  Text.isDigit c || isOperatorChar c || ".()[], ".toList.contains c

/-- The first character that belongs to a name. -/
def nameChar? (t : Term) : Option Char :=
  t.text.toList.find? (!isPlainChar ·)

/-- The character after the first `^`, or one if there is none. -/
def exponentChar (t : Term) : Char :=
  match t.text.toList.dropWhile (· != '^') with
  | _ :: c :: _ => c
  | _ => '1'

/-! ## Parentheses -/

def forceParens (t : Term) : Term :=
  .symbolic ("(" ++ t.text ++ ")") (some Binding.atom)

/-- The term in parentheses, unless it is empty or has them. -/
def addParens (t : Term) : Term :=
  if t.text.isEmpty || isWrapped t.text.toList then t else t.forceParens

/-- The term without any enclosing parentheses. -/
def removeParens (t : Term) : Term :=
  let cs := t.text.toList
  if isWrapped cs then .ofText (String.ofList (unwrap cs)) else t

/-! ## Negation -/

/-- A text with its sign changed: a sign that binds the whole text is taken away. -/
def negateText (s : String) (binding : Binding) : Term :=
  match s.toList with
  | '-' :: cs =>
    if binding = Binding.unary then .ofText (String.ofList cs)
    else if binding < Binding.unary then .symbolic ("-(" ++ s ++ ")") (some Binding.unary)
    else .symbolic ("-" ++ s) (some Binding.unary)
  | _ =>
    if binding < Binding.unary then .symbolic ("-(" ++ s ++ ")") (some Binding.unary)
    else .symbolic ("-" ++ s) (some Binding.unary)

/-- The term with its sign changed; a number is rounded to `digits`. -/
def negate (digits : Nat) : Term → Except Fault Term
  | numeric n => return .numeric (← liftSignal ((Precision.halfEven digits).neg n))
  | symbolic s b => .ok (negateText s (b.getD (looseness s)))

end Term

end Reckon
