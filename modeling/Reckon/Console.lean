import Reckon.Request
import Reckon.Outline

/-!
# The console

A dialogue of lines and answers. `Console.transcript` is everything that is written while the
given lines are entered: the prompts, the answers and the faults, with the control sequences for
colours. The lines themselves are not part of it.
-/

namespace Reckon.Console

structure Options where
  /-- The expression is written as it was understood. -/
  echo : Bool := false
  /-- The tree of the expression is drawn. -/
  showTree : Bool := false
  /-- The time that the answer took is written. -/
  showTime : Bool := false

/-! ## Colours -/

inductive Style where
  | yellow | red | cyan | bright | dim
deriving DecidableEq, Repr

/-- A control sequence of a terminal. -/
def control (code : Nat) : String :=
  "\x1b[" ++ toString code ++ "m"

def Style.sequence : Style → String
  | .yellow => control 33
  | .red => control 31
  | .cyan => control 36
  | .bright => control 1
  | .dim => control 2

/-- Back to the default colour. -/
def plainColour : String := control 39

/-- A line in a style. -/
def styled (style : Style) (s : String) : String :=
  style.sequence ++ s ++ control 0 ++ "\n"

def prompt : String :=
  Style.yellow.sequence ++ ">>> " ++ plainColour

/-! ## Answers -/

/-- A duration in milliseconds with five places. -/
def durationText (nanoseconds : Nat) : String :=
  let hundredths := nanoseconds / 10
  String.ofList (Decimal.pointed hundredths 5) ++ "ms"

/-- What is written for a line. -/
structure Reply where
  body : String
  /-- The time that it took is written below. -/
  timed : Bool := false
  /-- A blank line follows. -/
  spaced : Bool := true

/-- The whole reply, with the time in nanoseconds. -/
def Reply.text (r : Reply) (elapsed : Nat) : String :=
  r.body ++ (if r.timed then styled .dim (durationText elapsed) else "") ++
    if r.spaced then "\n" else ""

/-- The answer to an expression that has been read. A matrix is shown with nothing below it. -/
def answer (o : Options) (line : String) (e : Expr) : Calc Reply := do
  if e.matrixRows?.isSome then
    let m ← readMatrix line
    let text ← Calc.lift (Linear.matrixText Linear.defaultPlaces m)
    return { body := styled .bright text, spaced := false }
  else
    let text ← Calc.lift ((← evaluateTree e).render none)
    let result := match e with
      | .definition .. => styled .yellow ("Added " ++ text ++ " to context.")
      | _ => styled .bright text
    return { body := result, timed := o.showTime }

/-- What is written before the answer. -/
def preamble (o : Options) (e : Expr) : String :=
  (if o.echo then styled .cyan e.text else "") ++ (if o.showTree then e.drawing else "")

/-- A fault as a line. -/
def faultText (fault : Fault) : String :=
  styled .red (fault.label ++ ": " ++ fault.message)

/-- The reply to an expression, and the context after it. -/
def evaluateLine (o : Options) (line : String) (ctx : Context) : Reply × Context :=
  match Calc.tree line [] ctx with
  | (.error fault, ctx) => ({ body := faultText fault }, ctx)
  | (.ok e, ctx) =>
    match answer o line e ctx with
    | (.ok r, ctx) => ({ r with body := preamble o e ++ r.body }, ctx)
    | (.error fault, ctx) => ({ body := preamble o e ++ faultText fault }, ctx)

/-- The reply to a line, and the context after it; none if the line ends the dialogue. -/
def reply? (o : Options) (line : String) (ctx : Context) : Option (Reply × Context) :=
  if line == "exit" then none
  else if line == "ctx" then some ({ body := ctx.text ++ "\n" }, ctx)
  else some (evaluateLine o line ctx)

/-- Everything that is written while the lines are entered, no answer taking any time. -/
def transcript (o : Options) : List String → Context → String × Context
  | [], ctx => (prompt, ctx)
  | line :: lines, ctx =>
    match reply? o line ctx with
    | none => (prompt, ctx)
    | some (r, ctx) =>
      let (rest, ctx) := transcript o lines ctx
      (prompt ++ r.text 0 ++ rest, ctx)

end Reckon.Console
