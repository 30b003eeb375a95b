import Reckon.Scope
import Reckon.Expr.Names
import Reckon.Expr.Depth
import Reckon.Term.Combine

/-!
# Contexts

A context holds everything an expression can refer to. The global scope has the constants, the
native functions and what is defined or bound at top level. Every call of a function pushes a
scope with its arguments.

A variable is looked up in the innermost scope and then in the global one: a function sees its
parameters and the top level, never the bindings of its caller. A function is looked up in every
scope, the innermost first.
-/

namespace Reckon

/-- The settings of a context. -/
structure Params where
  /-- The significant digits of results. A longer literal raises it for the rest of a request. -/
  precision : Nat := defaultPrecision
  angleUnit : AngleUnit := .radians
  /-- Results smaller than this are zero; also where a series is taken to have settled. -/
  zeroEpsilon : Decimal := .finite false 1 (-7)
  /-- Matrix entries smaller than this are no pivots. -/
  matrixEpsilon : Float := 1e-5
  /-- The decimal places of shown matrix entries. -/
  displayPlaces : Int := 5
  /-- The most terms of a series. -/
  maxTerms : Int := 10000
  /-- The most steps from one start of the root search. -/
  newtonSteps : Nat := 100
  /-- A value smaller than this is near enough to zero for a root. -/
  newtonTolerance : Decimal := .finite false 1 (-6)
  /-- How often the bracket of the root search is doubled. -/
  bracketDoublings : Nat := 64
  /-- The decimal places of roots. -/
  rootPlaces : Int := 6
  /-- Expressions are expanded and folded before they are evaluated. -/
  simplify : Bool := true
  /-- Constants are replaced by their values before evaluation. -/
  inlineConstants : Bool := false

/-- The settings that a listing shows. -/
def Params.text (p : Params) : String :=
  "<Params precision=" ++ toString p.precision ++ ", angle_mode=" ++ p.angleUnit.name ++ ">"

structure Context where
  params : Params := {}
  globals : Scope
  /-- The scopes above the global one, the innermost first. -/
  inner : List Scope := []
  /-- How many names have been generated. -/
  generated : Nat := 0

namespace Context

/-- The context of a new session: the constants and the native functions. -/
def initial : Context :=
  { globals :=
      ⟨Constant.all.map (fun c => (c.name, .constant c)) ++
        Native.all.map fun n => (n.name, .native n)⟩ }

/-- All scopes, the innermost first. -/
def scopes (ctx : Context) : List Scope :=
  ctx.inner ++ [ctx.globals]

/-- The scope that definitions and bindings go to. -/
def current (ctx : Context) : Scope :=
  ctx.inner.head?.getD ctx.globals

/-- Changes the current scope. -/
def updateCurrent (ctx : Context) (f : Scope → Scope) : Context :=
  match ctx.inner with
  | [] => { ctx with globals := f ctx.globals }
  | scope :: outer => { ctx with inner := f scope :: outer }

/-- The number of scopes. -/
def depth (ctx : Context) : Nat :=
  ctx.inner.length + 1

/-! ## Looking up -/

def lookupFunction (ctx : Context) (name : String) : Option Function :=
  ctx.scopes.findSome? (·.function? name)

def native? (ctx : Context) (name : String) : Option Native :=
  ctx.globals.native? name

def constant? (ctx : Context) (name : String) : Option Constant :=
  ctx.globals.constant? name

def isNative (ctx : Context) (name : String) : Bool :=
  ctx.globals.has name .native

def isConstant (ctx : Context) (name : String) : Bool :=
  ctx.globals.has name .constant

/-- The name of a native function or a function. -/
def isFunction (ctx : Context) (name : String) : Bool :=
  ctx.isNative name || (ctx.lookupFunction name).isSome

def lookupVariable (ctx : Context) (name : String) : Option Term :=
  (ctx.current.value? name).or (ctx.globals.value? name)

def isBound (ctx : Context) (name : String) : Bool :=
  (ctx.lookupVariable name).isSome

/-- The constants, in order. -/
def constants (ctx : Context) : List Constant :=
  ctx.globals.entries.filterMap fun (_, entry) =>
    match entry with
    | .constant c => some c
    | _ => none

/-- The names of entries of some kinds in any scope, sorted and each once. -/
def namesOf (ctx : Context) (kinds : List EntryKind) : List String :=
  let names := ctx.scopes.flatMap fun scope =>
    scope.entries.filterMap fun (name, entry) =>
      if kinds.contains entry.kind then some name else none
  (names.eraseDups).mergeSort fun a b => a ≤ b

/-- What the reader has to know: constants and bound variables are wholes. -/
def vocabulary (ctx : Context) : Vocabulary :=
  { isFunction := ctx.isFunction
    isKnown := fun name => ctx.isConstant name || ctx.isBound name }

/-- The tree of a text; `names` are further wholes. -/
def read (ctx : Context) (source : String) (names : List String) : Except Fault Expr :=
  match parse (ctx.vocabulary.extend names) source with
  | .ok e => .ok e
  | .error fault => .error (.badSyntax fault source)

/-- The tree of a text, unless reading it is nested deeper than the frames allow. -/
def readWithin (ctx : Context) (frames : Nat) (source : String) (names : List String) :
    Except Fault Expr :=
  if (ctx.vocabulary.extend names).readsWithin frames source then ctx.read source names
  else .error (.depth .evaluating)

/-- The variables of a tree that are neither constants nor bound. -/
def freeNames (ctx : Context) (e : Expr) : List String :=
  e.collectNames (fun name => !(ctx.isConstant name || ctx.isBound name)) []

/-- The tree with the values of the constants that are not bound. -/
def replaceConstants (ctx : Context) (e : Expr) : Expr :=
  e.substitute <| ctx.constants.filterMap fun c =>
    if ctx.isBound c.name then none else some (c.name, .number c.value)

/-! ## Changing -/

/-- Gives a variable of the current scope a value. -/
def bind (ctx : Context) (name : String) (t : Term) : Context :=
  ctx.updateCurrent (·.insert name (.value t))

/-- Adds a function to the current scope; its name must be new in all scopes. -/
def define (ctx : Context) (f : Function) : Except Fault Context :=
  if ctx.isNative f.name then .error (.clash (.native f.name))
  else if ctx.isConstant f.name then .error (.clash (.constant f.name))
  else if (ctx.lookupFunction f.name).isSome then .error (.clash (.function f.name))
  else .ok (ctx.updateCurrent (·.insert f.name (.function f)))

/-- The scopes without the innermost entry of a function. -/
def eraseInnermost (name : String) : List Scope → List Scope
  | [] => []
  | scope :: outer =>
    if (scope.function? name).isSome then scope.erase name .function :: outer
    else scope :: eraseInnermost name outer

/-- Takes a function away. -/
def remove (ctx : Context) (name : String) : Except Fault (Function × Context) :=
  match ctx.lookupFunction name with
  | none => .error (.unknown (.function name))
  | some f =>
    if ctx.inner.any fun scope => (scope.function? name).isSome then
      .ok (f, { ctx with inner := eraseInnermost name ctx.inner })
    else .ok (f, { ctx with globals := ctx.globals.erase name .function })

def push (ctx : Context) : Context :=
  { ctx with inner := {} :: ctx.inner }

def pop (ctx : Context) : Except Fault Context :=
  match ctx.inner with
  | [] => .error .globalScope
  | _ :: outer => .ok { ctx with inner := outer }

/-! ## Generated names -/

/-- The numeral of `n` in the digits `a` to `z`. -/
def letters (n : Nat) : List Char :=
  let digit := Char.ofNat (97 + n % 26)
  if n < 26 then [digit] else letters (n / 26) ++ [digit]
termination_by n

/-- The `n`-th generated name. -/
def generatedName (n : Nat) : String :=
  String.ofList ('_' :: letters n)

/-- The first of the generated names from the `n`-th on that is not taken, and the next number. -/
def freshFrom (taken : String → Bool) : (fuel n : Nat) → String × Nat
  | 0, n => (generatedName n, n + 1)
  | fuel + 1, n =>
    if taken (generatedName n) then freshFrom taken fuel (n + 1) else (generatedName n, n + 1)

/-- A name that no function and no constant has. As many names as there are entries, and one
more, cannot all be taken. -/
def freshName (ctx : Context) : String × Context :=
  let entries := ctx.scopes.foldl (fun n scope => n + scope.size) 0
  let (name, next) :=
    freshFrom (fun name => ctx.isFunction name || ctx.isConstant name) entries ctx.generated
  (name, { ctx with generated := next })

/-! ## Listings -/

/-- The inner scopes, each with one tab more than the scope around it. -/
def text (ctx : Context) : String :=
  let inner := ctx.inner.reverse.zipIdx.map fun (scope, i) => scope.lines (i + 1)
  "Context \x7b\n\t<global scope: " ++ toString ctx.globals.size ++ " items>\n" ++
    "".intercalate inner ++ "\x7d"

/-- The number of scopes as a listing. -/
def summary (ctx : Context) : String :=
  "<Context size=" ++ toString ctx.depth ++ ">"

end Context

/-- The number of entries as a listing. -/
def Scope.summary (scope : Scope) : String :=
  "<Scope size=" ++ toString scope.size ++ ">"

/-! ## Computing in a context -/

/-- A computation that may fail; the context is kept when it does. -/
abbrev Calc := ExceptT Fault (StateM Context)

namespace Calc

/-- A part of the context. -/
def look (f : Context → α) : Calc α :=
  fun ctx => (.ok (f ctx), ctx)

/-- Changes the context. -/
def update (f : Context → Context) : Calc Unit :=
  fun ctx => (.ok (), f ctx)

def fail (fault : Fault) : Calc α :=
  fun ctx => (.error fault, ctx)

/-- A result that does not depend on the context. -/
def lift (result : Except Fault α) : Calc α :=
  fun ctx => (result, ctx)

/-- A decimal operation. -/
def decimal (result : Except Signal α) : Calc α :=
  lift (liftSignal result)

/-- Runs in a new scope, which is taken away also on failure. -/
def withScope (act : Calc α) : Calc α := fun ctx =>
  let (result, ctx') := act ctx.push
  match ctx'.pop with
  | .ok ctx'' => (result, ctx'')
  | .error fault => (.error fault, ctx')

/-- Runs on a copy of the settings, which is dropped also on failure. -/
def withParams (act : Calc α) : Calc α := fun ctx =>
  let (result, ctx') := act ctx
  (result, { ctx' with params := ctx.params })

/-- Adds a function to the current scope. -/
def define (f : Function) : Calc Unit := fun ctx =>
  match ctx.define f with
  | .ok ctx' => (.ok (), ctx')
  | .error fault => (.error fault, ctx)

/-- A name that no function and no constant has. -/
def freshName : Calc String := fun ctx =>
  let (name, ctx') := ctx.freshName
  (.ok name, ctx')

/-- The tree of a text; nested too deeply, the text is refused. -/
def read (source : String) (names : List String) : Calc Expr :=
  fun ctx => (ctx.readWithin frameLimit source names, ctx)

/-- The tree of a text that a request works on. What a request does with a tree is nested as
deeply as the tree, and the frames that this takes are no part of the model. -/
def tree (source : String) (names : List String) : Calc Expr :=
  fun ctx => (ctx.read source names, ctx)

/-- The value, or none if a fault of the given kinds occurs. -/
def attempt (caught : Fault → Bool) (act : Calc α) : Calc (Option α) := fun ctx =>
  match act ctx with
  | (.ok a, ctx') => (.ok (some a), ctx')
  | (.error fault, ctx') => (if caught fault then .ok none else .error fault, ctx')

end Calc

end Reckon
