import Reckon.Native
import Reckon.Term
import Reckon.Expr.Printer

/-!
# Scopes

A scope holds constants, native functions, functions and values of variables, each under its name
and its kind, in the order in which they were first added.
-/

namespace Reckon

/-- The constant as a function without parameters. -/
def Constant.signature (c : Constant) : String :=
  signatureText c.name []

/-- The constant as a listing. -/
def Constant.summary (c : Constant) : String :=
  definitionSummary "Constant" c.name []

/-- The kinds of entries; entries of different kinds may have the same name. -/
inductive EntryKind where
  | constant
  | native
  | function
  | value
deriving DecidableEq, Repr

/-- What a name stands for. -/
inductive Entry where
  | constant (c : Constant)
  | native (n : Native)
  | function (f : Function)
  | value (t : Term)
deriving Inhabited

namespace Entry

def kind : Entry → EntryKind
  | constant _ => .constant
  | native _ => .native
  | function _ => .function
  | value _ => .value

/-- The entry as a line of a listing. -/
def text (name : String) : Entry → String
  | constant c => c.text
  | native n => n.signature
  | function f => f.text
  | value t => name ++ " = " ++ t.text

end Entry

/-- Names with their entries, oldest first. -/
structure Scope where
  entries : List (String × Entry) := []
deriving Inhabited

namespace Scope

/-- The entry of a name and a kind. -/
def find? (scope : Scope) (name : String) (kind : EntryKind) : Option Entry :=
  (scope.entries.find? fun (n, entry) => n == name && entry.kind == kind).map (·.2)

def has (scope : Scope) (name : String) (kind : EntryKind) : Bool :=
  (scope.find? name kind).isSome

/-- The entries with a new one, which takes the place of one of the same name and kind. -/
def put (name : String) (entry : Entry) : List (String × Entry) → List (String × Entry)
  | [] => [(name, entry)]
  | (n, old) :: rest =>
    if n == name && old.kind == entry.kind then (n, entry) :: rest
    else (n, old) :: put name entry rest

def insert (scope : Scope) (name : String) (entry : Entry) : Scope :=
  ⟨put name entry scope.entries⟩

def erase (scope : Scope) (name : String) (kind : EntryKind) : Scope :=
  ⟨scope.entries.filter fun (n, entry) => !(n == name && entry.kind == kind)⟩

/-- The value of a variable. -/
def value? (scope : Scope) (name : String) : Option Term :=
  match scope.find? name .value with
  | some (.value t) => some t
  | _ => none

def function? (scope : Scope) (name : String) : Option Function :=
  match scope.find? name .function with
  | some (.function f) => some f
  | _ => none

def native? (scope : Scope) (name : String) : Option Native :=
  match scope.find? name .native with
  | some (.native n) => some n
  | _ => none

def constant? (scope : Scope) (name : String) : Option Constant :=
  match scope.find? name .constant with
  | some (.constant c) => some c
  | _ => none

def size (scope : Scope) : Nat :=
  scope.entries.length

/-- The entries as lines with `depth` tabs in front. -/
def lines (scope : Scope) (depth : Nat) : String :=
  "".intercalate (scope.entries.map fun (name, entry) =>
    String.ofList (List.replicate depth '\t') ++ entry.text name ++ "\n")

/-- The scope as a listing. -/
def text (scope : Scope) : String :=
  "Scope \x7b\n" ++ scope.lines 1 ++ "\x7d"

end Scope

end Reckon
