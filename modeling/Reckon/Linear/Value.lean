import Reckon.Grid.Basic
import Reckon.Binary64.Shortest

/-!
# Matrices and vectors of doubles

The values of linear algebra and how they are built from entries. A matrix is given by rows or by
columns, which all have the length of the first one.
-/

namespace Reckon.Linear

abbrev Matrix64 := Grid Float

abbrev Vector64 := List Float

inductive Value where
  | matrix (m : Matrix64)
  | vector (v : Vector64)
  | number (x : Float)
  | text (s : String)

/-- An entry as it is given: a number, or a text that denotes one. -/
inductive Entry where
  | number (x : Float)
  | text (s : String)

/-- A column as it is given: a list of entries, or something of another kind. -/
inductive Column where
  | entries (es : List Entry)
  | other (kind : String)

namespace Value

/-- What a value is, in the words of messages. -/
def kind : Value → String
  | matrix _ => "matrix"
  | vector _ => "vector"
  | number _ => "float"
  | text _ => "str"

/-- The matrix that an operation needs. -/
def toMatrix (v : Value) (operation : String) : Except Fault Matrix64 :=
  match v with
  | matrix m => .ok m
  | v => .error (.noOperation v.kind operation)

/-- The vector that an operation needs. -/
def toVector (v : Value) (operation : String) : Except Fault Vector64 :=
  match v with
  | vector xs => .ok xs
  | v => .error (.noOperation v.kind operation)

end Value

/-- The double that an entry denotes. -/
def Entry.read : Entry → Except Fault Float
  | .number x => .ok x
  | .text s =>
    match Binary64.ofText? s with
    | some x => .ok x
    | none => .error (.domain (.floatText s))

def readVector (es : List Entry) : Except Fault Vector64 :=
  es.mapM Entry.read

/-- The columns from left to right, each of the length `height`. -/
def readColumns (height : Nat) : List Column → Except Fault (List Vector64)
  | [] => .ok []
  | .other kind :: _ => .error (.kind (.column kind))
  | .entries es :: rest =>
    if es.length = height then do
      let column ← readVector es
      return column :: (← readColumns height rest)
    else .error (.domain .raggedColumns)

/-- The height that the first column sets. -/
def heightOf : List Column → Nat
  | .entries es :: _ => es.length
  | _ => 0

/-- The matrix of given columns. -/
def ofColumns (columns : List Column) : Except Fault Matrix64 :=
  return Grid.ofColumns (heightOf columns) (← readColumns (heightOf columns) columns)

/-- The matrix of given rows; its entries are read column by column. -/
def ofRows (rows : List (List Entry)) : Except Fault Matrix64 :=
  if Grid.regular rows then
    let g := Grid.ofRows rows
    ofColumns (g.columns.map .entries)
  else .error (.domain .raggedRows)

/-- The identity of at least one row. -/
def identity (n : Int) : Except Fault Matrix64 :=
  if 0 < n then .ok (Grid.identity n.toNat) else .error (.domain .identitySize)

/-! ## Numeric arrays -/

/-- Numbers in nested lists. -/
inductive Nested where
  | entry (e : Entry)
  | list (items : List Nested)
deriving Inhabited

/-- The part that two lists have in common at their beginning. -/
def commonStart : List Nat → List Nat → List Nat
  | a :: as, b :: bs => if a = b then a :: commonStart as bs else []
  | _, _ => []

/-- The dimensions of an array, and whether it has them throughout. -/
structure Shape where
  dimensions : List Nat
  regular : Bool

/-- The dimensions that two parts of an array share. -/
def Shape.join (s t : Shape) : Shape :=
  ⟨commonStart s.dimensions t.dimensions, s.regular && t.regular && s.dimensions == t.dimensions⟩

mutual

/-- The shape of an array; a number has no dimensions. -/
def Nested.shape : Nested → Shape
  | .entry _ => ⟨[], true⟩
  | .list items =>
    let inner := Nested.shapes items
    ⟨items.length :: inner.dimensions, inner.regular⟩

/-- The shape that several arrays share. -/
def Nested.shapes : List Nested → Shape
  | [] => ⟨[], true⟩
  | [item] => item.shape
  | item :: items => item.shape.join (Nested.shapes items)

end

/-- The entries at the first level of an array. -/
def Nested.entries : Nested → List Entry
  | .entry e => [e]
  | .list items => items.filterMap fun item =>
    match item with
    | .entry e => some e
    | .list _ => none

/-- The matrix of an array with two dimensions. -/
def ofNested (a : Nested) : Except Fault Matrix64 :=
  match a, a.shape with
  | .list rows, ⟨[_, _], true⟩ =>
    return Grid.ofRows (← rows.mapM fun row => readVector row.entries)
  | _, ⟨_, true⟩ => .error (.shape .notTwoDimensional)
  | _, ⟨dimensions, false⟩ => .error (.domain (.raggedArray dimensions))

end Reckon.Linear
