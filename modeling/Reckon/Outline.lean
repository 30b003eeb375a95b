import Reckon.Expr.Printer

/-!
# Outlines

A tree of an expression drawn with one line for each node. The lines of siblings are sorted as
texts, so the eleventh child stands before the third.
-/

namespace Reckon

/-- A tree of lines. -/
inductive Outline where
  | node (line : String) (children : List Outline)

namespace Outline

def line : Outline → String
  | node line _ => line

mutual

/-- The lines of the tree; `first` stands before its own line and `rest` before those of its
children. -/
def render (first rest : String) : Outline → String
  | node line children => first ++ line ++ "\n" ++ renderAll rest children

/-- The lines of siblings; the last one has a corner. -/
def renderAll (indent : String) : List Outline → String
  | [] => ""
  | [last] => render (indent ++ "└── ") (indent ++ "    ") last
  | child :: others =>
    render (indent ++ "├── ") (indent ++ "│   ") child ++ renderAll indent others

end

/-- The drawing of a tree. -/
def text (tree : Outline) : String :=
  render "" "" tree

end Outline

namespace Expr

/-- The number of columns of a matrix. -/
def columnCount : List Expr → Nat
  | [] => 0
  | row :: _ => row.elements.length

/-- What a node shows of itself. -/
def tag : Expr → String
  | literal n _ => "LiteralNode(" ++ n.scientific ++ ")"
  | var name => "VariableNode(" ++ name ++ ")"
  | unary sign _ => "UnaryNode(" ++ sign.symbol ++ ")"
  | binary op .. => "BinaryNode(" ++ op.symbol ++ ")"
  | call name _ => "FunctionCallNode(" ++ name ++ ")"
  | definition name params .. => "FunctionDefinitionNode(" ++ signatureText name params ++ ")"
  | vector es => "VectorNode(" ++ toString es.length ++ ")"
  | matrix rows =>
    "MatrixNode(" ++ toString rows.length ++ "x" ++ toString (columnCount rows) ++ ")"
  | empty => "SpaceNode"

/-- A node with its place among its siblings and its children. -/
def numbered (index : Nat) (tag : String) (children : List Outline) : Outline :=
  .node (toString index ++ " " ++ tag) (children.mergeSort fun a b => a.line ≤ b.line)

mutual

/-- The outline of the tree that is the `index`-th of its siblings. -/
def outline (index : Nat) : Expr → Outline
  | e@(unary _ child) => numbered index e.tag [child.outline 0]
  | e@(binary _ _ l r) => numbered index e.tag [l.outline 0, r.outline 1]
  | e@(call _ args) => numbered index e.tag (outlines 0 args)
  | e@(definition _ _ body _) => numbered index e.tag [body.outline 0]
  | e@(vector es) => numbered index e.tag (outlines 0 es)
  | e@(matrix rows) => numbered index e.tag (outlines 0 rows)
  | e => numbered index e.tag []

/-- The outlines of siblings, the first of which has the given index. -/
def outlines (index : Nat) : List Expr → List Outline
  | [] => []
  | e :: es => e.outline index :: outlines (index + 1) es

end

/-- The tree drawn under its text. -/
def drawing (e : Expr) : String :=
  let heading := match e with
    | definition .. => "Definition "
    | _ => "Expression "
  heading ++ e.text ++ "\n" ++ (e.outline 0).text ++ "\n"

end Expr

end Reckon
