import Reckon.Expr.Basic

/-!
# The names in an expression

`Expr.names` lists the variables in order of first appearance; a definition hides its own.
`Expr.substitute` puts trees in place of variables, all at once.
-/

namespace Reckon

namespace Expr

mutual

/-- The variables of the tree that pass the test, added to those already seen. -/
def collectNames (keep : String → Bool) (seen : List String) : Expr → List String
  | var name => if seen.contains name || !keep name then seen else seen ++ [name]
  | unary _ e => collectNames keep seen e
  | binary _ _ l r => collectNames keep (collectNames keep seen l) r
  | call _ args => collectAllNames keep seen args
  | vector es => collectAllNames keep seen es
  | matrix rows => collectAllNames keep seen rows
  | literal .. => seen
  | definition .. => seen
  | empty => seen

/-- `collectNames` over several trees. -/
def collectAllNames (keep : String → Bool) (seen : List String) : List Expr → List String
  | [] => seen
  | e :: es => collectAllNames keep (collectNames keep seen e) es

end

/-- The variables of the tree, in order of first appearance. -/
def names (e : Expr) : List String :=
  collectNames (fun _ => true) [] e

/-- The variable occurs in the tree. -/
def mentions (e : Expr) (name : String) : Bool :=
  e.names.contains name

/-- Trees for variables; the first entry of a name counts. -/
abbrev Bindings := List (String × Expr)

mutual

/-- The tree with every variable that has an entry replaced by its tree. The parameters of a
definition keep their meaning in its body. -/
def substitute (bindings : Bindings) : Expr → Expr
  | var name => (bindings.lookup name).getD (.var name)
  | unary sign e => .unary sign (substitute bindings e)
  | binary op attached l r => .binary op attached (substitute bindings l) (substitute bindings r)
  | call name args => .call name (substituteAll bindings args)
  | definition name params body source =>
    .definition name params
      (substitute (bindings.filter fun entry => !params.contains entry.1) body) source
  | vector es => .vector (substituteAll bindings es)
  | matrix rows => .matrix (substituteAll bindings rows)
  | literal n written => .literal n written
  | empty => .empty

/-- `substitute` in several trees. -/
def substituteAll (bindings : Bindings) : List Expr → List Expr
  | [] => []
  | e :: es => substitute bindings e :: substituteAll bindings es

end

end Expr

end Reckon
