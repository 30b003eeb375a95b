import Reckon.Proofs.Evaluate.Alike

/-!
# A function does not see the variables of its caller

Two runs are compared: the contexts differ in the values of variables in the scopes above the
global one (`Context.SameButLocals`). A call opens a scope of its own in front of these, and nothing
that it evaluates looks past that scope for a variable. So it only sees that the two contexts have
the same functions, and contexts that are alike in that are alike to it (`alike_callFunction`).

Result: `call_ignores_locals`.
-/

namespace Reckon

/-- The scopes have the same functions. -/
def Scope.SameFunctions (scope scope' : Scope) : Prop :=
  ∀ name, scope.function? name = scope'.function? name

namespace Context

/-- Only the values of variables in the scopes above the global one differ. -/
structure SameButLocals (ctx ctx' : Context) : Prop where
  params : ctx.params = ctx'.params
  generated : ctx.generated = ctx'.generated
  globals : ctx.globals = ctx'.globals
  inner : List.Forall₂ Scope.SameFunctions ctx.inner ctx'.inner

variable {ctx ctx' : Context}

theorem findSome?_function?_eq {scopes scopes' : List Scope}
    (same : List.Forall₂ Scope.SameFunctions scopes scopes') (name : String) :
    scopes.findSome? (·.function? name) = scopes'.findSome? (·.function? name) := by
  induction same with
  | nil => rfl
  | cons first _ ih => rw [List.findSome?_cons, List.findSome?_cons, first name, ih]

theorem lookupFunction_eq (same : ctx.SameButLocals ctx') :
    ctx.lookupFunction = ctx'.lookupFunction := by
  funext name
  rw [lookupFunction, lookupFunction, scopes, scopes, same.globals, List.findSome?_append,
    List.findSome?_append, findSome?_function?_eq same.inner]

/-- Contexts with scopes of their own are alike to a tree that looks up no variable. -/
theorem SameButLocals.alike (same : ctx.SameButLocals ctx') (inside : ctx.inner ≠ []) :
    ctx.Alike (fun _ => False) (fun _ => True) ctx' where
  params := same.params
  generated := same.generated
  globals := same.globals
  inside := inside
  inside' none := by
    have related := same.inner
    rw [none, List.forall₂_nil_right_iff] at related
    exact inside related
  values _ none := none.elim
  functions name _ := congrFun (lookupFunction_eq same) name
  bodies _ f _ _ := f.body.withinNames_of_all (fun _ => trivial) fun _ => trivial
  later _ _ := trivial

/-- Outside of all scopes there are no variables that could differ. -/
theorem SameButLocals.eq (same : ctx.SameButLocals ctx') (outside : ctx.inner = []) :
    ctx = ctx' := by
  obtain ⟨params, globals, inner, generated⟩ := ctx
  obtain ⟨params', globals', inner', generated'⟩ := ctx'
  obtain ⟨rfl, rfl, rfl, related⟩ := same
  obtain rfl : inner = [] := outside
  cases related
  rfl

/-- What advances both contexts in the same way leaves the scopes as they are. -/
theorem SameButLocals.advance (same : ctx.SameButLocals ctx') {after after' : Context}
    (advances : ctx.Advances after) (advances' : ctx'.Advances after')
    (params : after.params = after'.params) (generated : after.generated = after'.generated) :
    after.SameButLocals after' where
  params := params
  generated := generated
  globals := by rw [advances.globals, advances'.globals, same.globals]
  inner := by
    rw [advances.inner, advances'.inner]
    exact same.inner

end Context

open Calc Context

/-- A call opens a scope of its own, so it looks up functions and nothing else in the scopes of its
callers. -/
theorem respects_callFunction (fuel digits : Nat) (name : String) (inputs : List Term) :
    Respects SameButLocals (callFunction fuel digits name inputs) := by
  intro ctx ctx' same
  have advances := (keeps_callFunction fuel digits name inputs).rel ctx
  have advances' := (keeps_callFunction fuel digits name inputs).rel ctx'
  by_cases outside : ctx.inner = []
  · obtain rfl := same.eq outside
    exact ⟨rfl, same.advance advances advances' rfl rfl⟩
  · obtain ⟨result, after⟩ := alike_callFunction (fun _ => True) fuel (fun _ => False) digits name
      inputs trivial ctx ctx' (same.alike outside)
    exact ⟨result, same.advance advances advances' after.params after.generated⟩

/-- A call has the same result, and the same fault, whatever values the variables of its callers
have. -/
theorem call_ignores_locals {ctx ctx' : Context} (same : ctx.SameButLocals ctx') (name : String)
    (inputs : List Term) :
    (call name inputs ctx).1 = (call name inputs ctx').1 ∧
      (call name inputs ctx).2.SameButLocals (call name inputs ctx').2 :=
  respects_callFunction depthLimit ambientDigits name inputs ctx ctx' same

/-- `f(x) = g(x)+y` and `g(x) = x*y` at top level, called where `y` has a value. -/
def callerContext (y : Decimal) : Context :=
  { Context.initial with
    globals := (Context.initial.globals.insert "f" (.function
        ⟨"f", ["x"], .binary .plus false (.call "g" [.var "x"]) (.var "y"), none⟩)).insert "g"
      (.function ⟨"g", ["x"], .binary .times false (.var "x") (.var "y"), none⟩)
    inner := [Scope.insert {} "y" (.value (.numeric y))] }

/-- The caller sees its own `y`; the functions that it calls do not. -/
theorem call_ignores_y :
    (callerContext 1).SameButLocals (callerContext 2) ∧
      (callerContext 1).lookupVariable "y" ≠ (callerContext 2).lookupVariable "y" ∧
      (call "f" [.numeric 3] (callerContext 1)).1 = .ok (.symbolic "3y+y" (some 2)) ∧
      (call "f" [.numeric 3] (callerContext 1)).1 =
        (call "f" [.numeric 3] (callerContext 2)).1 := by
  have same : (callerContext 1).SameButLocals (callerContext 2) := by
    refine ⟨rfl, rfl, rfl, .cons (fun name => ?_) .nil⟩
    rw [Scope.function?_insert_value, Scope.function?_insert_value]
  exact ⟨same, by decide +kernel, by decide +kernel,
    (call_ignores_locals same "f" [.numeric 3]).1⟩

end Reckon
