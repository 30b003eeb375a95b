import Reckon.Proofs.Evaluate.Text
import Reckon.Proofs.Expr.Letters
import Reckon.Proofs.Frame.Request
import Reckon.Proofs.Scope

/-!
# Requests where variables have values

A request with numbers for some variables is answered like one without them in a context with one
more scope, which holds these numbers (`evaluateWith_supplied`). If the variables are letters, every
tree without calls is read there from the same text as in a new session (`read_supply`).
-/

namespace Reckon

open Calc Context

/-- Numbers as the values of variables. -/
def supplied (ρ : List (String × Decimal)) : List (String × Supplied) :=
  ρ.map fun (name, n) => (name, .term (.numeric n))

/-- The scope with numbers as the values of variables. -/
def Scope.supply (scope : Scope) (ρ : List (String × Decimal)) : Scope :=
  ρ.foldl (fun scope (name, n) => scope.insert name (.value (.numeric n))) scope

/-- The context in which a request with these values is answered. -/
def Context.supply (ctx : Context) (ρ : List (String × Decimal)) : Context :=
  if ρ.isEmpty then ctx else { ctx with inner := Scope.supply {} ρ :: ctx.inner }

theorem result_withScope {α : Type} {act : Calc α} {ctx ctx' : Context}
    (popped : (act ctx.push).2.pop = .ok ctx') : (withScope act ctx).1 = (act ctx.push).1 := by
  unfold withScope
  rcases run : act ctx.push with ⟨result, inner⟩
  rw [run] at popped
  dsimp only
  rw [popped]

theorem bindAll_supplied (ctx : Context) (scope : Scope) (outer : List Scope)
    (ρ : List (String × Decimal)) :
    bindAll (supplied ρ) { ctx with inner := scope :: outer } =
      (.ok (), { ctx with inner := scope.supply ρ :: outer }) := by
  induction ρ generalizing scope with
  | nil => rfl
  | cons entry ρ ih => exact ih (scope.insert entry.1 (.value (.numeric entry.2)))

/-- Values are given in a scope of their own. -/
theorem evaluateWith_supplied (ctx : Context) (ρ : List (String × Decimal)) (source : String) :
    (evaluateWith (supplied ρ) source ctx).1 = (evaluate source (ctx.supply ρ)).1 := by
  unfold evaluateWith Context.supply
  cases ρ with
  | nil => rfl
  | cons entry ρ =>
    -- the scope that holds the values is closed at the end, which cannot fail
    rw [if_neg (by simp [supplied]), if_neg (by simp)]
    have body : (bindAll (supplied (entry :: ρ)) >>= fun _ => evaluate source) ctx.push =
        evaluate source { ctx with inner := Scope.supply {} (entry :: ρ) :: ctx.inner } :=
      bind_ok (bindAll_supplied ctx {} ctx.inner (entry :: ρ))
    have confined : Keeps Confined (bindAll (supplied (entry :: ρ)) >>= fun _ => evaluate source) :=
      (keeps_bindAll _).bind fun _ _ => keeps_evaluate (fun f _ => keeps_define f) source
    obtain ⟨ctx', popped, -⟩ := (confined.rel ctx.push).pop
    exact (result_withScope popped).trans (congrArg Prod.fst body)

/-! ## Looking up -/

namespace Scope

theorem mem_of_value?_supply {scope : Scope} {ρ : List (String × Decimal)} {name : String}
    {t : Term} (found : (scope.supply ρ).value? name = some t) :
    (∃ n, (name, n) ∈ ρ ∧ t = .numeric n) ∨ scope.value? name = some t := by
  induction ρ generalizing scope with
  | nil => exact .inr found
  | cons entry ρ ih =>
    rcases ih found with ⟨n, member, rfl⟩ | here
    · exact .inl ⟨n, .tail _ member, rfl⟩
    · rw [value?_insert_value] at here
      split at here
      next same =>
        subst same
        cases here
        exact .inl ⟨entry.2, .head _, rfl⟩
      next => exact .inr here

theorem isSome_value?_supply {scope : Scope} {ρ : List (String × Decimal)} {name : String}
    (given : name ∈ ρ.map Prod.fst ∨ (scope.value? name).isSome = true) :
    ((scope.supply ρ).value? name).isSome = true := by
  induction ρ generalizing scope with
  | nil => exact given.resolve_left List.not_mem_nil
  | cons entry ρ ih =>
    refine ih ?_
    rw [value?_insert_value]
    by_cases same : name = entry.1
    · right
      rw [if_pos same]
      rfl
    · rw [if_neg same]
      rcases given with member | before
      · exact .inl ((List.mem_cons.1 member).resolve_left same)
      · exact .inr before

theorem function?_supply (scope : Scope) (ρ : List (String × Decimal)) (name : String) :
    (scope.supply ρ).function? name = scope.function? name := by
  induction ρ generalizing scope with
  | nil => rfl
  | cons entry ρ ih =>
    exact (ih (scope.insert entry.1 _)).trans (function?_insert_value scope entry.1 _ name)

end Scope

namespace Context

variable {ctx : Context} {ρ : List (String × Decimal)} {name : String}

theorem params_supply (ctx : Context) (ρ : List (String × Decimal)) :
    (ctx.supply ρ).params = ctx.params := by
  unfold supply
  split <;> rfl

theorem globals_supply (ctx : Context) (ρ : List (String × Decimal)) :
    (ctx.supply ρ).globals = ctx.globals := by
  unfold supply
  split <;> rfl

theorem isFunction_supply (ctx : Context) (ρ : List (String × Decimal)) :
    (ctx.supply ρ).isFunction = ctx.isFunction := by
  funext name
  have functions : (ctx.supply ρ).lookupFunction name = ctx.lookupFunction name := by
    unfold supply
    split
    next => rfl
    next =>
      have none : (Scope.supply {} ρ).function? name = none := Scope.function?_supply {} ρ name
      rw [lookupFunction, lookupFunction, scopes, scopes, List.cons_append, List.findSome?_cons,
        none]
  rw [isFunction, isFunction, isNative, isNative, globals_supply, functions]

/-- In a new session only what is given has a value. -/
theorem mem_of_lookupVariable_supply (default : ctx.IsDefault) {t : Term}
    (found : (ctx.supply ρ).lookupVariable name = some t) :
    ∃ n, (name, n) ∈ ρ ∧ t = .numeric n := by
  have nothing : ctx.lookupVariable name = none := default.lookupVariable_eq_none
  unfold supply at found
  split at found
  next =>
    rw [nothing] at found
    cases found
  next =>
    -- the new scope is the innermost one, and behind it only the global one is looked at
    have globals : ctx.globals.value? name = none := (Option.or_eq_none_iff.1 nothing).2
    have here : ((Scope.supply {} ρ).value? name).or (ctx.globals.value? name) = some t := found
    rw [globals, Option.or_none] at here
    rcases Scope.mem_of_value?_supply here with given | other
    · exact given
    · cases other

theorem isBound_supply (member : name ∈ ρ.map Prod.fst) :
    (ctx.supply ρ).isBound name = true := by
  have some : ¬ ρ.isEmpty = true := by
    intro none
    rw [List.isEmpty_iff.1 none] at member
    exact absurd member List.not_mem_nil
  have here : ((Scope.supply {} ρ).value? name).isSome = true :=
    Scope.isSome_value?_supply (.inl member)
  rw [supply, if_neg some, isBound, lookupVariable]
  change (((Scope.supply {} ρ).value? name).or (ctx.globals.value? name)).isSome = true
  rw [Option.isSome_or, here, Bool.true_or]

/-- Letters with values are all that the reader gets to know. -/
theorem gains_supply (default : ctx.IsDefault)
    (letters : ∀ name ∈ ρ.map Prod.fst, name.toList.length = 1) :
    ctx.vocabulary.Gains (ctx.supply ρ).vocabulary where
  isFunction := isFunction_supply ctx ρ
  known {name} known := by
    change (ctx.isConstant name || ctx.isBound name) = true at known
    change ((ctx.supply ρ).isConstant name || (ctx.supply ρ).isBound name) = true
    rw [isBound, default.lookupVariable_eq_none, Option.isSome_none, Bool.or_false] at known
    rw [isConstant, globals_supply]
    exact Bool.or_eq_true_iff.2 (.inl known)
  long {name} long := by
    change ((ctx.supply ρ).isConstant name || (ctx.supply ρ).isBound name) =
      (ctx.isConstant name || ctx.isBound name)
    have free : (ctx.supply ρ).isBound name = false := by
      rw [isBound, Option.isSome_eq_false_iff, Option.isNone_iff_eq_none]
      refine Option.eq_none_iff_forall_ne_some.2 fun t found => ?_
      obtain ⟨n, member, -⟩ := mem_of_lookupVariable_supply default found
      exact long (letters name (List.mem_map_of_mem member))
    rw [free, isBound, default.lookupVariable_eq_none, isConstant, isConstant, globals_supply]
    rfl

/-- A tree without calls is read from the same text. -/
theorem read_supply (default : ctx.IsDefault)
    (letters : ∀ name ∈ ρ.map Prod.fst, name.toList.length = 1) {source : String} {e : Expr}
    (done : ctx.read source [] = .ok e) (arithmetic : e.isArithmetic = true) :
    (ctx.supply ρ).read source [] = .ok e :=
  read_eq_ok.2 ((gains_supply default letters).parse (read_eq_ok.1 done) arithmetic)

end Context

end Reckon
