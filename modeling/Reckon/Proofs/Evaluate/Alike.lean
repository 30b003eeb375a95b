import Reckon.Proofs.Context.Names
import Reckon.Proofs.Expr.WithinNames
import Reckon.Proofs.Frame.Evaluate

/-!
# Contexts that look alike to a tree

`Context.Alike P F` relates two contexts, each inside of some scope, that cannot be told apart by
variables with `P` and functions with `F`; how many scopes there are and what else is in them does
not matter. `Calc.Respects` says that a computation has the same result on both sides and keeps the
relation, with one rule for each way to build a computation. Generated names are the same on both
sides although the search for them is bounded by the number of entries, which differs: both searches
end before their bounds.

A tree that keeps to such names has the same value in both (`alike_evalWith`). A call opens a scope
in which only the parameters and the global variables are seen, so for a call it is enough that the
functions are the same (`alike_callFunction`).
-/

namespace Reckon

namespace Context

/-- The contexts have the same settings, the same global scope, the same values of variables with
`P` and the same functions with `F`. All names that are still to be generated have `F`. -/
structure Alike (P F : String → Prop) (ctx ctx' : Context) : Prop where
  params : ctx.params = ctx'.params
  generated : ctx.generated = ctx'.generated
  globals : ctx.globals = ctx'.globals
  inside : ctx.inner ≠ []
  inside' : ctx'.inner ≠ []
  values : ∀ name, P name → ctx.lookupVariable name = ctx'.lookupVariable name
  functions : ∀ name, F name → ctx.lookupFunction name = ctx'.lookupFunction name
  bodies : ∀ name f, F name → ctx.lookupFunction name = some f →
    f.body.WithinNames (fun _ => True) F
  later : ∀ n, ctx.generated ≤ n → F (generatedName n)

variable {P F : String → Prop} {ctx ctx' : Context} {name : String}

/-! ## Changes to the innermost scope -/

theorem globals_updateCurrent (inside : ctx.inner ≠ []) (f : Scope → Scope) :
    (ctx.updateCurrent f).globals = ctx.globals := by
  unfold updateCurrent
  split
  next empty => exact absurd empty inside
  next => rfl

theorem inner_updateCurrent (inside : ctx.inner ≠ []) (f : Scope → Scope) :
    (ctx.updateCurrent f).inner ≠ [] := by
  unfold updateCurrent
  split
  next empty => exact absurd empty inside
  next => exact List.cons_ne_nil _ _

theorem current_updateCurrent (ctx : Context) (f : Scope → Scope) :
    (ctx.updateCurrent f).current = f ctx.current := by
  obtain ⟨params, globals, inner, generated⟩ := ctx
  cases inner <;> rfl

theorem settings_updateCurrent (ctx : Context) (f : Scope → Scope) :
    (ctx.updateCurrent f).params = ctx.params ∧
      (ctx.updateCurrent f).generated = ctx.generated := by
  obtain ⟨params, globals, inner, generated⟩ := ctx
  cases inner <;> exact ⟨rfl, rfl⟩

theorem lookupFunction_bind (ctx : Context) (name : String) (t : Term) :
    (ctx.bind name t).lookupFunction = ctx.lookupFunction := by
  funext n
  rw [lookupFunction, lookupFunction, Context.bind, scopes_updateCurrent, ctx.scopes_eq,
    List.findSome?_cons, List.findSome?_cons, Scope.function?_insert_value, List.tail_cons]

theorem lookupVariable_bind (inside : ctx.inner ≠ []) (name : String) (t : Term) (n : String) :
    (ctx.bind name t).lookupVariable n = if n = name then some t else ctx.lookupVariable n := by
  rw [lookupVariable, lookupVariable, Context.bind, current_updateCurrent,
    globals_updateCurrent inside, Scope.value?_insert_value]
  split <;> rfl

theorem lookupFunction_insert (ctx : Context) (f : Function) (n : String) :
    (ctx.updateCurrent (·.insert f.name (.function f))).lookupFunction n =
      if n = f.name then some f else ctx.lookupFunction n := by
  rw [lookupFunction, lookupFunction, scopes_updateCurrent, ctx.scopes_eq, List.findSome?_cons,
    List.findSome?_cons, Scope.function?_insert_function, List.tail_cons]
  by_cases same : n = f.name
  · rw [if_pos same, if_pos same]
  · rw [if_neg same, if_neg same]

theorem lookupVariable_insert (inside : ctx.inner ≠ []) (f : Function) (n : String) :
    (ctx.updateCurrent (·.insert f.name (.function f))).lookupVariable n =
      ctx.lookupVariable n := by
  rw [lookupVariable, lookupVariable, current_updateCurrent, globals_updateCurrent inside,
    Scope.value?_insert_function]

namespace Alike

theorem push (alike : ctx.Alike P F ctx') : ctx.push.Alike (fun _ => True) F ctx'.push where
  params := alike.params
  generated := alike.generated
  globals := alike.globals
  inside := List.cons_ne_nil _ _
  inside' := List.cons_ne_nil _ _
  values name _ := congrArg (fun globals : Scope => globals.value? name) alike.globals
  functions := alike.functions
  bodies := alike.bodies
  later := alike.later

/-- Both innermost scopes are changed in the same way. -/
theorem updateCurrent (alike : ctx.Alike P F ctx') (change : Scope → Scope)
    (values : ∀ name, P name → (ctx.updateCurrent change).lookupVariable name =
      (ctx'.updateCurrent change).lookupVariable name)
    (functions : ∀ name, F name → (ctx.updateCurrent change).lookupFunction name =
      (ctx'.updateCurrent change).lookupFunction name)
    (bodies : ∀ name f, F name → (ctx.updateCurrent change).lookupFunction name = some f →
      f.body.WithinNames (fun _ => True) F) :
    (ctx.updateCurrent change).Alike P F (ctx'.updateCurrent change) where
  params := by rw [(settings_updateCurrent _ _).1, (settings_updateCurrent _ _).1, alike.params]
  generated := by
    rw [(settings_updateCurrent _ _).2, (settings_updateCurrent _ _).2, alike.generated]
  globals := by
    rw [globals_updateCurrent alike.inside, globals_updateCurrent alike.inside', alike.globals]
  inside := inner_updateCurrent alike.inside _
  inside' := inner_updateCurrent alike.inside' _
  values := values
  functions := functions
  bodies := bodies
  later n le := by
    rw [(settings_updateCurrent _ _).2] at le
    exact alike.later n le

theorem bind (alike : ctx.Alike P F ctx') (name : String) (t : Term) :
    (ctx.bind name t).Alike P F (ctx'.bind name t) := by
  refine alike.updateCurrent _ (fun n known => ?_) (fun n known => ?_) fun n f known found => ?_
  · change (ctx.bind name t).lookupVariable n = (ctx'.bind name t).lookupVariable n
    rw [lookupVariable_bind alike.inside, lookupVariable_bind alike.inside', alike.values n known]
  · change (ctx.bind name t).lookupFunction n = (ctx'.bind name t).lookupFunction n
    rw [lookupFunction_bind, lookupFunction_bind, alike.functions n known]
  · change (ctx.bind name t).lookupFunction n = some f at found
    rw [lookupFunction_bind] at found
    exact alike.bodies n f known found

theorem bindAll (bindings : List (String × Term)) (alike : ctx.Alike P F ctx') :
    Alike P F (bindings.foldl (fun ctx (name, t) => ctx.bind name t) ctx)
      (bindings.foldl (fun ctx (name, t) => ctx.bind name t) ctx') := by
  induction bindings generalizing ctx ctx' with
  | nil => exact alike
  | cons binding bindings ih => exact ih (alike.bind _ _)

theorem insert (alike : ctx.Alike P F ctx') {f : Function}
    (body : f.body.WithinNames (fun _ => True) F) :
    Alike P F (ctx.updateCurrent (·.insert f.name (.function f)))
      (ctx'.updateCurrent (·.insert f.name (.function f))) := by
  refine alike.updateCurrent _ (fun n known => ?_) (fun n known => ?_) fun n g known found => ?_
  · rw [lookupVariable_insert alike.inside, lookupVariable_insert alike.inside',
      alike.values n known]
  · rw [lookupFunction_insert, lookupFunction_insert, alike.functions n known]
  · rw [lookupFunction_insert] at found
    split at found
    · cases found
      exact body
    · exact alike.bodies n g known found

/-- The scopes stay as they are, and the settings are changed in the same way. -/
theorem advance (alike : ctx.Alike P F ctx') {after after' : Context}
    (advances : ctx.Advances after) (advances' : ctx'.Advances after')
    (params : after.params = after'.params) (generated : after.generated = after'.generated) :
    after.Alike P F after' where
  params := params
  generated := generated
  globals := by rw [advances.globals, advances'.globals, alike.globals]
  inside := by
    rw [advances.inner]
    exact alike.inside
  inside' := by
    rw [advances'.inner]
    exact alike.inside'
  values n known := by
    rw [advances.lookupVariable_eq, advances'.lookupVariable_eq, alike.values n known]
  functions n known := by
    rw [lookupFunction, lookupFunction, advances.scopes, advances'.scopes]
    exact alike.functions n known
  bodies n f known found := by
    rw [lookupFunction, advances.scopes] at found
    exact alike.bodies n f known found
  later n le := alike.later n (Nat.le_trans advances.generated le)

theorem isNative_eq (alike : ctx.Alike P F ctx') : ctx.isNative = ctx'.isNative := by
  funext n
  rw [isNative, isNative, alike.globals]

theorem isConstant_eq (alike : ctx.Alike P F ctx') : ctx.isConstant = ctx'.isConstant := by
  funext n
  rw [isConstant, isConstant, alike.globals]

theorem native?_eq (alike : ctx.Alike P F ctx') : ctx.native? = ctx'.native? := by
  funext n
  rw [native?, native?, alike.globals]

end Alike

/-! ## Generated names -/

/-- The bound of the search does not matter once a free name is found. -/
theorem freshFrom_eq {taken : String → Bool} {fuel fuel' : Nat} {k : Nat}
    (free : taken (freshFrom taken fuel k).1 = false)
    (free' : taken (freshFrom taken fuel' k).1 = false) :
    freshFrom taken fuel k = freshFrom taken fuel' k := by
  induction fuel generalizing fuel' k with
  | zero =>
    cases fuel' with
    | zero => rfl
    | succ fuel' =>
      -- the search that may go no further has found a free name, so the other one stops there
      have here : taken (generatedName k) = false := free
      rw [freshFrom, freshFrom, here]
      rfl
  | succ fuel ih =>
    cases here : taken (generatedName k) with
    | false =>
      cases fuel' <;> simp [freshFrom, here]
    | true =>
      cases fuel' with
      | zero =>
        have free' : taken (generatedName k) = false := free'
        rw [here] at free'
        cases free'
      | succ fuel' =>
        simp only [freshFrom, here, if_true] at free free' ⊢
        exact ih free free'

/-- The search does not depend on names that it does not try. -/
theorem freshFrom_congr {taken taken' : String → Bool} {n : Nat}
    (same : ∀ m, n ≤ m → taken (generatedName m) = taken' (generatedName m)) (fuel : Nat) :
    freshFrom taken fuel n = freshFrom taken' fuel n := by
  induction fuel generalizing n with
  | zero => rfl
  | succ fuel ih =>
    rw [freshFrom, freshFrom, same n (Nat.le_refl n), ih fun m le => same m (Nat.le_of_succ_le le)]

/-- Two searches that end at free names and agree on the names that they try end at the same. -/
theorem freshFrom_eq_of_same (taken taken' : String → Bool) {fuel fuel' n : Nat}
    (same : ∀ m, n ≤ m → taken (generatedName m) = taken' (generatedName m))
    (free : taken (freshFrom taken fuel n).1 = false)
    (free' : taken' (freshFrom taken' fuel' n).1 = false) :
    freshFrom taken fuel n = freshFrom taken' fuel' n := by
  rw [← freshFrom_congr same fuel'] at free' ⊢
  obtain ⟨skipped, -, found, -⟩ := exists_freshFrom taken fuel' n
  have last : (freshFrom taken fuel' n).1 = generatedName (n + skipped) := congrArg Prod.fst found
  rw [last, ← same _ (Nat.le_add_right n skipped), ← last] at free'
  exact freshFrom_eq free free'

/-- Both sides generate the same name, and it is one of the shared ones. -/
theorem Alike.freshName_eq (alike : ctx.Alike P F ctx') :
    ctx.freshName.1 = ctx'.freshName.1 ∧
      ctx.freshName.2.generated = ctx'.freshName.2.generated ∧ F ctx.freshName.1 := by
  have shared : F ctx.freshName.1 := by
    obtain ⟨skipped, -, found, -⟩ := exists_freshName ctx
    rw [found]
    exact alike.later _ (Nat.le_add_right ctx.generated skipped)
  have free := ctx.freshName_not_taken
  have free' := ctx'.freshName_not_taken
  unfold freshName at free free' shared ⊢
  dsimp only at free free' shared ⊢
  rw [← alike.generated] at free' ⊢
  have found := freshFrom_eq_of_same (fun name => ctx.isFunction name || ctx.isConstant name)
    (fun name => ctx'.isFunction name || ctx'.isConstant name) (fun m le => by
      rw [isFunction, isFunction, alike.isNative_eq, alike.isConstant_eq,
        alike.functions _ (alike.later m le)]) free free'
  exact ⟨congrArg Prod.fst found, congrArg Prod.snd found, shared⟩

end Context

/-! ## Rules -/

namespace Calc

open Context

variable {α β : Type} {R : Context → Context → Prop} {P F : String → Prop}

/-- From related contexts the computation has the same result and leads to related contexts. -/
def Respects (R : Context → Context → Prop) (act : Calc α) : Prop :=
  ∀ ctx ctx', R ctx ctx' → (act ctx).1 = (act ctx').1 ∧ R (act ctx).2 (act ctx').2

theorem respects_lift (result : Except Fault α) : Respects R (lift result) :=
  fun _ _ related => ⟨rfl, related⟩

theorem respects_pure (a : α) : Respects R (pure a) :=
  fun _ _ related => ⟨rfl, related⟩

theorem respects_fail (fault : Fault) : Respects R (fail fault : Calc α) :=
  fun _ _ related => ⟨rfl, related⟩

theorem respects_decimal (result : Except Signal α) : Respects R (decimal result) :=
  respects_lift _

theorem respects_look {f : Context → α} (same : ∀ ctx ctx', R ctx ctx' → f ctx = f ctx') :
    Respects R (look f) :=
  fun ctx ctx' related => ⟨congrArg Except.ok (same ctx ctx' related), related⟩

theorem respects_update {f : Context → Context}
    (kept : ∀ ctx ctx', R ctx ctx' → R (f ctx) (f ctx')) : Respects R (update f) :=
  fun ctx ctx' related => ⟨rfl, kept ctx ctx' related⟩

/-- What follows may use what is known of the result. -/
theorem Respects.bind_known {act : Calc α} {next : α → Calc β} {Q : α → Prop}
    (first : Respects R act) (known : ∀ ctx ctx', R ctx ctx' → ∀ a, (act ctx).1 = .ok a → Q a)
    (second : ∀ a, Q a → Respects R (next a)) : Respects R (act >>= next) := by
  intro ctx ctx' related
  obtain ⟨same, after⟩ := first ctx ctx' related
  have known := known ctx ctx' related
  rcases run : act ctx with ⟨outcome, last⟩
  rcases run' : act ctx' with ⟨outcome', last'⟩
  rw [run, run'] at same after
  rw [run] at known
  cases outcome with
  | ok a =>
    obtain rfl : Except.ok a = outcome' := same
    rw [bind_ok run, bind_ok run']
    exact second a (known a rfl) last last' after
  | error fault =>
    obtain rfl : Except.error fault = outcome' := same
    rw [bind_error run, bind_error run']
    exact ⟨rfl, after⟩

theorem Respects.bind {act : Calc α} {next : α → Calc β} (first : Respects R act)
    (second : ∀ a, Respects R (next a)) : Respects R (act >>= next) :=
  first.bind_known (Q := fun _ => True) (fun _ _ _ _ _ => trivial) fun a _ => second a

/-- Nothing follows a failure. -/
theorem respects_fail_bind (fault : Fault) (next : α → Calc β) :
    Respects R (fail fault >>= next) := by
  intro ctx ctx' related
  rw [bind_error (fail_apply fault ctx), bind_error (fail_apply fault ctx')]
  exact ⟨rfl, related⟩

/-- What is looked at is the same on both sides, and something is known of it. -/
theorem Respects.look_bind {f : Context → α} {next : α → Calc β} {Q : α → Prop}
    (same : ∀ ctx ctx', R ctx ctx' → f ctx = f ctx') (known : ∀ ctx ctx', R ctx ctx' → Q (f ctx))
    (rest : ∀ a, Q a → Respects R (next a)) : Respects R (look f >>= next) :=
  (respects_look same).bind_known
    (fun ctx ctx' related _ done => Except.ok.inj done ▸ known ctx ctx' related) rest

/-- Of what happens in a scope of its own the result and the settings are left. -/
theorem withScope_eq {act : Calc α} (keeps : Keeps Confined act) (ctx : Context) :
    withScope act ctx = ((act ctx.push).1, { ctx with
      params := (act ctx.push).2.params, generated := (act ctx.push).2.generated }) := by
  obtain ⟨below, popped, advances⟩ := (keeps.rel ctx.push).pop
  obtain ⟨scope, outer, shape, rfl⟩ := pop_eq_ok.1 popped
  obtain rfl : outer = ctx.inner := advances.inner
  unfold withScope
  rcases run : act ctx.push with ⟨outcome, after⟩
  rw [run] at popped advances
  dsimp only at popped ⊢
  rw [popped, ← advances.globals]

/-- In a new scope all variables are the same on both sides, and it is dropped at the end. -/
theorem alike_withScope {act : Calc α} (keeps : Keeps Confined act)
    (inside : Respects (Alike (fun _ => True) F) act) : Respects (Alike P F) (withScope act) := by
  intro ctx ctx' alike
  obtain ⟨same, after⟩ := inside _ _ alike.push
  have advances : ctx.Advances (withScope act ctx).2 := (keeps_withScope keeps).rel ctx
  have advances' : ctx'.Advances (withScope act ctx').2 := (keeps_withScope keeps).rel ctx'
  rw [withScope_eq keeps] at advances advances' ⊢
  rw [withScope_eq keeps]
  exact ⟨same, alike.advance advances advances' after.params after.generated⟩

theorem alike_define {f : Function} (name : F f.name)
    (body : f.body.WithinNames (fun _ => True) F) : Respects (Alike P F) (define f) := by
  intro ctx ctx' alike
  -- what a definition is refused for is the same on both sides
  unfold define Context.define
  rw [alike.isNative_eq, alike.isConstant_eq, alike.functions _ name]
  cases ctx'.isNative f.name with
  | true => exact ⟨rfl, alike⟩
  | false =>
    cases ctx'.isConstant f.name with
    | true => exact ⟨rfl, alike⟩
    | false =>
      cases (ctx'.lookupFunction f.name).isSome with
      | true => exact ⟨rfl, alike⟩
      | false => exact ⟨rfl, alike.insert body⟩

theorem alike_freshName : Respects (Alike P F) freshName := by
  intro ctx ctx' alike
  obtain ⟨name, generated, -⟩ := alike.freshName_eq
  refine ⟨congrArg Except.ok name, ?_⟩
  have advances : Context.Advances ctx ctx.freshName.2 := keeps_freshName.rel ctx
  have advances' : Context.Advances ctx' ctx'.freshName.2 := keeps_freshName.rel ctx'
  exact alike.advance advances advances' alike.params generated

end Calc

open Calc Context

/-! ## Series -/

section Trees

variable {P F : String → Prop}

theorem alike_raisePrecision (x : Decimal) : Respects (Alike P F) (raisePrecision x) := by
  intro ctx ctx' alike
  have advances : ctx.Advances (raisePrecision x ctx).2 := (keeps_raisePrecision x).rel ctx
  have advances' : ctx'.Advances (raisePrecision x ctx').2 := (keeps_raisePrecision x).rel ctx'
  have params : (raisePrecision x ctx).2.params = (raisePrecision x ctx').2.params ∧
      (raisePrecision x ctx).2.generated = (raisePrecision x ctx').2.generated := by
    rw [raisePrecision, update_apply, update_apply, alike.params]
    dsimp only
    split
    · exact ⟨rfl, alike.generated⟩
    · exact ⟨alike.params, alike.generated⟩
  exact ⟨rfl, alike.advance advances advances' params.1 params.2⟩

/-- What a helper function is, and where it goes. -/
theorem synthesize_eq_ok {ctx after : Context} {params : List String} {body : Expr} {f : Function}
    (done : synthesize params body ctx = (.ok f, after)) :
    f = ⟨ctx.freshName.1, params, body, none⟩ ∧ ctx.freshName.2.define f = .ok after := by
  unfold synthesize at done
  obtain ⟨name, ctx', named, rest⟩ := exists_of_bind done
  cases named
  obtain ⟨_, ctx'', defined, last⟩ := exists_of_bind rest
  cases last
  refine ⟨rfl, ?_⟩
  unfold Calc.define at defined
  split at defined
  next done =>
    cases defined
    exact done
  next => cases defined

theorem alike_synthesize {params : List String} {body : Expr}
    (within : body.WithinNames (fun _ => True) F) :
    Respects (Alike P F) (synthesize params body) := by
  unfold synthesize
  refine alike_freshName.bind_known (Q := F) (fun ctx ctx' alike name done => ?_) fun name known =>
    (alike_define (f := ⟨name, params, body, none⟩) known within).bind fun _ => respects_pure _
  cases done
  exact alike.freshName_eq.2.2

/-- Calls of shared functions have the same result on both sides. -/
def Caller.RespectsAlike (call : Caller) (F : String → Prop) : Prop :=
  ∀ P digits name inputs, F name → Respects (Alike P F) (call digits name inputs)

variable {call : Caller}

theorem alike_sample (calls : call.RespectsAlike F) (digits : Nat) {f : Function} (name : F f.name)
    (x : Decimal) : Respects (Alike P F) (sample call digits f x) := by
  unfold sample
  refine (calls _ _ _ _ name).bind fun t => ?_
  cases t with
  | numeric y => exact respects_pure y
  | symbolic s b => exact respects_fail _

theorem respects_sumFrom {R : Context → Context → Prop} {term : Decimal → Calc Decimal}
    (terms : ∀ x, Respects R (term x)) (p : Precision) (epsilon : Decimal) (fuel k : Nat)
    (total : Decimal) : Respects R (sumFrom term p epsilon fuel k total) := by
  induction fuel generalizing k total with
  | zero => exact respects_pure _
  | succ fuel ih =>
    unfold sumFrom
    refine (terms _).bind fun y => (respects_decimal _).bind fun next => ?_
    split
    · refine (respects_decimal _).bind fun change => (respects_decimal _).bind fun settled => ?_
      split
      · exact respects_pure _
      · exact ih _ _
    · exact ih _ _

/-- The check of a series and its body are the same on both sides, and its samples are calls. -/
theorem alike_seriesSum (advances : call.Advances) (calls : call.RespectsAlike F) {e : Expr}
    (within : e.WithinNames P F) : Respects (Alike P F) (seriesSum call e) := by
  unfold seriesSum
  refine (respects_look fun _ _ alike => alike.params).bind fun params => ?_
  refine Respects.look_bind (Q := fun body => body.WithinNames P F)
    (fun _ _ alike => replaceConstants_eq_of_withinNames alike.globals alike.values within)
    (fun _ _ _ => withinNames_replaceConstants within) fun body within => ?_
  refine (respects_look fun _ _ alike =>
    freeNames_eq_of_withinNames alike.globals alike.values within).bind fun names => ?_
  dsimp only
  split
  · exact respects_fail_bind _ _
  · refine (alike_withScope ?_ ?_).bind fun total => ?_
    · exact (keeps_synthesize _ _).bind fun f _ =>
        keeps_sumFrom (keeps_sample advances _ f) _ _ _ _ _
    · have free : body.WithinNames (fun _ => True) F := within.mono (fun _ _ => trivial) fun _ => id
      refine (alike_synthesize free).bind_known (Q := fun f => F f.name)
        (fun ctx ctx' alike f done => ?_) fun f name =>
        respects_sumFrom (alike_sample calls _ name) _ _ _ _ _
      obtain ⟨rfl, -⟩ := synthesize_eq_ok (Prod.ext_iff.2 ⟨done, rfl⟩)
      exact alike.freshName_eq.2.2
    · cases total with
      | none => exact respects_fail _
      | some total => exact respects_pure _

theorem alike_applyToExpressions (advances : call.Advances) (calls : call.RespectsAlike F)
    (n : Native) {args : List Expr} (within : Expr.AllWithinNames P F args) :
    Respects (Alike P F) (applyToExpressions call n args) := by
  unfold applyToExpressions
  refine (respects_lift _).bind fun _ => ?_
  split
  · exact alike_seriesSum advances calls within.1
  · exact respects_fail _

theorem alike_applyToValues (n : Native) (inputs : List Term) :
    Respects (Alike P F) (applyToValues n inputs) :=
  (respects_look fun _ _ alike => alike.params).bind fun _ => respects_lift _

/-! ## Trees -/

mutual

/-- One case for each way to build a tree. -/
theorem alike_evalWith (advances : call.Advances) (calls : call.RespectsAlike F) (digits : Nat) :
    ∀ {e : Expr}, e.WithinNames P F → Respects (Alike P F) (e.evalWith call digits)
  | .literal x written, _ => by
    rw [Expr.evalWith]
    cases written with
    | false => exact respects_pure _
    | true => exact (alike_raisePrecision x).bind fun _ => respects_pure _
  | .var name, known => by
    rw [Expr.evalWith]
    exact (respects_look fun _ _ alike => alike.values name known).bind fun _ => respects_pure _
  | .unary sign e, within => by
    rw [Expr.evalWith]
    refine (alike_evalWith advances calls digits (e := e) within).bind fun t => ?_
    cases sign with
    | negative => exact respects_lift _
    | positive => exact respects_pure _
  | .binary op attached l r, ⟨left, right⟩ => by
    rw [Expr.evalWith]
    exact (alike_evalWith advances calls digits left).bind fun _ =>
      (alike_evalWith advances calls digits right).bind fun _ =>
      (respects_look fun _ _ alike => congrArg Params.precision alike.params).bind fun _ =>
      respects_lift _
  | .call name args, ⟨known, all⟩ => by
    have arguments := alike_evalAllWith advances calls digits all
    rw [Expr.evalWith]
    refine (respects_look fun _ _ alike =>
      alike.functions name known).bind fun _ => ?_
    split
    · exact arguments.bind fun _ => calls _ _ _ _ known
    · refine (respects_look fun _ _ alike => congrFun alike.native?_eq name).bind fun native => ?_
      cases native with
      | none => exact respects_fail _
      | some f =>
        dsimp only
        split
        · exact alike_applyToExpressions advances calls f all
        · exact arguments.bind fun _ => alike_applyToValues f _
  | .definition name params body source, ⟨known, within⟩ => by
    rw [Expr.evalWith]
    exact (alike_define (f := ⟨name, params, body, source⟩) known
      (within.mono (fun _ _ => trivial) fun _ => id)).bind fun _ => respects_pure _
  | .vector _, _ => by
    rw [Expr.evalWith]
    exact respects_fail _
  | .matrix _, _ => by
    rw [Expr.evalWith]
    exact respects_fail _
  | .empty, _ => by
    rw [Expr.evalWith]
    exact respects_pure _

theorem alike_evalAllWith (advances : call.Advances) (calls : call.RespectsAlike F)
    (digits : Nat) : ∀ {es : List Expr}, Expr.AllWithinNames P F es →
      Respects (Alike P F) (Expr.evalAllWith call digits es)
  | [], _ => by
    rw [Expr.evalAllWith]
    exact respects_pure _
  | _ :: _, ⟨here, others⟩ => by
    rw [Expr.evalAllWith]
    exact (alike_evalWith advances calls digits here).bind fun _ =>
      (alike_evalAllWith advances calls digits others).bind fun _ => respects_pure _

end

end Trees

/-- The body of a function is evaluated in a scope that is new on both sides. -/
theorem alike_callFunction (F : String → Prop) (fuel : Nat) :
    Caller.RespectsAlike (callFunction fuel) F := by
  induction fuel with
  | zero => exact fun _ _ _ _ _ => respects_fail _
  | succ fuel ih =>
    intro P digits name inputs known
    unfold callFunction
    refine Respects.look_bind
      (Q := fun found => ∀ f, found = some f → f.body.WithinNames (fun _ => True) F)
      (fun _ _ alike => alike.functions name known)
      (fun _ _ alike f found => alike.bodies name f known found) fun found bodies => ?_
    cases found with
    | none => exact respects_fail _
    | some f =>
      refine (respects_lift _).bind fun _ => alike_withScope ?_ ?_
      · exact (keeps_of_rel (confined_bindAll _)).bind fun _ _ =>
          keeps_evalWith (keeps_callFunction fuel) (fun f _ => keeps_define f) digits f.body
            (Nat.le_refl _)
      · exact (respects_update fun _ _ alike => alike.bindAll _).bind fun _ =>
          alike_evalWith (keeps_callFunction fuel) ih digits (bodies f rfl)

end Reckon
