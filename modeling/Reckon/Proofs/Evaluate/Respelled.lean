import Reckon.Proofs.Evaluate.Alike
import Reckon.Proofs.Expr.Respelled

/-!
# Respelled trees have the same value

Two trees that differ in the names of variables are evaluated side by side: `Calc.InStep R Q` says
that two computations fail together or succeed together, with results in `Q` and contexts in `R`.
The variables that are exchanged have the same value on both sides. A series makes a function of
its term, and this function sees the global scope only: the bodies of functions may be respelled
too, but only in variables that are global and have the same value there
(`Function.Respells`).

Result: `inStep_evalWith`.
-/

namespace Reckon

open Reckon.Expr

/-! ## Two computations side by side -/

namespace Calc

variable {α β γ δ : Type} {R : Context → Context → Prop}

/-- Both computations have failed, or both have succeeded with related results. -/
inductive Agrees (R : Context → Context → Prop) (Q : α → β → Prop) :
    Except Fault α × Context → Except Fault β × Context → Prop where
  | fault (fault fault' : Fault) (ctx ctx' : Context) :
    Agrees R Q (.error fault, ctx) (.error fault', ctx')
  | value {a : α} {b : β} {ctx ctx' : Context} : Q a b → R ctx ctx' →
    Agrees R Q (.ok a, ctx) (.ok b, ctx')

/-- From related contexts the computations end alike. -/
def InStep (R : Context → Context → Prop) (Q : α → β → Prop) (act : Calc α) (act' : Calc β) :
    Prop :=
  ∀ ctx ctx', R ctx ctx' → Agrees R Q (act ctx) (act' ctx')

variable {Q : α → β → Prop} {S : γ → δ → Prop}

theorem inStep_pure {a : α} {b : β} (related : Q a b) : InStep R Q (pure a) (pure b) :=
  fun _ _ alike => .value related alike

theorem inStep_fail (fault fault' : Fault) : InStep R Q (fail fault) (fail fault') :=
  fun ctx ctx' _ => .fault fault fault' ctx ctx'

theorem inStep_lift (result : Except Fault α) : InStep R Eq (lift result) (lift result) := by
  intro ctx ctx' alike
  cases result with
  | ok a => exact .value rfl alike
  | error fault => exact .fault fault fault ctx ctx'

theorem inStep_decimal (result : Except Signal α) : InStep R Eq (decimal result) (decimal result) :=
  inStep_lift _

theorem inStep_look {f : Context → α} {g : Context → β}
    (related : ∀ ctx ctx', R ctx ctx' → Q (f ctx) (g ctx')) : InStep R Q (look f) (look g) :=
  fun ctx ctx' alike => .value (related ctx ctx' alike) alike

theorem inStep_update {f : Context → Context} (kept : ∀ ctx ctx', R ctx ctx' → R (f ctx) (f ctx')) :
    InStep R Eq (update f) (update f) :=
  fun ctx ctx' alike => .value rfl (kept ctx ctx' alike)

theorem InStep.bind {act : Calc α} {act' : Calc β} {next : α → Calc γ} {next' : β → Calc δ}
    (first : InStep R Q act act') (second : ∀ a b, Q a b → InStep R S (next a) (next' b)) :
    InStep R S (act >>= next) (act' >>= next') := by
  intro ctx ctx' alike
  have agrees := first ctx ctx' alike
  rcases run : act ctx with ⟨outcome, after⟩
  rcases run' : act' ctx' with ⟨outcome', after'⟩
  rw [run, run'] at agrees
  cases agrees with
  | fault fault fault' =>
    rw [bind_error run, bind_error run']
    exact .fault fault fault' after after'
  | value related alike =>
    rw [bind_ok run, bind_ok run']
    exact second _ _ related after after' alike

/-- The rest of the computations goes on from the same result. -/
theorem InStep.bind_same {act act' : Calc α} {next : α → Calc γ} {next' : α → Calc δ}
    (first : InStep R Eq act act') (second : ∀ a, InStep R S (next a) (next' a)) :
    InStep R S (act >>= next) (act' >>= next') :=
  first.bind fun a _ same => same ▸ second a

/-- Nothing follows a failure. -/
theorem inStep_fail_bind (fault fault' : Fault) (next : α → Calc γ) (next' : β → Calc δ) :
    InStep R S (fail fault >>= next) (fail fault' >>= next') :=
  (inStep_fail (Q := fun _ _ => False) fault fault').bind fun _ _ => False.elim

/-- More may be known of the first result. -/
theorem InStep.known {act : Calc α} {act' : Calc β} {K : α → Prop} (steps : InStep R Q act act')
    (known : ∀ ctx ctx', R ctx ctx' → ∀ a, (act ctx).1 = .ok a → K a) :
    InStep R (fun a b => Q a b ∧ K a) act act' := by
  intro before before' related
  have agrees := steps before before' related
  have known := known before before' related
  rcases run : act before with ⟨outcome, after⟩
  rcases run' : act' before' with ⟨outcome', after'⟩
  rw [run, run'] at agrees
  rw [run] at known
  cases agrees with
  | fault fault fault' => exact .fault ..
  | value here there => exact .value ⟨here, known _ rfl⟩ there

/-- The two ways to a result come together again on both sides. -/
theorem inStep_join {c : Prop} [Decidable c] {act other : Calc α}
    {act' other' : Calc β} {next : α → Calc γ} {next' : β → Calc δ} (first : InStep R Q act act')
    (second : InStep R Q other other')
    (rest : ∀ a b, Q a b → InStep R S (next a) (next' b)) :
    InStep R S (if c then act >>= next else other >>= next)
      (if c then act' >>= next' else other' >>= next') := by
  split
  · exact first.bind rest
  · exact second.bind rest

/-- Both values are the same, or there is none. -/
theorem Agrees.toOption_eq {ended ended' : Except Fault α × Context}
    (agrees : Agrees R Eq ended ended') : ended.1.toOption = ended'.1.toOption := by
  cases agrees with
  | fault => rfl
  | value same => rw [same]

end Calc

/-! ## Contexts -/

/-- No series in the tree is taken over a term in which something is exchanged. -/
def Expr.SumsApart (series : String → Prop) (swap : String → String → Prop) (e : Expr) : Prop :=
  ∀ name args, .call name args ∈ e.parts → series name →
    ∀ n n', swap n n' → ¬ OccursIn n args

theorem Expr.SumsApart.of_parts {series : String → Prop} {swap : String → String → Prop}
    {e part : Expr} (apart : e.SumsApart series swap) (inside : part.parts ⊆ e.parts) :
    part.SumsApart series swap :=
  fun name args member => apart name args (inside member)

/-- The functions differ in the body, which is respelled in shared variables that are no
parameters. -/
structure Function.Respells (shared : String → String → Prop) (f f' : Function) : Prop where
  name : f.name = f'.name
  params : f.params = f'.params
  body : ∃ swap : String → String → Prop, f.body.Respelled swap f'.body ∧
    ∀ n n', swap n n' → shared n n' ∧ n ∉ f.params ∧ n' ∉ f.params

/-- The scopes differ in the bodies of functions. -/
structure Scope.Respells (shared : String → String → Prop) (scope scope' : Scope) : Prop where
  values : ∀ name, scope.value? name = scope'.value? name
  functions : ∀ name,
    Option.Rel (Function.Respells shared) (scope.function? name) (scope'.function? name)

theorem Function.Respells.refl {shared : String → String → Prop} (f : Function) :
    f.Respells shared f :=
  ⟨rfl, rfl, fun _ _ => False, .refl _, fun _ _ => False.elim⟩

theorem Function.respells_refl {shared : String → String → Prop} :
    ∀ found : Option Function, Option.Rel (Function.Respells shared) found found
  | none => .none
  | some f => .some (.refl f)

namespace Context

/-- Values of variables are not hidden by functions. -/
theorem value?_insertFunction (ctx : Context) (name : String) (f : Function) (n : String) :
    (ctx.updateCurrent (·.insert name (.function f))).globals.value? n = ctx.globals.value? n ∧
      (ctx.updateCurrent (·.insert name (.function f))).lookupVariable n =
        ctx.lookupVariable n := by
  have globals : (ctx.updateCurrent (·.insert name (.function f))).globals.value? n =
      ctx.globals.value? n := by
    unfold Scope.value?
    rw [globals_find?_insert (by exact nofun)]
  refine ⟨globals, ?_⟩
  rw [lookupVariable, lookupVariable, globals, current_updateCurrent, Scope.value?_insert_function]

theorem native?_insertFunction (ctx : Context) (name : String) (f : Function) :
    (ctx.updateCurrent (·.insert name (.function f))).native? = ctx.native? := by
  funext n
  unfold native? Scope.native?
  rw [globals_find?_insert (by exact nofun)]

/-- The contexts differ in the bodies of functions in their inner scopes, at least `depth` in
number. What is exchanged has the same value, and what is shared has the same value in the global
scope and is not the name of the variable of a series without one; `series` are the names of
natives that take expressions. -/
structure Respells (shared swap : String → String → Prop) (series : String → Prop) (depth : Nat)
    (ctx ctx' : Context) : Prop where
  params : ctx.params = ctx'.params
  generated : ctx.generated = ctx'.generated
  globals : ctx.globals = ctx'.globals
  inner : List.Forall₂ (Scope.Respells shared) ctx.inner ctx'.inner
  deep : depth ≤ ctx.inner.length
  known : ∀ name n, ctx.native? name = some n → n.takesExpressions = true → series name
  here : ∀ n n', swap n n' →
    (ctx.lookupVariable n).isSome ∧ ctx.lookupVariable n = ctx.lookupVariable n'
  top : ∀ n n', shared n n' → n ≠ "n" ∧ n' ≠ "n" ∧
    (ctx.globals.value? n).isSome ∧ ctx.globals.value? n = ctx.globals.value? n'

namespace Respells

variable {shared swap : String → String → Prop} {series : String → Prop} {depth : Nat}
  {ctx ctx' : Context}

/-! ### What both sides find -/

theorem current (alike : ctx.Respells shared swap series depth ctx') :
    ctx.current.Respells shared ctx'.current := by
  have globals : ctx.globals.Respells shared ctx'.globals := by
    rw [← alike.globals]
    exact ⟨fun _ => rfl, fun _ => Function.respells_refl _⟩
  have inner := alike.inner
  unfold Context.current
  cases shape : ctx.inner with
  | nil =>
    rw [shape, List.forall₂_nil_left_iff] at inner
    rw [inner]
    exact globals
  | cons scope outer =>
    rw [shape, List.forall₂_cons_left_iff] at inner
    obtain ⟨scope', outer', first, -, shape'⟩ := inner
    rw [shape']
    exact first

theorem lookupVariable_eq (alike : ctx.Respells shared swap series depth ctx') :
    ctx.lookupVariable = ctx'.lookupVariable := by
  funext name
  rw [lookupVariable, lookupVariable, alike.current.values, alike.globals]

theorem isBound_eq (alike : ctx.Respells shared swap series depth ctx') :
    ctx.isBound = ctx'.isBound := by
  funext name
  rw [isBound, isBound, alike.lookupVariable_eq]

theorem isConstant_eq (alike : ctx.Respells shared swap series depth ctx') :
    ctx.isConstant = ctx'.isConstant := by
  funext name
  rw [isConstant, isConstant, alike.globals]

theorem isNative_eq (alike : ctx.Respells shared swap series depth ctx') :
    ctx.isNative = ctx'.isNative := by
  funext name
  rw [isNative, isNative, alike.globals]

theorem native?_eq (alike : ctx.Respells shared swap series depth ctx') :
    ctx.native? = ctx'.native? := by
  funext name
  rw [native?, native?, alike.globals]

theorem lookupFunction (alike : ctx.Respells shared swap series depth ctx') (name : String) :
    Option.Rel (Function.Respells shared) (ctx.lookupFunction name)
      (ctx'.lookupFunction name) := by
  unfold Context.lookupFunction scopes
  rw [← alike.globals]
  have inner := alike.inner
  generalize ctx.inner = scopes at inner ⊢
  generalize ctx'.inner = scopes' at inner ⊢
  induction inner with
  | nil => exact Function.respells_refl _
  | cons first _ ih =>
    rw [List.cons_append, List.cons_append, List.findSome?_cons, List.findSome?_cons]
    have found := first.functions name
    revert found
    generalize Scope.function? _ name = f
    generalize Scope.function? _ name = f'
    rintro (found | _)
    · exact .some found
    · exact ih

theorem isSome_lookupFunction (alike : ctx.Respells shared swap series depth ctx')
    (name : String) : (ctx.lookupFunction name).isSome = (ctx'.lookupFunction name).isSome := by
  have found := alike.lookupFunction name
  revert found
  generalize ctx.lookupFunction name = f
  generalize ctx'.lookupFunction name = f'
  rintro (_ | _) <;> rfl

theorem isFunction_eq (alike : ctx.Respells shared swap series depth ctx') :
    ctx.isFunction = ctx'.isFunction := by
  funext name
  rw [isFunction, isFunction, alike.isNative_eq, alike.isSome_lookupFunction]

theorem isBound (alike : ctx.Respells shared swap series depth ctx') {n n' : String}
    (exchanged : swap n n') : ctx.isBound n = true ∧ ctx.isBound n' = true := by
  obtain ⟨bound, same⟩ := alike.here n n' exchanged
  exact ⟨bound, by rwa [Context.isBound, ← same]⟩

/-! ### What is changed on both sides -/

/-- In a new scope the global values are seen. -/
theorem push {inner : String → String → Prop} (alike : ctx.Respells shared swap series depth ctx')
    (visible : ∀ n n', inner n n' → shared n n') :
    ctx.push.Respells shared inner series (depth + 1) ctx'.push where
  params := alike.params
  generated := alike.generated
  globals := alike.globals
  inner := .cons ⟨fun _ => rfl, fun _ => .none⟩ alike.inner
  deep := Nat.succ_le_succ alike.deep
  known := alike.known
  here n n' exchanged := (alike.top n n' (visible n n' exchanged)).2.2
  top := alike.top

/-- The scopes stay as they are, and the settings are changed in the same way. -/
theorem settings (alike : ctx.Respells shared swap series depth ctx') {after after' : Context}
    (same : ctx.SameNames after) (same' : ctx'.SameNames after')
    (params : after.params = after'.params) (generated : after.generated = after'.generated) :
    after.Respells shared swap series depth after' := by
  have values : after.lookupVariable = ctx.lookupVariable := funext same.lookupVariable_eq
  obtain ⟨globals, inner⟩ := same
  obtain ⟨globals', inner'⟩ := same'
  have natives : after.native? = ctx.native? := by
    funext name
    rw [native?, native?, globals]
  refine ⟨params, generated, ?_, ?_, ?_, ?_, ?_, ?_⟩
  · rw [globals, globals', alike.globals]
  · rw [inner, inner']
    exact alike.inner
  · rw [inner]
    exact alike.deep
  · rw [natives]
    exact alike.known
  · rw [values]
    exact alike.here
  · rw [globals]
    exact alike.top

/-- An argument is bound on both sides. -/
theorem bind (alike : ctx.Respells shared swap series (depth + 1) ctx') {name : String}
    (other : ∀ n n', swap n n' → n ≠ name ∧ n' ≠ name) (t : Term) :
    (ctx.bind name t).Respells shared swap series (depth + 1) (ctx'.bind name t) := by
  obtain ⟨params, globals, inner, generated⟩ := ctx
  obtain ⟨params', globals', inner', generated'⟩ := ctx'
  obtain ⟨rfl, rfl, rfl, scopes, deep, known, here, top⟩ := alike
  cases scopes with
  | nil => exact absurd deep (Nat.not_succ_le_zero depth)
  | cons first rest =>
    refine ⟨rfl, rfl, rfl, .cons ⟨fun n => ?_, fun n => ?_⟩ rest, deep, known,
      fun n n' exchanged => ?_, top⟩
    · rw [Scope.value?_insert_value, Scope.value?_insert_value, first.values]
    · rw [Scope.function?_insert_value, Scope.function?_insert_value]
      exact first.functions n
    · obtain ⟨left, right⟩ := other n n' exchanged
      have inside : ∀ {scope : Scope} {outer : List Scope}, scope :: outer ≠ [] :=
        List.cons_ne_nil _ _
      rw [lookupVariable_bind inside, lookupVariable_bind inside, if_neg left, if_neg right]
      exact here n n' exchanged

theorem bindAll (alike : ctx.Respells shared swap series (depth + 1) ctx')
    {bindings : List (String × Term)}
    (others : ∀ binding ∈ bindings, ∀ n n', swap n n' → n ≠ binding.1 ∧ n' ≠ binding.1) :
    Respells shared swap series (depth + 1)
      (bindings.foldl (fun ctx (name, t) => ctx.bind name t) ctx)
      (bindings.foldl (fun ctx (name, t) => ctx.bind name t) ctx') := by
  induction bindings generalizing ctx ctx' with
  | nil => exact alike
  | cons binding bindings ih =>
    obtain ⟨first, rest⟩ := List.forall_mem_cons.1 others
    exact ih (alike.bind first binding.2) rest

/-- A function is defined on both sides, a respelled one only in an inner scope. -/
theorem insert (alike : ctx.Respells shared swap series depth ctx') {f f' : Function}
    (functions : f.Respells shared f') (allowed : f = f' ∨ 0 < depth) :
    Respells shared swap series depth (ctx.updateCurrent (·.insert f.name (.function f)))
      (ctx'.updateCurrent (·.insert f'.name (.function f'))) := by
  have values := value?_insertFunction ctx f.name f
  have natives := native?_insertFunction ctx f.name f
  obtain ⟨params, globals, inner, generated⟩ := ctx
  obtain ⟨params', globals', inner', generated'⟩ := ctx'
  obtain ⟨rfl, rfl, rfl, scopes, deep, known, here, top⟩ := alike
  have here' : ∀ n n', swap n n' → _ := fun n n' exchanged => by
    have seen := here n n' exchanged
    rwa [← (values n).2, ← (values n').2] at seen
  have top' : ∀ n n', shared n n' → _ := fun n n' known => by
    have seen := top n n' known
    rwa [← (values n).1, ← (values n').1] at seen
  rw [← natives] at known
  cases scopes with
  | nil =>
    obtain rfl := allowed.resolve_right (Nat.not_lt.2 deep)
    exact ⟨rfl, rfl, rfl, .nil, deep, known, here', top'⟩
  | cons first rest =>
    refine ⟨rfl, rfl, rfl, .cons ⟨fun n => ?_, fun n => ?_⟩ rest, deep, known, here', top'⟩
    · rw [Scope.value?_insert_function, Scope.value?_insert_function, first.values]
    · rw [Scope.function?_insert_function, Scope.function?_insert_function, ← functions.name]
      split
      · exact .some functions
      · exact first.functions n

end Respells

end Context

/-! ## Rules -/

section Rules

open Calc Context

variable {shared swap : String → String → Prop} {series : String → Prop} {depth : Nat}

/-- Of what happens in a scope of its own the result and the settings are left. -/
theorem inStep_withScope {α β : Type} {Q : α → β → Prop} {act : Calc α} {act' : Calc β}
    {inner : String → String → Prop} (visible : ∀ n n', inner n n' → shared n n')
    (keeps : Keeps Confined act) (keeps' : Keeps Confined act')
    (inside : InStep (Respells shared inner series (depth + 1)) Q act act') :
    InStep (Respells shared swap series depth) Q (withScope act) (withScope act') := by
  intro ctx ctx' alike
  rw [withScope_eq keeps, withScope_eq keeps']
  have agrees := inside _ _ (alike.push visible)
  rcases run : act ctx.push with ⟨outcome, after⟩
  rcases run' : act' ctx'.push with ⟨outcome', after'⟩
  rw [run, run'] at agrees
  cases agrees with
  | fault fault fault' => exact .fault fault fault' _ _
  | value related ended =>
    exact .value related (alike.settings ⟨rfl, rfl⟩ ⟨rfl, rfl⟩ ended.params ended.generated)

theorem inStep_define {f f' : Function} (functions : f.Respells shared f')
    (allowed : f = f' ∨ 0 < depth) :
    InStep (Respells shared swap series depth) Eq (define f) (define f') := by
  intro ctx ctx' alike
  unfold Calc.define Context.define
  rw [← functions.name, alike.isNative_eq, alike.isConstant_eq, alike.isSome_lookupFunction]
  cases ctx'.isNative f.name with
  | true => exact .fault ..
  | false =>
    cases ctx'.isConstant f.name with
    | true => exact .fault ..
    | false =>
      cases (ctx'.lookupFunction f.name).isSome with
      | true => exact .fault ..
      | false =>
        have after := alike.insert functions allowed
        rw [← functions.name] at after
        exact .value rfl after

theorem inStep_freshName :
    InStep (Respells shared swap series depth) Eq freshName freshName := by
  intro ctx ctx' alike
  have free := ctx.freshName_not_taken
  have free' := ctx'.freshName_not_taken
  unfold Calc.freshName
  unfold Context.freshName at free free' ⊢
  dsimp only at free free' ⊢
  rw [← alike.isFunction_eq, ← alike.isConstant_eq, ← alike.generated] at free' ⊢
  rw [@freshFrom_eq (fun name => ctx.isFunction name || ctx.isConstant name) _ _ _ free free']
  exact .value rfl (alike.settings ⟨rfl, rfl⟩ ⟨rfl, rfl⟩ alike.params rfl)

theorem inStep_raisePrecision (x : Decimal) :
    InStep (Respells shared swap series depth) Eq (raisePrecision x) (raisePrecision x) := by
  refine inStep_update fun ctx ctx' alike => ?_
  rw [← alike.params]
  split
  · exact alike.settings ⟨rfl, rfl⟩ ⟨rfl, rfl⟩ rfl alike.generated
  · exact alike

/-! ## Series -/

theorem inStep_synthesize (params : List String) {body body' : Expr}
    (functions : ∀ name, Function.Respells shared ⟨name, params, body, none⟩
      ⟨name, params, body', none⟩) (inside : 0 < depth) :
    InStep (Respells shared swap series depth) (Function.Respells shared)
      (synthesize params body) (synthesize params body') := by
  unfold synthesize
  exact inStep_freshName.bind_same fun name =>
    (inStep_define (functions name) (.inr inside)).bind_same fun _ => inStep_pure (functions name)

/-- Calls end alike. -/
def Caller.InStep (call : Caller) (shared : String → String → Prop) (series : String → Prop) :
    Prop :=
  ∀ swap depth digits name inputs, Calc.InStep (Respells shared swap series depth) Eq
    (call digits name inputs) (call digits name inputs)

variable {call : Caller}

theorem inStep_sample (calls : call.InStep shared series) (digits : Nat) {f f' : Function}
    (functions : f.Respells shared f') (x : Decimal) :
    InStep (Respells shared swap series depth) Eq (sample call digits f x)
      (sample call digits f' x) := by
  unfold sample
  rw [← functions.name]
  refine (calls _ _ _ _ _).bind_same fun t => ?_
  cases t with
  | numeric y => exact inStep_pure rfl
  | symbolic s b => exact inStep_fail _ _

theorem inStep_sumFrom {R : Context → Context → Prop} {term term' : Decimal → Calc Decimal}
    (terms : ∀ x, InStep R Eq (term x) (term' x)) (p : Precision) (epsilon : Decimal)
    (fuel k : Nat) (total : Decimal) :
    InStep R Eq (sumFrom term p epsilon fuel k total) (sumFrom term' p epsilon fuel k total) := by
  induction fuel generalizing k total with
  | zero => exact inStep_pure rfl
  | succ fuel ih =>
    unfold sumFrom
    refine (terms _).bind_same fun y => (inStep_decimal _).bind_same fun next => ?_
    split
    · refine (inStep_decimal _).bind_same fun change =>
        (inStep_decimal _).bind_same fun settled => ?_
      split
      · exact inStep_pure rfl
      · exact ih _ _
    · exact ih _ _

/-- The constants are put into both trees, and both have the same free names. -/
theorem Context.Respells.replaceConstants {inner : String → String → Prop} {ctx ctx' : Context}
    (alike : ctx.Respells shared swap series depth ctx') {e e' : Expr}
    (exchanged : ∀ n n', inner n n' → swap n n') (trees : e.Respelled inner e') :
    (ctx.replaceConstants e).Respelled inner (ctx'.replaceConstants e') := by
  have bound : ∀ n n', inner n n' → ctx.isBound n = true ∧ ctx.isBound n' = true :=
    fun n n' same => alike.isBound (exchanged n n' same)
  unfold Context.replaceConstants constants
  rw [← alike.globals, ← alike.isBound_eq]
  refine trees.substitute (fun n n' same => ?_) (.inl rfl)
  rcases same with rfl | same
  · exact .refl _
  · rw [lookup_constants, lookup_constants, if_pos (bound n n' same).1, if_pos (bound n n' same).2]
    exact .inr ⟨n', same, rfl⟩

theorem Context.Respells.freeNames {inner : String → String → Prop} {ctx ctx' : Context}
    (alike : ctx.Respells shared swap series depth ctx') {e e' : Expr}
    (exchanged : ∀ n n', inner n n' → swap n n') (trees : e.Respelled inner e') :
    ctx.freeNames e = ctx'.freeNames e' ∧
      ∀ n n', inner n n' → n ∉ ctx.freeNames e ∧ n' ∉ ctx.freeNames e := by
  have bound : ∀ n n', inner n n' → ctx.isBound n = true ∧ ctx.isBound n' = true :=
    fun n n' same => alike.isBound (exchanged n n' same)
  unfold Context.freeNames
  rw [← alike.isConstant_eq, ← alike.isBound_eq]
  constructor
  · exact trees.collectNames (fun n n' same => by simp [bound n n' same]) []
  · exact fun n n' same => by simp [mem_collectNames, bound n n' same]

/-- The sums of two respelled terms, if what is exchanged is seen from the global scope. -/
theorem inStep_seriesSum (advances : call.Advances) (calls : call.InStep shared series)
    {inner : String → String → Prop} (exchanged : ∀ n n', inner n n' → swap n n')
    (visible : ∀ n n', inner n n' → shared n n') {e e' : Expr} (trees : e.Respelled inner e') :
    InStep (Respells shared swap series depth) Eq (seriesSum call e) (seriesSum call e') := by
  unfold seriesSum
  refine (inStep_look fun _ _ alike => alike.params).bind_same fun params => ?_
  refine (inStep_look fun _ _ alike => alike.replaceConstants exchanged trees).bind
    fun body body' bodies => ?_
  refine (inStep_look (Q := fun names names' => names = names' ∧ ∀ n n', inner n n' →
      n ≠ names.head?.getD "n" ∧ n' ≠ names.head?.getD "n") fun ctx _ alike => ?_).bind
    fun names _ known => ?_
  · obtain ⟨same, free⟩ := alike.freeNames exchanged bodies
    refine ⟨same, fun n n' exchanged => ?_⟩
    obtain ⟨left, right, -⟩ := alike.top n n' (visible n n' exchanged)
    obtain ⟨left', right'⟩ := free n n' exchanged
    cases shape : ctx.freeNames body with
    | nil => exact ⟨left, right⟩
    | cons first rest =>
      rw [shape] at left' right'
      exact ⟨List.ne_of_not_mem_cons left', List.ne_of_not_mem_cons right'⟩
  obtain ⟨rfl, others⟩ := known
  dsimp only
  split
  · exact inStep_fail_bind _ _ _ _
  · have functions : ∀ name, Function.Respells shared
        ⟨name, [names.head?.getD "n"], body, none⟩ ⟨name, [names.head?.getD "n"], body', none⟩ :=
      fun name => ⟨rfl, rfl, inner, bodies, fun n n' exchanged =>
        ⟨visible n n' exchanged, by simpa using (others n n' exchanged).1,
          by simpa using (others n n' exchanged).2⟩⟩
    have confined : ∀ body : Expr, Keeps Confined (do
        let f ← synthesize [names.head?.getD "n"] body
        sumFrom (sample call (nativePrecision params.precision).digits f)
          (nativePrecision params.precision) params.zeroEpsilon params.maxTerms.toNat 0 0) :=
      fun body => (keeps_synthesize _ _).bind fun f _ =>
        keeps_sumFrom (keeps_sample advances _ f) _ _ _ _ _
    refine (inStep_withScope (fun _ _ (none : False) => none.elim) (confined body)
      (confined body') ?_).bind_same fun total => ?_
    · exact (inStep_synthesize _ functions (Nat.succ_pos depth)).bind fun f f' alike =>
        inStep_sumFrom (inStep_sample calls _ alike) _ _ _ _ _
    · cases total with
      | none => exact inStep_fail _ _
      | some total => exact inStep_pure rfl

theorem inStep_applyToExpressions (advances : call.Advances) (calls : call.InStep shared series)
    {inner : String → String → Prop} (exchanged : ∀ n n', inner n n' → swap n n')
    (visible : ∀ n n', inner n n' → shared n n') (n : Native) {args args' : List Expr}
    (trees : AllRespelled inner args args') :
    InStep (Respells shared swap series depth) Eq (applyToExpressions call n args)
      (applyToExpressions call n args') := by
  unfold applyToExpressions
  rw [trees.length_eq]
  refine (inStep_lift _).bind_same fun _ => ?_
  cases args with
  | nil =>
    cases trees
    exact inStep_fail _ _
  | cons e es =>
    obtain ⟨f, fs, rfl, first, others⟩ := trees
    cases es with
    | nil =>
      cases others
      exact inStep_seriesSum advances calls exchanged visible first
    | cons e es =>
      obtain ⟨_, _, rfl, -⟩ := others
      exact inStep_fail _ _

theorem inStep_applyToValues (n : Native) (inputs : List Term) :
    InStep (Respells shared swap series depth) Eq (applyToValues n inputs)
      (applyToValues n inputs) :=
  (inStep_look fun _ _ alike => alike.params).bind_same fun _ => inStep_lift _

/-! ## Trees -/

/-- Two names that are exchanged have the same value, so neither of them stands for itself. -/
theorem inStep_evalVar {digits : Nat} {name : String} {e' : Expr}
    (trees : (Expr.var name).Respelled swap e') :
    InStep (Respells shared swap series depth) Eq ((Expr.var name).evalWith call digits)
      (e'.evalWith call digits) := by
  rcases trees with rfl | ⟨name', exchanged, rfl⟩
  · rw [Expr.evalWith]
    exact (inStep_look fun _ _ alike => congrFun alike.lookupVariable_eq name).bind_same
      fun _ => inStep_pure rfl
  · rw [Expr.evalWith, Expr.evalWith]
    refine (inStep_look (Q := fun found found' => found = found' ∧ found.isSome)
      fun ctx ctx' alike => ?_).bind fun found _ known => ?_
    · obtain ⟨bound, same⟩ := alike.here name name' exchanged
      exact ⟨same.trans (congrFun alike.lookupVariable_eq name'), bound⟩
    · obtain ⟨rfl, bound⟩ := known
      cases found with
      | none => cases bound
      | some t => exact inStep_pure rfl

/-- Only a series looks at its arguments before they are evaluated, and nothing that is hidden from
a function is exchanged in the arguments of a series. -/
theorem inStep_evalCall (advances : call.Advances) (calls : call.InStep shared series)
    (digits : Nat) {name : String} {args args' : List Expr}
    (visible : (∀ n n', swap n n' → shared n n') ∨ (Expr.call name args).SumsApart series swap)
    (trees : AllRespelled swap args args')
    (arguments : InStep (Respells shared swap series depth) Eq
      (Expr.evalAllWith call digits args) (Expr.evalAllWith call digits args')) :
    InStep (Respells shared swap series depth) Eq ((Expr.call name args).evalWith call digits)
      ((Expr.call name args').evalWith call digits) := by
  rw [Expr.evalWith, Expr.evalWith]
  refine (inStep_look (Q := fun found found' : Option Function => found.isSome = found'.isSome)
    fun _ _ alike => alike.isSome_lookupFunction name).bind fun found found' same => ?_
  rw [← same]
  split
  · exact arguments.bind_same fun _ => calls _ _ _ _ _
  · refine (inStep_look (Q := fun native native' => native = native' ∧
      ∀ f, native = some f → f.takesExpressions = true → series name)
      fun _ _ alike => ⟨congrFun alike.native?_eq name, alike.known name⟩).bind
      fun native _ known => ?_
    obtain ⟨rfl, known⟩ := known
    cases native with
    | none => exact inStep_fail _ _
    | some f =>
      dsimp only
      split
      next takes =>
        rcases visible with visible | apart
        · exact inStep_applyToExpressions advances calls (fun _ _ => id) visible f trees
        · have absent := apart name args (.head _) (known f rfl takes)
          rw [trees.eq absent]
          exact inStep_applyToExpressions advances calls (fun _ _ (none : False) => none.elim)
            (fun _ _ => False.elim) f (.refl args)
      next => exact arguments.bind_same fun _ => inStep_applyToValues f _

mutual

/-- One case for each way to build a tree. -/
theorem inStep_evalWith (advances : call.Advances) (calls : call.InStep shared series)
    (digits : Nat) : ∀ {e e' : Expr},
      (∀ n n', swap n n' → shared n n') ∨ e.SumsApart series swap → e.Respelled swap e' →
      InStep (Respells shared swap series depth) Eq (e.evalWith call digits)
        (e'.evalWith call digits)
  | .literal x written, _, _, trees => by
    cases trees
    rw [Expr.evalWith]
    cases written with
    | false => exact inStep_pure rfl
    | true => exact (inStep_raisePrecision x).bind_same fun _ => inStep_pure rfl
  | .var _, _, _, trees => inStep_evalVar trees
  | .unary sign e, _, visible, ⟨_, shape, tree⟩ => by
    rw [shape, Expr.evalWith, Expr.evalWith]
    have inside := e.parts_operand_subset sign
    refine (inStep_evalWith advances calls digits (visible.imp_right (·.of_parts inside))
      tree).bind_same fun t => ?_
    cases sign with
    | negative => exact inStep_lift _
    | positive => exact inStep_pure rfl
  | .binary op attached l r, _, visible, ⟨_, _, shape, left, right⟩ => by
    rw [shape, Expr.evalWith, Expr.evalWith]
    have first := Expr.parts_left_subset op attached l r
    have second := Expr.parts_right_subset op attached l r
    exact (inStep_evalWith advances calls digits (visible.imp_right (·.of_parts first))
        left).bind_same fun _ =>
      (inStep_evalWith advances calls digits (visible.imp_right (·.of_parts second))
        right).bind_same fun _ =>
      (inStep_look fun _ _ alike => congrArg Params.precision alike.params).bind_same fun _ =>
      inStep_lift _
  | .call name args, _, visible, ⟨args', shape, trees⟩ => by
    rw [shape]
    refine inStep_evalCall advances calls digits visible trees ?_
    exact inStep_evalAllWith advances calls digits
      (visible.imp_right fun apart e member =>
        apart.of_parts (Expr.parts_argument_subset name member)) trees
  | .definition name params body source, _, _, trees => by
    cases trees
    rw [Expr.evalWith]
    exact (inStep_define (.refl _) (.inl rfl)).bind_same fun _ => inStep_pure rfl
  | .vector _, _, _, ⟨_, shape, _⟩ => by
    rw [shape, Expr.evalWith, Expr.evalWith]
    exact inStep_fail _ _
  | .matrix _, _, _, ⟨_, shape, _⟩ => by
    rw [shape, Expr.evalWith, Expr.evalWith]
    exact inStep_fail _ _
  | .empty, _, _, trees => by
    cases trees
    rw [Expr.evalWith]
    exact inStep_pure rfl

theorem inStep_evalAllWith (advances : call.Advances) (calls : call.InStep shared series)
    (digits : Nat) : ∀ {es es' : List Expr},
      (∀ n n', swap n n' → shared n n') ∨ (∀ e ∈ es, e.SumsApart series swap) →
      AllRespelled swap es es' →
      InStep (Respells shared swap series depth) Eq (Expr.evalAllWith call digits es)
        (Expr.evalAllWith call digits es')
  | [], _, _, trees => by
    cases trees
    rw [Expr.evalAllWith]
    exact inStep_pure rfl
  | e :: es, _, visible, ⟨_, _, shape, first, others⟩ => by
    rw [shape, Expr.evalAllWith, Expr.evalAllWith]
    exact (inStep_evalWith advances calls digits
        (visible.imp_right fun apart => apart e (.head _)) first).bind_same fun _ =>
      (inStep_evalAllWith advances calls digits
        (visible.imp_right fun apart e member => apart e (.tail _ member)) others).bind_same
        fun _ => inStep_pure rfl

end

/-- A call binds its arguments in a scope of its own, where what is exchanged in the body is seen
from the global scope. -/
theorem inStep_callFunction (shared : String → String → Prop) (series : String → Prop)
    (fuel : Nat) : Caller.InStep (callFunction fuel) shared series := by
  induction fuel with
  | zero => exact fun _ _ _ _ _ => inStep_fail _ _
  | succ fuel ih =>
    intro swap depth digits name inputs
    unfold callFunction
    refine (inStep_look fun _ _ alike => alike.lookupFunction name).bind fun found found' same => ?_
    rcases same with ⟨same⟩ | _
    · rename_i f f'
      obtain ⟨inner, bodies, others⟩ := same.body
      have signature : f.signature = f'.signature := by
        rw [Function.signature, Function.signature, same.name, same.params]
      dsimp only
      rw [← signature, ← same.params]
      have confined : ∀ g : Function, Keeps Confined (do
          Calc.update fun ctx =>
            (f.params.zip inputs).foldl (fun ctx (name, t) => ctx.bind name t) ctx
          g.body.evalWith (callFunction fuel) digits) := fun g =>
        (keeps_of_rel (confined_bindAll _)).bind fun _ _ =>
          keeps_evalWith (keeps_callFunction fuel) (fun f _ => keeps_define f) digits g.body
            (Nat.le_refl _)
      refine (inStep_lift _).bind_same fun _ => inStep_withScope
        (fun n n' exchanged => (others n n' exchanged).1) (confined f) (confined f') ?_
      refine (inStep_update fun _ _ alike => alike.bindAll
        fun binding member n n' exchanged => ?_).bind_same fun _ =>
        inStep_evalWith (keeps_callFunction fuel) ih digits
          (.inl fun n n' exchanged => (others n n' exchanged).1) bodies
      obtain ⟨-, left, right⟩ := others n n' exchanged
      have param : binding.1 ∈ f.params := (List.of_mem_zip member).1
      exact ⟨fun same => left (same ▸ param), fun same => right (same ▸ param)⟩
    · exact inStep_fail _ _

end Rules

end Reckon
