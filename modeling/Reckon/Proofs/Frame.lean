import Reckon.Evaluate
import Reckon.Proofs.Calc

/-!
# What computations leave as it was

`Calc.Ensures I R act Q` relates the context before a computation to the one after it, whether it
succeeds or fails, and says what is known of its result; there is one rule for each way to build a
computation. Four relations are used.

1. `Context.Advances`: the scopes are the same; only the precision has gone up and names have been
   generated. This is what a computation with a scope of its own does (`keeps_withScope`).
2. `Context.Confined`: only the innermost scope may have changed as well.
3. `Context.SameParams`: the settings are the same.
4. `Context.SameCounter`: no names have been generated.

Other properties of computations follow the same rules. `Calc.Closed` says which of them loops and
trees need, and `Calc.Layered` those that series and calls need, which have a scope of their own.
-/

namespace Reckon

/-! ## Relations between contexts -/

namespace Context

/-- Of the settings only the precision may have changed, and gone up. -/
def RaisesPrecision (ctx ctx' : Context) : Prop :=
  ∃ p, ctx.params.precision ≤ p ∧ ctx'.params = { ctx.params with precision := p }

/-- The precision has gone up at most, and names have been generated. -/
structure Progress (ctx ctx' : Context) : Prop where
  params : ctx.RaisesPrecision ctx'
  generated : ctx.generated ≤ ctx'.generated

/-- All scopes are as they were. -/
structure Advances (ctx ctx' : Context) : Prop extends ctx.SameNames ctx', ctx.Progress ctx'

/-- The scopes below the innermost one are as they were. -/
structure Confined (ctx ctx' : Context) : Prop extends ctx.Progress ctx' where
  scopes : ∀ {scope outer}, ctx.inner = scope :: outer →
    ctx'.globals = ctx.globals ∧ ∃ scope', ctx'.inner = scope' :: outer

/-- The settings are as they were. -/
def SameParams (ctx ctx' : Context) : Prop :=
  ctx'.params = ctx.params

/-- No names have been generated. -/
def SameCounter (ctx ctx' : Context) : Prop :=
  ctx'.generated = ctx.generated

variable {ctx ctx' ctx'' : Context}

theorem SameParams.raisesPrecision (same : ctx.SameParams ctx') : ctx.RaisesPrecision ctx' :=
  ⟨_, Nat.le_refl _, same⟩

theorem RaisesPrecision.trans (first : ctx.RaisesPrecision ctx')
    (second : ctx'.RaisesPrecision ctx'') : ctx.RaisesPrecision ctx'' := by
  obtain ⟨p, le, params⟩ := first
  obtain ⟨q, le', params'⟩ := second
  rw [params] at le' params'
  exact ⟨q, Nat.le_trans le le', params'⟩

theorem Progress.refl (ctx : Context) : ctx.Progress ctx :=
  ⟨SameParams.raisesPrecision rfl, Nat.le_refl _⟩

theorem Progress.trans (first : ctx.Progress ctx') (second : ctx'.Progress ctx'') :
    ctx.Progress ctx'' :=
  ⟨first.params.trans second.params, Nat.le_trans first.generated second.generated⟩

theorem Advances.confined (advances : ctx.Advances ctx') : ctx.Confined ctx' where
  toProgress := advances.toProgress
  scopes := fun shape => ⟨advances.globals, _, advances.inner.trans shape⟩

theorem Confined.trans (first : ctx.Confined ctx') (second : ctx'.Confined ctx'') :
    ctx.Confined ctx'' := by
  refine ⟨first.toProgress.trans second.toProgress, fun shape => ?_⟩
  obtain ⟨globals, scope, inner⟩ := first.scopes shape
  obtain ⟨globals', scope', inner'⟩ := second.scopes inner
  exact ⟨globals'.trans globals, scope', inner'⟩

theorem pop_eq_ok : ctx.pop = .ok ctx' ↔
    ∃ scope outer, ctx.inner = scope :: outer ∧ ctx' = { ctx with inner := outer } := by
  unfold pop
  cases shape : ctx.inner with
  | nil => simp
  | cons scope outer =>
    constructor
    · intro done
      cases done
      exact ⟨scope, outer, rfl, rfl⟩
    · rintro ⟨_, _, equal, rfl⟩
      cases equal
      rfl

/-- What happens in a new scope does not reach the others once the scope is gone. -/
theorem Confined.pop (confined : ctx.push.Confined ctx') :
    ∃ ctx'', ctx'.pop = .ok ctx'' ∧ ctx.Advances ctx'' := by
  obtain ⟨globals, scope', inner⟩ := confined.scopes rfl
  exact ⟨{ ctx' with inner := ctx.inner }, pop_eq_ok.2 ⟨scope', ctx.inner, inner, rfl⟩,
    ⟨globals, rfl⟩, confined.params, confined.generated⟩

theorem confined_updateCurrent (ctx : Context) (f : Scope → Scope) :
    ctx.Confined (ctx.updateCurrent f) := by
  obtain ⟨params, globals, inner, generated⟩ := ctx
  have same := Progress.refl ⟨params, globals, inner, generated⟩
  cases inner with
  | nil => exact ⟨⟨same.params, same.generated⟩, fun shape => nomatch shape⟩
  | cons scope outer =>
    refine ⟨⟨same.params, same.generated⟩, fun shape => ⟨rfl, f scope, ?_⟩⟩
    obtain ⟨rfl, rfl⟩ := List.cons.inj shape
    rfl

/-- When a function is defined: its name is new, and it goes to the current scope. -/
theorem define_eq_ok {f : Function} : ctx.define f = .ok ctx' ↔
    ctx.isNative f.name = false ∧ ctx.isConstant f.name = false ∧
      ctx.lookupFunction f.name = none ∧
      ctx' = ctx.updateCurrent (·.insert f.name (.function f)) := by
  unfold define
  cases ctx.isNative f.name
  · cases ctx.isConstant f.name
    · cases ctx.lookupFunction f.name <;> simp [eq_comm]
    · simp
  · simp

theorem confined_bindAll (bindings : List (String × Term)) (ctx : Context) :
    ctx.Confined (bindings.foldl (fun ctx (name, t) => ctx.bind name t) ctx) := by
  induction bindings generalizing ctx with
  | nil => exact (Advances.mk ⟨rfl, rfl⟩ (Progress.refl ctx)).confined
  | cons binding bindings ih =>
    have first := confined_updateCurrent ctx (·.insert binding.1 (.value binding.2))
    exact first.trans (ih (ctx.bind binding.1 binding.2))

end Context

/-! ## Rules -/

namespace Calc

open Context

/-- A relation between contexts that computations one after the other keep. -/
class Frame (R : Context → Context → Prop) : Prop where
  refl : ∀ ctx, R ctx ctx
  trans : ∀ {ctx ctx' ctx''}, R ctx ctx' → R ctx' ctx'' → R ctx ctx''

/-- A frame that allows a higher precision. -/
class RaisingFrame (R : Context → Context → Prop) : Prop extends Frame R where
  raises : ∀ {ctx ctx' : Context}, ctx.SameNames ctx' → ctx.RaisesPrecision ctx' →
    ctx.SameCounter ctx' → R ctx ctx'

/-- A frame that allows what a computation in its own scope or on its own settings does. -/
class WideFrame (R : Context → Context → Prop) : Prop extends Frame R where
  advances : ∀ {ctx ctx' : Context}, ctx.Advances ctx' → R ctx ctx'
  restore : ∀ {ctx ctx' : Context}, R ctx ctx' → R ctx { ctx' with params := ctx.params }

instance (R : Context → Context → Prop) [WideFrame R] : RaisingFrame R where
  raises := fun same raises counter =>
    WideFrame.advances ⟨same, raises, Nat.le_of_eq (Eq.symm counter)⟩

/-- A fact about contexts that the relation carries over. -/
class Stable (I : Context → Prop) (R : Context → Context → Prop) : Prop where
  of_rel : ∀ {ctx ctx'}, R ctx ctx' → I ctx → I ctx'

instance : WideFrame Advances where
  refl := fun ctx => ⟨⟨rfl, rfl⟩, Progress.refl ctx⟩
  trans := fun first second =>
    ⟨first.toSameNames.trans second.toSameNames, first.toProgress.trans second.toProgress⟩
  advances := id
  restore := fun advances =>
    ⟨⟨advances.globals, advances.inner⟩, SameParams.raisesPrecision rfl, advances.generated⟩

instance : WideFrame Confined where
  refl := fun ctx => (Advances.mk ⟨rfl, rfl⟩ (Progress.refl ctx)).confined
  trans := Confined.trans
  advances := Advances.confined
  restore := fun confined =>
    ⟨⟨SameParams.raisesPrecision rfl, confined.generated⟩, fun shape => confined.scopes shape⟩

instance : Frame SameParams where
  refl := fun _ => rfl
  trans := fun first second => second.trans first

instance : RaisingFrame SameCounter where
  refl := fun _ => rfl
  trans := fun first second => second.trans first
  raises := fun _ _ counter => counter

instance : Frame RaisesPrecision where
  refl := fun _ => SameParams.raisesPrecision rfl
  trans := RaisesPrecision.trans

instance (R : Context → Context → Prop) : Stable (fun _ => True) R :=
  ⟨fun _ known => known⟩

variable {α β : Type} {I : Context → Prop} {R : Context → Context → Prop}
  {P : α → Prop} {Q : β → Prop}

/-- From every context with `I` the computation ends in a related one, also when it fails, and a
result has the property. -/
def Ensures (I : Context → Prop) (R : Context → Context → Prop) (act : Calc α) (P : α → Prop) :
    Prop :=
  ∀ ctx, I ctx → R ctx (act ctx).2 ∧ ∀ a, (act ctx).1 = .ok a → P a

/-- From every context the computation ends in a related one. -/
abbrev Keeps (R : Context → Context → Prop) (act : Calc α) : Prop :=
  Ensures (fun _ => True) R act fun _ => True

theorem Keeps.rel {act : Calc α} (keeps : Keeps R act) (ctx : Context) : R ctx (act ctx).2 :=
  (keeps ctx trivial).1

theorem keeps_of_rel {act : Calc α} (related : ∀ ctx, R ctx (act ctx).2) : Keeps R act :=
  fun ctx _ => ⟨related ctx, fun _ _ => trivial⟩

theorem Ensures.keeps {act : Calc α} (ensures : Ensures (fun _ => True) R act P) : Keeps R act :=
  fun ctx known => ⟨(ensures ctx known).1, fun _ _ => trivial⟩

/-- A weaker relation and a stronger fact about the context. -/
theorem Ensures.mono {I' : Context → Prop} {R' : Context → Context → Prop} {P' : α → Prop}
    {act : Calc α} (ensures : Ensures I R act P) (known : ∀ ctx, I' ctx → I ctx)
    (related : ∀ ctx ctx', R ctx ctx' → R' ctx ctx') (result : ∀ a, P a → P' a) :
    Ensures I' R' act P' :=
  fun ctx holds => ⟨related _ _ (ensures ctx (known ctx holds)).1,
    fun a done => result a ((ensures ctx (known ctx holds)).2 a done)⟩

theorem Keeps.ensures {act : Calc α} (keeps : Keeps R act) : Ensures I R act fun _ => True :=
  keeps.mono (fun _ _ => trivial) (fun _ _ related => related) fun _ _ => trivial

theorem Ensures.widen [WideFrame R] {act : Calc α} (ensures : Ensures I Advances act P) :
    Ensures I R act P :=
  ensures.mono (fun _ known => known) (fun _ _ => WideFrame.advances) fun _ holds => holds

theorem Keeps.widen [WideFrame R] {act : Calc α} (keeps : Keeps Advances act) : Keeps R act :=
  Ensures.widen keeps

section Frame

variable [Frame R]

theorem ensures_pure {a : α} (holds : P a) : Ensures I R (pure a) P := by
  intro ctx _
  refine ⟨Frame.refl ctx, fun b done => ?_⟩
  cases done
  exact holds

theorem Ensures.bind [Stable I R] {act : Calc α} {next : α → Calc β} (first : Ensures I R act P)
    (second : ∀ a, P a → Ensures I R (next a) Q) : Ensures I R (act >>= next) Q := by
  intro ctx known
  obtain ⟨related, result⟩ := first ctx known
  rcases run : act ctx with ⟨outcome, ctx'⟩
  rw [run] at related result
  cases outcome with
  | ok a =>
    rw [bind_ok run]
    obtain ⟨related', result'⟩ := second a (result a rfl) ctx' (Stable.of_rel related known)
    exact ⟨Frame.trans related related', result'⟩
  | error fault =>
    rw [bind_error run]
    exact ⟨related, fun _ done => nomatch done⟩

theorem Ensures.map [Stable I R] {act : Calc α} {f : α → β} (first : Ensures I R act P)
    (second : ∀ a, P a → Q (f a)) : Ensures I R (f <$> act) Q := by
  rw [map_eq_pure_bind]
  exact first.bind fun a holds => ensures_pure (second a holds)

theorem ensures_look {f : Context → α} (known : ∀ ctx, I ctx → P (f ctx)) :
    Ensures I R (look f) P := by
  intro ctx holds
  refine ⟨Frame.refl ctx, fun a done => ?_⟩
  cases done
  exact known ctx holds

theorem ensures_lift {result : Except Fault α} (known : ∀ a, result = .ok a → P a) :
    Ensures I R (lift result) P :=
  fun ctx _ => ⟨Frame.refl ctx, known⟩

theorem ensures_decimal {result : Except Signal α} (known : ∀ a, result = .ok a → P a) :
    Ensures I R (decimal result) P :=
  ensures_lift fun a done => known a (liftSignal_eq_ok.1 done)

theorem keeps_pure (a : α) : Keeps R (pure a) :=
  ensures_pure trivial

theorem keeps_look (f : Context → α) : Keeps R (look f) :=
  ensures_look fun _ _ => trivial

theorem keeps_lift (result : Except Fault α) : Keeps R (lift result) :=
  ensures_lift fun _ _ => trivial

theorem keeps_decimal (result : Except Signal α) : Keeps R (decimal result) :=
  ensures_decimal fun _ _ => trivial

theorem ensures_fail (fault : Fault) : Ensures I R (fail fault : Calc α) P :=
  ensures_lift fun _ done => nomatch done

/-- Nothing follows a failure. -/
theorem ensures_fail_bind (fault : Fault) (next : α → Calc β) :
    Ensures I R (fail fault >>= next) Q := by
  intro ctx _
  rw [bind_error (fail_apply fault ctx)]
  exact ⟨Frame.refl ctx, fun _ done => nomatch done⟩

/-- The two ways to a result come together again. -/
theorem ensures_join [Stable I R] {c : Prop} [Decidable c] {act act' : Calc α} {next : α → Calc β}
    (first : Ensures I R act P) (second : Ensures I R act' P)
    (rest : ∀ a, P a → Ensures I R (next a) Q) :
    Ensures I R (if c then act >>= next else act' >>= next) Q := by
  split
  · exact first.bind rest
  · exact second.bind rest

theorem ensures_tree {source : String} {names : List String} {P : Expr → Prop}
    (known : ∀ ctx e, I ctx → ctx.read source names = .ok e → P e) :
    Ensures I R (tree source names) P :=
  fun ctx holds => ⟨Frame.refl ctx, fun e done => known ctx e holds done⟩

end Frame

/-- What comes after the tree of a text has been read. -/
theorem tree_bind {source : String} {names : List String} {next : Expr → Calc α} (ctx : Context) :
    (tree source names >>= next) ctx = match ctx.read source names with
      | .ok e => next e ctx
      | .error fault => (.error fault, ctx) := by
  cases done : ctx.read source names with
  | ok e => exact bind_ok (congrArg (·, ctx) done)
  | error fault => exact bind_error (congrArg (·, ctx) done)

theorem keeps_attempt {act : Calc α} (keeps : Keeps R act) (caught : Fault → Bool) :
    Keeps R (attempt caught act) := by
  refine keeps_of_rel fun ctx => ?_
  have related := keeps.rel ctx
  unfold attempt
  rcases run : act ctx with ⟨outcome, ctx'⟩
  rw [run] at related
  cases outcome <;> exact related

/-! ## Properties of computations -/

/-- A property of computations that those have which raise the precision at most, and that chains
and attempts of computations have if the parts do. -/
structure Closed (T : ∀ {α : Type}, Calc α → Prop) : Prop where
  raising : ∀ {α : Type} {act : Calc α},
    (∀ {R : Context → Context → Prop} [RaisingFrame R], Keeps R act) → T act
  bind : ∀ {α β : Type} {act : Calc α} {next : α → Calc β}, T act → (∀ a, T (next a)) →
    T (act >>= next)
  attempt : ∀ {α : Type} {act : Calc α} (caught : Fault → Bool), T act → T (attempt caught act)

theorem closed_keeps [RaisingFrame R] : Closed fun {α : Type} (act : Calc α) => Keeps R act where
  raising := fun keeps => keeps
  bind := fun first second => first.bind fun a _ => second a
  attempt := fun caught keeps => keeps_attempt keeps caught

section Closed

variable {T : ∀ {α : Type}, Calc α → Prop} (closed : Closed T)

include closed

theorem Closed.pure (a : α) : T (pure a : Calc α) :=
  closed.raising (keeps_pure a)

theorem Closed.look (f : Context → α) : T (look f) :=
  closed.raising (keeps_look f)

theorem Closed.lift (result : Except Fault α) : T (lift result) :=
  closed.raising (keeps_lift result)

theorem Closed.decimal (result : Except Signal α) : T (decimal result) :=
  closed.raising (keeps_decimal result)

theorem Closed.fail (fault : Fault) : T (fail fault : Calc α) :=
  closed.raising (ensures_fail fault)

theorem Closed.fail_bind (fault : Fault) (next : α → Calc β) : T (Calc.fail fault >>= next) :=
  closed.raising (ensures_fail_bind fault next)

end Closed

/-! ## Scopes and settings -/

theorem keeps_define (f : Function) : Keeps Confined (define f) := by
  refine keeps_of_rel fun ctx => ?_
  unfold define
  split
  next done =>
    obtain ⟨-, -, -, rfl⟩ := define_eq_ok.1 done
    exact confined_updateCurrent ctx (·.insert f.name (.function f))
  next => exact Frame.refl ctx

theorem le_freshFrom (taken : String → Bool) (fuel n : Nat) : n ≤ (freshFrom taken fuel n).2 := by
  induction fuel generalizing n with
  | zero => exact Nat.le_succ n
  | succ fuel ih =>
    unfold freshFrom
    split
    · exact Nat.le_of_succ_le (ih (n + 1))
    · exact Nat.le_succ n

theorem keeps_freshName [WideFrame R] : Keeps R freshName :=
  Keeps.widen <| keeps_of_rel fun ctx =>
    ⟨⟨rfl, rfl⟩, SameParams.raisesPrecision rfl, le_freshFrom _ _ ctx.generated⟩

/-- The scope of a computation is dropped after it, unless the computation has dropped all. -/
theorem after_withScope {T : Context → Prop} {act : Calc α} {ctx : Context}
    (dropped : ∀ ctx', (act ctx.push).2.pop = .ok ctx' → T ctx')
    (kept : (∃ fault, (act ctx.push).2.pop = .error fault) → T (act ctx.push).2) :
    T (withScope act ctx).2 := by
  unfold withScope
  -- the scope is dropped whether the computation succeeds or not
  rcases run : act ctx.push with ⟨result, inner⟩
  rw [run] at dropped kept
  dsimp only
  split
  next ctx' popped => exact dropped ctx' popped
  next fault failed => exact kept ⟨fault, failed⟩

/-- A result in a scope of its own is one in the new scope, which is then dropped. -/
theorem exists_of_withScope {act : Calc α} {ctx after : Context} {a : α}
    (done : withScope act ctx = (.ok a, after)) :
    ∃ inner, act ctx.push = (.ok a, inner) ∧ inner.pop = .ok after := by
  rcases run : act ctx.push with ⟨result, inner⟩
  unfold withScope at done
  rw [run] at done
  dsimp only at done
  split at done
  next popped =>
    cases done
    exact ⟨inner, rfl, popped⟩
  next => cases done

/-- A scope of its own takes with it what is defined and bound in it. -/
theorem keeps_withScope [WideFrame R] {act : Calc α} (keeps : Keeps Confined act) :
    Keeps R (withScope act) := by
  refine Keeps.widen <| keeps_of_rel fun ctx => ?_
  obtain ⟨ctx', popped, advances⟩ := (keeps.rel ctx.push).pop
  refine after_withScope (T := ctx.Advances) (fun ctx'' popped' => ?_) fun failed => ?_
  · rw [popped] at popped'
    cases popped'
    exact advances
  · rw [popped] at failed
    cases failed.choose_spec

theorem sameParams_withParams (act : Calc α) : Keeps SameParams (withParams act) :=
  keeps_of_rel fun _ => rfl

theorem sameParams_withScope {act : Calc α} (keeps : Keeps SameParams act) :
    Keeps SameParams (withScope act) := by
  refine keeps_of_rel fun ctx => ?_
  have related : (act ctx.push).2.params = ctx.params := keeps.rel ctx.push
  refine after_withScope (T := ctx.SameParams) (fun ctx' popped => ?_) fun _ => related
  obtain ⟨_, _, -, rfl⟩ := pop_eq_ok.1 popped
  exact related

/-- A copy of the settings takes a raised precision with it. -/
theorem keeps_withParams [WideFrame R] {act : Calc α} (keeps : Keeps R act) :
    Keeps R (withParams act) :=
  keeps_of_rel fun ctx => WideFrame.restore (keeps.rel ctx)

/-- Two closed properties of computations. The one also allows definitions and bindings, and a
computation with it in a scope of its own has the other. -/
structure Layered (T S : ∀ {α : Type}, Calc α → Prop) : Prop where
  outer : Closed T
  inner : Closed S
  inside : ∀ {α : Type} {act : Calc α}, T act → S act
  withScope : ∀ {α : Type} {act : Calc α}, S act → T (withScope act)
  freshName : S freshName
  define : ∀ f : Function, S (define f)
  bind : ∀ bindings : List (String × Term),
    S (update fun ctx => bindings.foldl (fun ctx (name, t) => ctx.bind name t) ctx)

theorem layered_advances : Layered (fun {α : Type} (act : Calc α) => Keeps Advances act)
    fun {α : Type} (act : Calc α) => Keeps Confined act where
  outer := closed_keeps
  inner := closed_keeps
  inside := fun keeps => keeps.widen
  withScope := keeps_withScope
  freshName := keeps_freshName
  define := keeps_define
  bind := fun bindings => keeps_of_rel (confined_bindAll bindings)

end Calc

end Reckon
