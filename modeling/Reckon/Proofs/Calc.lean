import Reckon.Context

/-!
# Running computations

How a computation in a context runs: one equation for each way to build it. `bind_ok` follows a
computation past a step that has succeeded. `Yields` says that a computation has the same result
whatever the settings are, with one rule for each way to build it.
-/

namespace Reckon

/-- What a chain of results that succeeds consists of. -/
theorem exists_of_ok_bind {ε α β : Type} {result : Except ε α} {next : α → Except ε β} {b : β}
    (done : (result >>= next) = .ok b) : ∃ a, result = .ok a ∧ next a = .ok b := by
  cases result with
  | ok a => exact ⟨a, rfl, done⟩
  | error fault => cases done

theorem liftSignal_eq_ok {α : Type} {result : Except Signal α} {a : α} :
    liftSignal result = .ok a ↔ result = .ok a := by
  cases result with
  | ok b => simp [liftSignal]
  | error signal => simp [liftSignal]

/-- The contexts differ in their settings only. -/
structure Context.SameNames (ctx ctx' : Context) : Prop where
  globals : ctx'.globals = ctx.globals
  inner : ctx'.inner = ctx.inner

namespace Context.SameNames

variable {ctx ctx' : Context}

theorem refl (ctx : Context) : ctx.SameNames ctx :=
  ⟨rfl, rfl⟩

theorem trans {ctx'' : Context} (same : ctx.SameNames ctx') (same' : ctx'.SameNames ctx'') :
    ctx.SameNames ctx'' :=
  ⟨same'.globals.trans same.globals, same'.inner.trans same.inner⟩

theorem lookupVariable_eq (same : ctx.SameNames ctx') (name : String) :
    ctx'.lookupVariable name = ctx.lookupVariable name := by
  rw [lookupVariable, lookupVariable, current, current, same.globals, same.inner]

theorem isBound_eq (same : ctx.SameNames ctx') : ctx'.isBound = ctx.isBound := by
  funext name
  rw [isBound, isBound, same.lookupVariable_eq]

theorem vocabulary_eq (same : ctx.SameNames ctx') : ctx'.vocabulary = ctx.vocabulary := by
  obtain ⟨params, globals, inner, generated⟩ := ctx
  obtain ⟨params', globals', inner', generated'⟩ := ctx'
  obtain ⟨rfl, rfl⟩ := same
  rfl

end Context.SameNames

theorem Context.read_eq_ok {ctx : Context} {source : String} {e : Expr} :
    ctx.read source [] = .ok e ↔ parse ctx.vocabulary source = .ok e := by
  have plain : ctx.vocabulary.extend [] = ctx.vocabulary := rfl
  rw [read, plain]
  cases parse ctx.vocabulary source <;> simp

namespace Calc

variable {α β : Type}

@[simp]
theorem pure_apply (a : α) (ctx : Context) : (pure a : Calc α) ctx = (.ok a, ctx) := rfl

@[simp]
theorem look_apply (f : Context → α) (ctx : Context) : look f ctx = (.ok (f ctx), ctx) := rfl

@[simp]
theorem update_apply (f : Context → Context) (ctx : Context) :
    update f ctx = (.ok (), f ctx) := rfl

@[simp]
theorem fail_apply (fault : Fault) (ctx : Context) :
    (fail fault : Calc α) ctx = (.error fault, ctx) := rfl

@[simp]
theorem lift_apply (result : Except Fault α) (ctx : Context) : lift result ctx = (result, ctx) :=
  rfl

theorem lift_ok {result : Except Fault α} {a : α} (done : result = .ok a) (ctx : Context) :
    lift result ctx = (.ok a, ctx) := by
  rw [lift_apply, done]

theorem decimal_ok {result : Except Signal α} {a : α} (done : result = .ok a) (ctx : Context) :
    decimal result ctx = (.ok a, ctx) := by
  rw [decimal, done]
  rfl

/-- A computation goes on with the result of a step that has succeeded. -/
theorem bind_ok {act : Calc α} {next : α → Calc β} {ctx ctx' : Context} {a : α}
    (done : act ctx = (.ok a, ctx')) : (act >>= next) ctx = next a ctx' := by
  change ExceptT.bindCont next (act ctx).1 (act ctx).2 = _
  rw [done]
  rfl

/-- A step that fails ends the computation. -/
theorem bind_error {act : Calc α} {next : α → Calc β} {ctx ctx' : Context} {fault : Fault}
    (failed : act ctx = (.error fault, ctx')) : (act >>= next) ctx = (.error fault, ctx') := by
  change ExceptT.bindCont next (act ctx).1 (act ctx).2 = _
  rw [failed]
  rfl

/-- What a computation that succeeds consists of. -/
theorem exists_of_bind {act : Calc α} {next : α → Calc β} {ctx ctx'' : Context} {b : β}
    (done : (act >>= next) ctx = (.ok b, ctx'')) :
    ∃ a ctx', act ctx = (.ok a, ctx') ∧ next a ctx' = (.ok b, ctx'') := by
  rcases first : act ctx with ⟨result, ctx'⟩
  cases result with
  | ok a => exact ⟨a, ctx', rfl, (bind_ok first).symm.trans done⟩
  | error fault =>
    rw [bind_error first] at done
    cases done

theorem map_ok {act : Calc α} {f : α → β} {ctx ctx' : Context} {a : α}
    (done : act ctx = (.ok a, ctx')) : (f <$> act) ctx = (.ok (f a), ctx') := by
  rw [map_eq_pure_bind, bind_ok done, pure_apply]

/-! ## Results that do not depend on the settings -/

/-- In every context with these names the computation has this result, and the names are kept. -/
def Yields (ctx : Context) (act : Calc α) (a : α) : Prop :=
  ∀ ⦃before⦄, ctx.SameNames before → ∃ after, ctx.SameNames after ∧ act before = (.ok a, after)

variable {ctx : Context} {a : α} {b : β}

theorem Yields.result {act : Calc α} (yields : Yields ctx act a) : (act ctx).1 = .ok a := by
  obtain ⟨after, -, done⟩ := yields (Context.SameNames.refl ctx)
  rw [done]

theorem yields_pure (a : α) : Yields ctx (pure a) a :=
  fun before same => ⟨before, same, rfl⟩

theorem Yields.bind {act : Calc α} {next : α → Calc β} (first : Yields ctx act a)
    (second : Yields ctx (next a) b) : Yields ctx (act >>= next) b := by
  intro before same
  obtain ⟨middle, kept, done⟩ := first same
  obtain ⟨after, kept', done'⟩ := second kept
  exact ⟨after, kept', (bind_ok done).trans done'⟩

theorem yields_decimal {result : Except Signal α} (done : result = .ok a) :
    Yields ctx (decimal result) a :=
  fun before same => ⟨before, same, decimal_ok done before⟩

theorem yields_look {f : Context → α} (known : ∀ before, ctx.SameNames before → f before = a) :
    Yields ctx (look f) a := by
  intro before same
  exact ⟨before, same, by rw [look_apply, known before same]⟩

end Calc

end Reckon
