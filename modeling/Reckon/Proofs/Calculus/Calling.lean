import Mathlib.Data.List.Forall2
import Reckon.Proofs.Calculus.Inline

/-!
# Inlining agrees with calling

An evaluation binds the values of the arguments in a new scope; inlining puts the trees of the
arguments in place of the parameters. A tree that has been inlined has the value that the
evaluation has had (`follows_inlineWithin`), because inside of a call a variable is a parameter or
a global one (`Context.Inside`): it never means something else than in its argument.
-/

namespace Reckon

open Calc Context

/-! ## Inside of a call -/

namespace Scope

/-- A scope with the given values on top of what it has. -/
def bindValues (scope : Scope) (values : List (String × Term)) : Scope :=
  values.foldl (fun scope value => scope.insert value.1 (.value value.2)) scope

theorem function?_bindValues (scope : Scope) (values : List (String × Term)) (name : String) :
    (scope.bindValues values).function? name = scope.function? name := by
  induction values generalizing scope with
  | nil => rfl
  | cons value values ih => exact (ih _).trans (function?_insert_value scope _ _ name)

/-- Each name is bound once, so the first value of a name is its last. -/
theorem value?_bindValues {values : List (String × Term)} (distinct : (values.map (·.1)).Nodup)
    (scope : Scope) (name : String) :
    (scope.bindValues values).value? name = (values.lookup name).or (scope.value? name) := by
  induction values generalizing scope with
  | nil => rfl
  | cons value values ih =>
    obtain ⟨bound, t⟩ := value
    obtain ⟨absent, distinct⟩ := List.nodup_cons.1 distinct
    show ((scope.insert bound (.value t)).bindValues values).value? name = _
    rw [ih distinct, value?_insert_value, List.lookup_cons]
    by_cases same : name = bound
    · have unbound : values.lookup name = none := by
        rw [List.lookup_eq_none_iff]
        intro entry member
        have other : entry.1 ≠ bound := fun equal =>
          absent (List.mem_map.2 ⟨entry, member, equal⟩)
        simpa [same] using other.symm
      rw [unbound, same]
      simp
    · rw [if_neg same, beq_false_of_ne same]

end Scope

namespace Context

/-- The context has only the global scope, and the parameters of a function have different names. -/
structure TopLevel (ctx : Context) : Prop where
  inner : ctx.inner = []
  distinct : ∀ name f, ctx.lookupFunction name = some f → f.params.Nodup

/-- A context inside of calls: it knows the functions and the global variables of the context
around it, and some values of its own. -/
structure Inside (ctx : Context) (values : String → Option Term) (inner : Context) : Prop where
  params : inner.params = ctx.params
  globals : inner.globals = ctx.globals
  lookupFunction : ∀ name, inner.lookupFunction name = ctx.lookupFunction name
  lookupVariable : ∀ name, inner.lookupVariable name = (values name).or (ctx.globals.value? name)

theorem TopLevel.inside {ctx : Context} (top : ctx.TopLevel) :
    ctx.Inside (fun _ => none) ctx := by
  refine ⟨rfl, rfl, fun _ => rfl, fun name => ?_⟩
  rw [Context.lookupVariable, current, top.inner]
  exact Option.or_self

/-- The context in which the body of a function is evaluated. -/
def enter (ctx : Context) (values : List (String × Term)) : Context :=
  { ctx with inner := Scope.bindValues {} values :: ctx.inner }

theorem enter_eq (ctx : Context) (values : List (String × Term)) :
    values.foldl (fun ctx value => ctx.bind value.1 value.2) ctx.push = ctx.enter values := by
  have bound : ∀ (values : List (String × Term)) (scope : Scope),
      values.foldl (fun ctx value => ctx.bind value.1 value.2)
        { ctx with inner := scope :: ctx.inner } =
      { ctx with inner := scope.bindValues values :: ctx.inner } := by
    intro values
    induction values with
    | nil => exact fun _ => rfl
    | cons value values ih => exact fun scope => ih (scope.insert value.1 (.value value.2))
  exact bound values {}

theorem Inside.enter {ctx inner : Context} {values : String → Option Term}
    (inside : ctx.Inside values inner) {params : List String} (distinct : params.Nodup)
    {ts : List Term} (fits : params.length = ts.length) :
    ctx.Inside (fun name => (params.zip ts).lookup name) (inner.enter (params.zip ts)) := by
  refine ⟨inside.params, inside.globals, fun name => ?_, fun name => ?_⟩
  · rw [← inside.lookupFunction name]
    show ((Scope.bindValues {} _) :: inner.scopes).findSome? (·.function? name) = _
    rw [List.findSome?_cons, Scope.function?_bindValues]
    rfl
  · have keys : ((params.zip ts).map (·.1)).Nodup := by
      rw [List.map_fst_zip (Nat.le_of_eq fits)]
      exact distinct
    show ((Scope.bindValues {} _).value? name).or (inner.globals.value? name) = _
    rw [Scope.value?_bindValues keys, inside.globals]
    exact congrArg (Option.or · _) Option.or_none

end Context

theorem lift_checkArity {signature : String} {expected given : Nat} {ctx ctx' : Context} {u : Unit}
    (done : lift (checkArity signature expected given) ctx = (.ok u, ctx')) :
    given = expected ∧ ctx = ctx' := by
  unfold checkArity at done
  split at done
  next fits => exact ⟨fits, congrArg Prod.snd done⟩
  next => cases done

/-- A call that succeeds: the number of arguments is right, and the body has been evaluated with
the arguments in its scope. -/
theorem exists_of_callFunction {m digits : Nat} {name : String} {ts : List Term} {t : Term}
    {ctx after : Context} {f : Function} (found : ctx.lookupFunction name = some f)
    (run : callFunction m digits name ts ctx = (.ok t, after)) :
    f.params.length = ts.length ∧ ∃ m' inner, inner.pop = .ok after ∧
      f.body.evalWith (callFunction m') digits (ctx.enter (f.params.zip ts)) = (.ok t, inner) := by
  cases m with
  | zero => cases run
  | succ m =>
    unfold callFunction at run
    rw [bind_ok (look_apply _ ctx), found] at run
    obtain ⟨_, ctx', checked, run⟩ := exists_of_bind run
    obtain ⟨fits, rfl⟩ := lift_checkArity checked
    obtain ⟨inner, evaluated, popped⟩ := exists_of_withScope run
    rw [bind_ok (update_apply _ ctx.push)] at evaluated
    refine ⟨fits.symm, m, inner, popped, ?_⟩
    rw [← Context.enter_eq]
    exact evaluated

/-! ## Values of trees without calls -/

namespace Expr

/-- A tree without calls of functions that has this value in the context. -/
structure HasValue (ctx : Context) (digits : Nat) (e : Expr) (t : Term) : Prop where
  callFree : CallFree ctx e
  evaluates : ∀ call : Caller, e.evalWith call digits ctx = (.ok t, ctx)

variable {ctx inner : Context} {digits : Nat}

theorem evalAllWith_of_hasValue {es : List Expr} {ts : List Term}
    (each : List.Forall₂ (HasValue ctx digits) es ts) (call : Caller) :
    evalAllWith call digits es ctx = (.ok ts, ctx) := by
  induction each with
  | nil => rfl
  | cons first _ ih =>
    rw [evalAllWith, bind_ok (first.evaluates call), bind_ok ih]
    rfl

theorem callFree_of_hasValue {es : List Expr} {ts : List Term}
    (each : List.Forall₂ (HasValue ctx digits) es ts) : ∀ e ∈ es, CallFree ctx e := by
  induction each with
  | nil => exact fun _ member => absurd member List.not_mem_nil
  | cons first _ ih => exact List.forall_mem_cons.2 ⟨first.callFree, ih⟩

/-- The trees and the values of the arguments, under the names of the parameters. -/
theorem rel_lookup_zip {es : List Expr} {ts : List Term}
    (each : List.Forall₂ (HasValue ctx digits) es ts) (params : List String) (name : String) :
    Option.Rel (HasValue ctx digits) ((params.zip es).lookup name)
      ((params.zip ts).lookup name) := by
  induction each generalizing params with
  | nil =>
    rw [List.zip_nil_right, List.zip_nil_right]
    exact .none
  | cons first _ ih =>
    cases params with
    | nil => exact .none
    | cons param params =>
      rw [List.zip_cons_cons, List.zip_cons_cons, List.lookup_cons, List.lookup_cons]
      cases name == param with
      | true => exact .some first
      | false => exact ih params

/-! ## Inlining follows evaluating -/

/-- If the evaluation inside of a call succeeds, it leaves its context as it was, and what
corresponds to it outside succeeds as well, with a related result. -/
def Follows {α β : Type} (ctx inner : Context) (act : Calc α) (run : Calc β) (S : α → β → Prop) :
    Prop :=
  ∀ b after, run inner = (.ok b, after) → after = inner ∧ ∃ a, act ctx = (.ok a, ctx) ∧ S a b

section Follows

variable {α β γ δ : Type} {S : α → β → Prop} {T : γ → δ → Prop}

theorem Follows.bind {act : Calc α} {run : Calc β} {next : α → Calc γ} {next' : β → Calc δ}
    (first : Follows ctx inner act run S)
    (second : ∀ a b, S a b → Follows ctx inner (next a) (next' b) T) :
    Follows ctx inner (act >>= next) (run >>= next') T := by
  intro d after done
  obtain ⟨b, middle, ran, rest⟩ := exists_of_bind done
  obtain ⟨rfl, a, acted, related⟩ := first b middle ran
  obtain ⟨rfl, c, acted', related'⟩ := second a b related d after rest
  exact ⟨rfl, c, (bind_ok acted).trans acted', related'⟩

/-- What has succeeded outside is related to all that can come out inside. -/
theorem follows_pure {a : α} {run : Calc β}
    (related : ∀ b after, run inner = (.ok b, after) → after = inner ∧ S a b) :
    Follows ctx inner (pure a) run S :=
  fun b after done => ⟨(related b after done).1, a, rfl, (related b after done).2⟩

end Follows

variable {values : String → Option Term} {bindings : Bindings} {fuel : Nat}
  {again : Expr → Calc Expr}

theorem evalWith_literal {n : Decimal} {written : Bool}
    (short : written = true → n.significantDigits ≤ ctx.params.precision) (call : Caller) :
    (Expr.literal n written).evalWith call digits ctx = (.ok (.numeric n), ctx) := by
  rw [evalWith]
  cases written with
  | false => rfl
  | true =>
    have kept : raisePrecision n ctx = (.ok (), ctx) := by
      rw [raisePrecision, update_apply, if_neg (Nat.not_lt.2 (short rfl))]
    exact bind_ok kept

/-- The trees stand for the values that variables have inside of a call. -/
structure Represents (ctx : Context) (digits : Nat) (bindings : Bindings)
    (values : String → Option Term) (inner : Context) : Prop extends ctx.Inside values inner where
  related : ∀ name, Option.Rel (HasValue ctx digits) (bindings.lookup name) (values name)

theorem follows_var (top : ctx.TopLevel) (represents : Represents ctx digits bindings values inner)
    (call : Caller) (name : String) :
    Follows ctx inner (((Expr.var name).substitute bindings).inlineWith again)
      ((Expr.var name).evalWith call digits) (HasValue ctx digits) := by
  intro t after done
  rw [evalWith, bind_ok (look_apply _ inner), represents.lookupVariable name] at done
  rw [substitute]
  have rel := represents.related name
  generalize bindings.lookup name = tree, values name = value at rel done
  cases rel with
  | some value =>
    -- a parameter: the tree of the argument
    cases done
    exact ⟨rfl, _, inlineWith_of_callFree again _ value.callFree, value⟩
  | none =>
    -- a global variable, or none
    cases done
    refine ⟨rfl, .var name, rfl, callFree_var name, fun call => ?_⟩
    rw [evalWith, bind_ok (look_apply _ ctx), top.inside.lookupVariable]
    rfl

theorem follows_unary {e : Expr} {act : Calc Expr} {call : Caller}
    (operand : Follows ctx inner act (e.evalWith call digits) (HasValue ctx digits)) (sign : Sign) :
    Follows ctx inner (.unary sign <$> act) ((Expr.unary sign e).evalWith call digits)
      (HasValue ctx digits) := by
  rw [evalWith, map_eq_pure_bind]
  refine operand.bind fun e' t value => follows_pure fun t' after done => ?_
  cases sign with
  | positive =>
    cases done
    refine ⟨rfl, callFree_unary.2 value.callFree, fun call => ?_⟩
    rw [evalWith, bind_ok (value.evaluates call)]
    rfl
  | negative =>
    obtain ⟨negated, rfl⟩ := Prod.mk.inj done
    refine ⟨rfl, callFree_unary.2 value.callFree, fun call => ?_⟩
    rw [evalWith, bind_ok (value.evaluates call)]
    exact lift_ok negated ctx

/-- An operation on trees that have values. -/
theorem follows_operation (inside : ctx.Inside values inner) {op : Operator} {attached : Bool}
    {l r : Expr} {a b : Term} (left : HasValue ctx digits l a) (right : HasValue ctx digits r b) :
    Follows ctx inner (pure (.binary op attached l r))
      (do
        let precision ← Calc.look (·.params.precision)
        Calc.lift (Term.combine digits op (some precision) a b)) (HasValue ctx digits) := by
  refine follows_pure fun t after done => ?_
  rw [bind_ok (look_apply _ inner), inside.params, lift_apply] at done
  obtain ⟨combined, rfl⟩ := Prod.mk.inj done
  refine ⟨rfl, callFree_binary.2 ⟨left.callFree, right.callFree⟩, fun call => ?_⟩
  rw [evalWith, bind_ok (left.evaluates call), bind_ok (right.evaluates call),
    bind_ok (look_apply _ ctx)]
  exact lift_ok combined ctx

/-- A native function of trees that have values. -/
theorem follows_native (inside : ctx.Inside values inner) {name : String} {n : Native}
    (unknown : ctx.lookupFunction name = none) (known : ctx.native? name = some n)
    (takesValues : n.takesExpressions = false) {es : List Expr} {ts : List Term}
    (each : List.Forall₂ (HasValue ctx digits) es ts) :
    Follows ctx inner (pure (.call name es)) (applyToValues n ts) (HasValue ctx digits) := by
  refine follows_pure fun t after done => ?_
  rw [applyToValues, bind_ok (look_apply _ inner), inside.params] at done
  obtain ⟨applied, rfl⟩ := Prod.mk.inj done
  refine ⟨rfl, callFree_call.2 ⟨unknown, callFree_of_hasValue each⟩, fun call => ?_⟩
  rw [evalWith, bind_ok (look_apply _ ctx), unknown]
  show (look (·.native? name) >>= _) ctx = _
  rw [bind_ok (look_apply _ ctx), known]
  dsimp only
  rw [takesValues]
  show (evalAllWith call digits es >>= applyToValues n) ctx = _
  rw [bind_ok (evalAllWith_of_hasValue each call), applyToValues, bind_ok (look_apply _ ctx)]
  exact lift_ok applied ctx

/-- What inlines bodies follows the evaluation of bodies. -/
def FollowsBodies (ctx : Context) (digits fuel : Nat) (again : Expr → Calc Expr) : Prop :=
  ∀ {e : Expr} {bindings : Bindings} {values : String → Option Term} {inner : Context} (m : Nat),
    Tame ctx False True fuel e → Represents ctx digits bindings values inner →
    Follows ctx inner (again (e.substitute bindings)) (e.evalWith (callFunction m) digits)
      (HasValue ctx digits)

/-- A call of a function with trees that have values. -/
theorem follows_function (top : ctx.TopLevel) (inside : ctx.Inside values inner) {name : String}
    {f : Function} (found : ctx.lookupFunction name = some f)
    (bodies : FollowsBodies ctx digits fuel again) (tame : Tame ctx False True fuel f.body)
    {es : List Expr} {ts : List Term} (each : List.Forall₂ (HasValue ctx digits) es ts) (m : Nat) :
    Follows ctx inner
      (do
        Calc.lift (checkArity f.signature f.params.length es.length)
        again (f.body.substitute (f.params.zip es)))
      (callFunction m digits name ts) (HasValue ctx digits) := by
  intro t after done
  obtain ⟨fits, m', inner', popped, evaluated⟩ :=
    exists_of_callFunction ((inside.lookupFunction name).trans found) done
  have checked : lift (checkArity f.signature f.params.length es.length) ctx = (.ok (), ctx) := by
    rw [lift_apply, checkArity, if_pos (each.length_eq.trans fits.symm)]
  have represents : Represents ctx digits (f.params.zip es)
      (fun name => (f.params.zip ts).lookup name) (inner.enter (f.params.zip ts)) :=
    ⟨inside.enter (top.distinct name f found) fits, rel_lookup_zip each f.params⟩
  obtain ⟨rfl, e, inlined, value⟩ := bodies m' tame represents t inner' evaluated
  -- the body has left the scope of the call as it was, so dropping it leads back
  cases popped
  exact ⟨rfl, e, (bind_ok checked).trans inlined, value⟩

mutual

theorem follows_inlineWith (top : ctx.TopLevel)
    (represents : Represents ctx digits bindings values inner)
    (bodies : FollowsBodies ctx digits fuel again) (m : Nat) :
    ∀ e : Expr, Tame ctx False True (fuel + 1) e →
      Follows ctx inner ((e.substitute bindings).inlineWith again)
        (e.evalWith (callFunction m) digits) (HasValue ctx digits)
  | .literal n written, tame => by
    have short := tame.1 _ (self_mem_parts _)
    refine follows_pure fun t after done => ?_
    rw [evalWith_literal (represents.params ▸ short)] at done
    cases done
    exact ⟨rfl, callFree_literal n written, evalWith_literal short⟩
  | .var name, _ => follows_var top represents _ name
  | .unary sign e, tame => by
    rw [substitute, inlineWith, ← map_eq_pure_bind]
    exact follows_unary (follows_inlineWith top represents bodies m e tame.operand) sign
  | .binary op attached l r, tame => by
    rw [substitute, inlineWith, evalWith]
    exact (follows_inlineWith top represents bodies m l tame.left).bind fun l' a left =>
      (follows_inlineWith top represents bodies m r tame.right).bind fun r' b right =>
      follows_operation represents.toInside left right
  | .call name args, tame => by
    have arguments := follows_inlineAllWith top represents bodies m args tame.argument
    rw [substitute, inlineWith, evalWith]
    intro t after done
    rw [bind_ok (look_apply _ inner), represents.lookupFunction name] at done
    cases found : ctx.lookupFunction name with
    | some f =>
      rw [found] at done
      refine (arguments.bind fun es ts each => ?_) t after done
      intro t after done
      rw [bind_ok (look_apply _ ctx), found]
      exact follows_function top represents.toInside found bodies
        (tame.2.2 name args f (.head _) found) each m t after done
    | none =>
      rw [found] at done
      change (look (·.native? name) >>= _) inner = _ at done
      have native : inner.native? name = ctx.native? name := by
        rw [Context.native?, represents.globals, Context.native?]
      rw [bind_ok (look_apply _ inner), native] at done
      cases known : ctx.native? name with
      | none =>
        rw [known] at done
        cases done
      | some n =>
        have takesValues : n.takesExpressions = false := tame.1 _ (self_mem_parts _) n known
        rw [known] at done
        dsimp only at done
        rw [takesValues] at done
        refine (arguments.bind fun es ts each => ?_) t after done
        intro t after done
        rw [bind_ok (look_apply _ ctx), found]
        exact follows_native represents.toInside found known takesValues each t after done
  | .empty, _ => follows_pure fun t after done => by
    cases done
    exact ⟨rfl, callFree_empty, fun _ => rfl⟩
  | .definition .., tame => (tame.1 _ (self_mem_parts _)).elim
  | .vector _, tame => (tame.1 _ (self_mem_parts _)).elim
  | .matrix _, tame => (tame.1 _ (self_mem_parts _)).elim

theorem follows_inlineAllWith (top : ctx.TopLevel)
    (represents : Represents ctx digits bindings values inner)
    (bodies : FollowsBodies ctx digits fuel again) (m : Nat) :
    ∀ es : List Expr, (∀ e ∈ es, Tame ctx False True (fuel + 1) e) →
      Follows ctx inner (inlineAllWith again (substituteAll bindings es))
        (evalAllWith (callFunction m) digits es) (List.Forall₂ (HasValue ctx digits))
  | [], _ => follows_pure fun ts after done => by
    cases done
    exact ⟨rfl, .nil⟩
  | e :: es, tame => by
    obtain ⟨first, others⟩ := List.forall_mem_cons.1 tame
    rw [substituteAll, inlineAllWith, evalAllWith]
    refine (follows_inlineWith top represents bodies m e first).bind fun e' t here =>
      (follows_inlineAllWith top represents bodies m es others).bind fun es' ts rest =>
      follows_pure fun ts' after done => ?_
    cases done
    exact ⟨rfl, .cons here rest⟩

end

theorem follows_inlineWithin (top : ctx.TopLevel) (fuel : Nat) :
    FollowsBodies ctx digits fuel (inlineWithin fuel) := by
  induction fuel with
  | zero => exact fun _ deep => deep.elim
  | succ fuel ih => exact fun m tame represents => follows_inlineWith top represents ih m _ tame

/-- The value of a tree is that of the inlined tree. -/
theorem inline_eval (top : ctx.TopLevel) {e : Expr}
    (tame : Tame ctx False True (inlineLimit + 1) e) {t : Term} {after : Context}
    (done : e.eval ctx = (.ok t, after)) :
    ∃ e', e.inline ctx = (.ok e', ctx) ∧ HasValue ctx ambientDigits e' t := by
  have represents : Represents ctx ambientDigits [] (fun _ => none) ctx :=
    ⟨top.inside, fun _ => .none⟩
  obtain ⟨-, e', inlined, value⟩ :=
    follows_inlineWithin top (inlineLimit + 1) depthLimit tame represents t after done
  rw [substitute_nil] at inlined
  exact ⟨e', inlined, value⟩

/-- Inlining agrees with calling, in a tree without `sum`, vectors, matrices, definitions and
literals longer than the precision that leads to bodies of this kind only. It ends with a tree
without calls of functions, or with a fault where a call has a wrong number of arguments or calls
are nested too deeply, as they are in a circle. Where they are not, the value of the tree is the
value of the tree without calls. -/
theorem inline_agrees_with_calling (ctx : Context) (onlyGlobals : ctx.inner = [])
    (distinct : ∀ name f, ctx.lookupFunction name = some f → f.params.Nodup) (e : Expr)
    (plain : ∀ k e', ctx.Reaches e k e' → ∀ part ∈ e'.parts, part.IsPlain ctx) :
    ((∃ e', e.inline ctx = (.ok e', ctx) ∧ CallFree ctx e') ∨
      ((∃ k e', ctx.Reaches e k e' ∧ ¬ e'.FitsParams ctx) ∧
        ∃ signature expected given,
          e.inline ctx = (.error (.arity signature expected given), ctx)) ∨
      ((∃ k e', ctx.Reaches e k e' ∧ inlineLimit < k) ∧
        e.inline ctx = (.error (.depth .inlining), ctx))) ∧
    ((∀ k e', ctx.Reaches e k e' → k ≤ inlineLimit) → ∀ t after, e.eval ctx = (.ok t, after) →
      ∃ e', e.inline ctx = (.ok e', ctx) ∧ CallFree ctx e' ∧ e'.eval ctx = (.ok t, ctx)) := by
  constructor
  · refine ends_inline (tame_of_reaches fun k e' reaches => ⟨plain k e' reaches, ?_, ?_⟩)
    · exact Classical.or_iff_not_imp_right.2 fun misfit => ⟨k, e', reaches, misfit⟩
    · rcases Nat.lt_or_ge inlineLimit k with deep | shallow
      · exact .inl ⟨k, e', reaches, deep⟩
      · exact .inr (Nat.lt_succ_of_le shallow)
  · intro shallow t after done
    have tame : Tame ctx False True (inlineLimit + 1) e := tame_of_reaches fun k e' reaches =>
      ⟨plain k e' reaches, .inl trivial, .inr (Nat.lt_succ_of_le (shallow k e' reaches))⟩
    obtain ⟨e', inlined, value⟩ := inline_eval ⟨onlyGlobals, distinct⟩ tame done
    exact ⟨e', inlined, value.callFree, value.evaluates _⟩

/-! ## Calls in a new session -/

/-- A new session with some functions and values. -/
def session (fs : List Function) (values : List (String × Term)) : Context :=
  { initial with
    globals := (fs.foldl (fun scope f => scope.insert f.name (.function f))
      initial.globals).bindValues values }

theorem mem_of_lookupFunction_session {fs : List Function} {values : List (String × Term)}
    {name : String} {f : Function} (found : (session fs values).lookupFunction name = some f) :
    f ∈ fs ∧ f.name = name := by
  have added : ∀ (fs : List Function) (scope : Scope),
      (fs.foldl (fun scope f => scope.insert f.name (.function f)) scope).function? name = some f →
      f ∈ fs ∧ f.name = name ∨ scope.function? name = some f := by
    intro fs
    induction fs with
    | nil => exact fun _ found => .inr found
    | cons g fs ih =>
      intro scope found
      rcases ih _ found with ⟨member, named⟩ | found
      · exact .inl ⟨.tail _ member, named⟩
      · rw [Scope.function?_insert_function] at found
        split at found
        next same =>
          cases found
          exact .inl ⟨.head _, same.symm⟩
        next => exact .inr found
  change [Scope.bindValues _ values].findSome? (·.function? name) = some f at found
  rw [List.findSome?_singleton, Scope.function?_bindValues] at found
  refine (added fs initial.globals found).resolve_right fun old => ?_
  rw [function?_initial] at old
  cases old

/-- The part is a call of this name. -/
def isCallOf (name : String) : Expr → Bool
  | .call name' _ => name' == name
  | _ => false

/-- The bodies that a tree leads to over so many calls of the given functions. -/
def bodiesAfter (fs : List Function) (e : Expr) : (calls : Nat) → List Expr
  | 0 => [e]
  | calls + 1 => (bodiesAfter fs e calls).flatMap fun e' =>
    (fs.filter fun f => e'.parts.any (·.isCallOf f.name)).map (·.body)

theorem mem_bodiesAfter {fs : List Function} {values : List (String × Term)} {e e' : Expr}
    {k : Nat} (reaches : (session fs values).Reaches e k e') : e' ∈ bodiesAfter fs e k := by
  induction reaches with
  | root => exact .head _
  | @body k e' name args f _ called found ih =>
    obtain ⟨member, rfl⟩ := mem_of_lookupFunction_session found
    have calls : e'.parts.any (·.isCallOf f.name) = true :=
      List.any_eq_true.2 ⟨_, called, beq_self_eq_true f.name⟩
    exact List.mem_flatMap.2 ⟨e', ih, List.mem_map.2 ⟨f, List.mem_filter.2 ⟨member, calls⟩, rfl⟩⟩

/-- Where no body is left, no tree leads on. -/
theorem bodiesAfter_of_le {fs : List Function} {e : Expr} {n k : Nat}
    (ends : bodiesAfter fs e n = []) (late : n ≤ k) : bodiesAfter fs e k = [] := by
  induction late with
  | refl => exact ends
  | step _ ih => rw [bodiesAfter, ih, List.flatMap_nil]

theorem lt_of_reaches {fs : List Function} {values : List (String × Term)} {e e' : Expr}
    {n k : Nat} (ends : bodiesAfter fs e n = []) (reaches : (session fs values).Reaches e k e') :
    k < n := by
  refine Nat.lt_of_not_le fun late => ?_
  have member := mem_bodiesAfter reaches
  rw [bodiesAfter_of_le ends late] at member
  cases member

/-- `f(x) = x^2` -/
def square : Function :=
  { name := "f", params := ["x"], body := .binary .power false (.var "x") (.number 2),
    source := none }

/-- `f(f(3))` -/
def squareOfSquare : Expr :=
  .call "f" [.call "f" [.number 3]]

theorem inline_squareOfSquare :
    ∃ e, squareOfSquare.inline (session [square] []) = (.ok e, session [square] []) ∧
      CallFree (session [square] []) e ∧
      e.eval (session [square] []) = (.ok (.numeric 81), session [square] []) := by
  have value : (squareOfSquare.eval (session [square] [])).1 = .ok (.numeric 81) := by
    decide +kernel
  have ends : bodiesAfter [square] squareOfSquare 2 = [] := rfl
  have plain : ∀ k < 2, ∀ e ∈ bodiesAfter [square] squareOfSquare k, ∀ part ∈ e.parts,
      part.IsPlain (session [square] []) := by decide +kernel
  refine (inline_agrees_with_calling (session [square] []) rfl (fun name f found => ?_)
    squareOfSquare fun k e reaches => ?_).2 (fun k e reaches => ?_) _ _ (Prod.ext value rfl)
  · cases List.mem_singleton.1 (mem_of_lookupFunction_session found).1
    decide
  · exact plain k (lt_of_reaches ends reaches) e (mem_bodiesAfter reaches)
  · exact Nat.le_trans (Nat.le_of_lt (lt_of_reaches ends reaches)) (by decide)

/-- `g(x) = x` -/
def identity : Function :=
  { name := "g", params := ["x"], body := .var "x", source := none }

/-- `f(x) = [g(x) 1]` -/
def pairing : Function :=
  { name := "f", params := ["x"], body := .vector [.call "g" [.var "x"], .number 1],
    source := none }

/-- `f(x) = sum(x*0^n)` -/
def firstTerm : Function :=
  { name := "f", params := ["x"], source := none,
    body := .call "sum" [.binary .times false (.var "x")
      (.binary .power false (.number 0) (.var "n"))] }

/-- `f(2)` -/
def callOfTwo : Expr :=
  .call "f" [.number 2]

/-- `f(1, 2)` -/
def callOfOneAndTwo : Expr :=
  .call "f" [.number 1, .number 2]

/-- The part is no literal longer than the precision. -/
def IsShort (ctx : Context) : Expr → Bool
  | .literal n _ => n.significantDigits ≤ ctx.params.precision
  | _ => true

/-- The tree itself is plain, its calls are not nested too deeply, and no literal on the way is
longer than the precision; the bodies may be anything else. -/
structure PlainOutside (ctx : Context) (e : Expr) : Prop where
  inner : ctx.inner = []
  distinct : ∀ name f, ctx.lookupFunction name = some f → f.params.Nodup
  plain : ∀ part ∈ e.parts, part.IsPlain ctx
  shallow : ∀ k e', ctx.Reaches e k e' → k ≤ inlineLimit
  short : ∀ k e', ctx.Reaches e k e' → ∀ part ∈ e'.parts, part.IsShort ctx = true

theorem plainOutside_session {fs : List Function} {values : List (String × Term)} {e : Expr}
    (distinct : ∀ f ∈ fs, f.params.Nodup)
    (plain : ∀ part ∈ e.parts, part.IsPlain (session fs values))
    {n : Nat} (shallow : n ≤ inlineLimit) (ends : bodiesAfter fs e n = [])
    (short : ∀ k < n, ∀ e' ∈ bodiesAfter fs e k, ∀ part ∈ e'.parts,
      part.IsShort (session fs values) = true) : PlainOutside (session fs values) e where
  inner := rfl
  distinct _ f found := distinct f (mem_of_lookupFunction_session found).1
  plain := plain
  shallow _ _ reaches := Nat.le_trans (Nat.le_of_lt (lt_of_reaches ends reaches)) shallow
  short k e' reaches := short k (lt_of_reaches ends reaches) e' (mem_bodiesAfter reaches)

theorem plainOutside_pairing : PlainOutside (session [identity, pairing] []) callOfTwo :=
  plainOutside_session (n := 3) (by decide) (by decide +kernel) (by decide) rfl (by decide +kernel)

theorem plainOutside_firstTerm :
    PlainOutside (session [firstTerm] [("x", .numeric 5)]) callOfTwo :=
  plainOutside_session (n := 2) (by decide) (by decide +kernel) (by decide) rfl (by decide +kernel)

theorem plainOutside_square : PlainOutside (session [square] []) callOfOneAndTwo :=
  plainOutside_session (n := 2) (by decide) (by decide +kernel) (by decide) rfl (by decide +kernel)

/-- A vector in a body keeps its calls, a `sum` in a body does not see the parameters, and there is
no tree for a call with a wrong number of arguments. -/
theorem inline_differs_from_calling :
    (∃ ctx e e', PlainOutside ctx e ∧ e.inline ctx = (.ok e', ctx) ∧ ¬ CallFree ctx e') ∧
    (∃ ctx e e' t t', PlainOutside ctx e ∧ (e.eval ctx).1 = .ok t ∧
      e.inline ctx = (.ok e', ctx) ∧ (e'.eval ctx).1 = .ok t' ∧ t ≠ t') ∧
    ∃ ctx e signature expected given, PlainOutside ctx e ∧
      e.inline ctx = (.error (.arity signature expected given), ctx) := by
  refine ⟨⟨_, _, .vector [.call "g" [.number 2], .number 1], plainOutside_pairing, ?_, ?_⟩,
    ⟨_, _, .call "sum" [.binary .times false (.number 2) (.binary .power false (.number 0)
      (.var "n"))], .numeric 5, .numeric 2, plainOutside_firstTerm, ?_, ?_, ?_, ?_⟩,
    ⟨_, _, "f(x)", 1, 2, plainOutside_square, ?_⟩⟩
  · with_unfolding_all rfl
  · intro free
    have found : ((session [identity, pairing] []).lookupFunction "g").isSome = true := by
      decide +kernel
    rw [free "g" [.number 2] (by simp [parts, partsAll])] at found
    cases found
  · decide +kernel
  · with_unfolding_all rfl
  · decide +kernel
  · decide
  · with_unfolding_all rfl

end Expr

end Reckon
