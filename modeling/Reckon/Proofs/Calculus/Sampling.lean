import Reckon.Proofs.Evaluate.Alike
import Reckon.Request

/-!
# Samples of helper functions

A series and a search for roots check which variables of a body are free where they stand. Then they
open a scope, define a helper function with that body in it and call the helper again and again. A
call sees its argument and the global variables, so it has the value that the body has in the
calling scope as long as the variables that are bound there are global ones
(`sample_in_calling_scope`). A variable that is bound in the calling scope only is seen by the
check, but not by the samples (`sample_of_local_misses`).
-/

namespace Reckon

open Calc Context

/-! ## The calling scope -/

namespace Context

/-- Gives a variable of the calling scope a value. At top level the value is given in a scope of its
own, as the values that come with an expression are. -/
def given (ctx : Context) (name : String) (t : Term) : Context :=
  match ctx.inner with
  | [] => ctx.push.bind name t
  | _ :: _ => ctx.bind name t

variable {ctx : Context} {name : String} {t : Term}

theorem lookupVariable_given (ctx : Context) (name : String) (t : Term) (n : String) :
    (ctx.given name t).lookupVariable n = if n = name then some t else ctx.lookupVariable n := by
  obtain ⟨params, globals, inner, generated⟩ := ctx
  cases inner with
  | nil =>
    -- nothing but the value is in the new scope, and at top level only global values are seen
    have same : (Context.mk params globals [] generated).push.lookupVariable n =
        (Context.mk params globals [] generated).lookupVariable n := (Option.or_self).symm
    exact (lookupVariable_bind (List.cons_ne_nil _ _) name t n).trans (by rw [same])
  | cons scope outer => exact lookupVariable_bind (List.cons_ne_nil _ _) name t n

theorem lookupFunction_given (ctx : Context) (name : String) (t : Term) :
    (ctx.given name t).lookupFunction = ctx.lookupFunction := by
  unfold given
  split
  · rw [lookupFunction_bind]
    rfl
  · exact lookupFunction_bind ctx name t

theorem inner_given (ctx : Context) (name : String) (t : Term) : (ctx.given name t).inner ≠ [] := by
  unfold given
  split
  next => exact inner_updateCurrent (List.cons_ne_nil _ _) _
  next shape => exact inner_updateCurrent (shape ▸ List.cons_ne_nil _ _) _

theorem unchanged_given (ctx : Context) (name : String) (t : Term) :
    (ctx.given name t).params = ctx.params ∧ (ctx.given name t).globals = ctx.globals ∧
      (ctx.given name t).generated = ctx.generated := by
  obtain ⟨params, globals, inner, generated⟩ := ctx
  cases inner <;> exact ⟨rfl, rfl, rfl⟩

end Context

/-- Runs in the calling scope `ctx` where a variable has a value. Of the context at hand it uses and
changes the settings only. -/
def Calc.inCallingScope {α : Type} (ctx : Context) (name : String) (t : Term) (act : Calc α) :
    Calc α := fun c =>
  let (result, after) :=
    act (({ ctx with params := c.params, generated := c.generated } : Context).given name t)
  (result, { c with params := after.params, generated := after.generated })

/-- What does not depend on a context may as well be done in the calling scope. -/
theorem Calc.inCallingScope_bind {α β : Type} {act : Calc α} {next : α → Calc β}
    (still : ∀ a, ∃ result, next a = lift result) (ctx : Context) (name : String) (t : Term)
    (c : Context) : (inCallingScope ctx name t act >>= next) c =
      inCallingScope ctx name t (act >>= next) c := by
  let scope :=
    ({ ctx with params := c.params, generated := c.generated } : Context).given name t
  rcases run : act scope with ⟨outcome, after⟩
  have inside : inCallingScope ctx name t act c =
      (outcome, { c with params := after.params, generated := after.generated }) := by
    unfold inCallingScope
    rw [run]
  have whole : ∀ {result : Except Fault β}, (act >>= next) scope = (result, after) →
      inCallingScope ctx name t (act >>= next) c =
        (result, { c with params := after.params, generated := after.generated }) := by
    intro result run
    unfold inCallingScope
    rw [run]
  cases outcome with
  | ok a =>
    obtain ⟨result, shape⟩ := still a
    rw [bind_ok inside, shape, whole (show _ = (result, after) by rw [bind_ok run, shape]; rfl)]
    rfl
  | error fault => rw [bind_error inside, whole (bind_error run)]

theorem Calc.bind_congr_at {α β : Type} {act act' : Calc α} {next : α → Calc β} {c : Context}
    (same : act c = act' c) : (act >>= next) c = (act' >>= next) c := by
  rcases run : act c with ⟨outcome, after⟩
  cases outcome with
  | ok a => rw [bind_ok run, bind_ok (same.symm.trans run)]
  | error fault => rw [bind_error run, bind_error (same.symm.trans run)]

theorem Calc.bind_congr_after {α β : Type} {act : Calc α} {next next' : α → Calc β} {c : Context}
    (same : ∀ a after, act c = (.ok a, after) → next a after = next' a after) :
    (act >>= next) c = (act >>= next') c := by
  rcases run : act c with ⟨outcome, after⟩
  cases outcome with
  | ok a => rw [bind_ok run, bind_ok run, same a after run]
  | error fault => rw [bind_error run, bind_error run]

/-- The result of what does not depend on a context depends on the result before it. -/
theorem Calc.result_bind_eq {α β : Type} {act act' : Calc α} {next : α → Calc β}
    {c c' : Context} (still : ∀ a, ∃ result, next a = lift result)
    (same : (act c).1 = (act' c').1) : ((act >>= next) c).1 = ((act' >>= next) c').1 := by
  rcases run : act c with ⟨outcome, after⟩
  rcases run' : act' c' with ⟨outcome', after'⟩
  rw [run, run'] at same
  obtain rfl : outcome = outcome' := same
  cases outcome with
  | ok a =>
    obtain ⟨result, shape⟩ := still a
    rw [bind_ok run, bind_ok run', shape]
    rfl
  | error fault => rw [bind_error run, bind_error run']

/-- The value of a tree, which has to be a number. -/
def Expr.numberWith (call : Caller) (digits : Nat) (e : Expr) : Calc Decimal := do
  match ← e.evalWith call digits with
  | .numeric y => return y
  | .symbolic .. => Calc.fail (.domain (.freeSample e.text))

/-! ## The scope of the helper functions -/

/-- On top of the scopes of `ctx` there is one with helper functions only. -/
structure Context.Opened (ctx c : Context) : Prop where
  globals : c.globals = ctx.globals
  helpers : ∃ scope, c.inner = scope :: ctx.inner ∧
    ∀ name f, scope.function? name = some f → ∃ n < c.generated, name = generatedName n

namespace Context.Opened

variable {ctx c c' : Context}

theorem of_push (ctx : Context) : ctx.Opened ctx.push :=
  ⟨rfl, {}, rfl, fun name f found => by cases found⟩

theorem advance (opened : ctx.Opened c) (advances : c.Advances c') : ctx.Opened c' := by
  obtain ⟨scope, shape, generated⟩ := opened.helpers
  refine ⟨advances.globals.trans opened.globals, scope, advances.inner.trans shape, ?_⟩
  intro name f found
  obtain ⟨n, less, named⟩ := generated name f found
  exact ⟨n, Nat.lt_of_lt_of_le less advances.generated, named⟩

/-- A helper function is added to the others, which are found as before. -/
theorem synthesize (opened : ctx.Opened c) {params : List String} {body : Expr} {f : Function}
    (made : synthesize params body c = (.ok f, c')) :
    ctx.Opened c' ∧ f.params = params ∧ f.body = body ∧ c'.lookupFunction f.name = some f ∧
      ∀ g : Function, c.lookupFunction g.name = some g → c'.lookupFunction g.name = some g := by
  obtain ⟨rfl, defined⟩ := synthesize_eq_ok made
  obtain ⟨skipped, -, fresh, -⟩ := c.exists_freshName
  have le := Nat.le_add_right c.generated skipped
  generalize c.generated + skipped = n at fresh le
  rw [fresh] at defined ⊢
  obtain ⟨-, -, new, rfl⟩ := define_eq_ok.1 defined
  obtain ⟨scope, shape, generated⟩ := opened.helpers
  have top : ∀ change : Scope → Scope,
      ({ c with generated := n + 1 } : Context).updateCurrent change =
        { c with generated := n + 1, inner := change scope :: ctx.inner } := by
    intro change
    rw [updateCurrent]
    dsimp only
    rw [shape]
  refine ⟨?_, rfl, rfl, ?_, fun g found => ?_⟩
  · rw [top]
    refine ⟨opened.globals, _, rfl, fun name g found => ?_⟩
    rw [Scope.function?_insert_function] at found
    split at found
    next same => exact ⟨n, Nat.lt_succ_self n, same⟩
    next =>
      obtain ⟨m, less, named⟩ := generated name g found
      exact ⟨m, Nat.lt_of_lt_of_le less (Nat.le_succ_of_le le), named⟩
  · rw [lookupFunction_insert, if_pos rfl]
  · rw [lookupFunction_insert, if_neg]
    · exact found
    · intro same
      have absent : c.lookupFunction g.name = none := same ▸ new
      rw [absent] at found
      cases found

/-- A name that is still to be generated is not that of a helper function. -/
theorem lookupFunction_eq (opened : ctx.Opened c) {n : Nat} (later : c.generated ≤ n) :
    c.lookupFunction (generatedName n) = ctx.lookupFunction (generatedName n) := by
  obtain ⟨scope, shape, generated⟩ := opened.helpers
  have absent : scope.function? (generatedName n) = none := by
    refine Option.eq_none_iff_forall_ne_some.2 fun f found => ?_
    obtain ⟨m, less, named⟩ := generated _ f found
    exact absurd (generatedName_inj named) (Nat.lt_of_lt_of_le less later).ne'
  rw [lookupFunction, lookupFunction, scopes, scopes, shape, opened.globals, List.cons_append,
    List.findSome?_cons, absent]

end Context.Opened

/-! ## A call of a helper function -/

/-- A function is called by its name where the helper functions are as it is in the calling
scope. -/
def Context.SameCallee (ctx c : Context) (name : String) : Prop :=
  c.lookupFunction name = ctx.lookupFunction name

/-- What is known of a variable is its global value. -/
def Context.SeesGlobal (ctx : Context) (name : String) : Prop :=
  ctx.lookupVariable name = ctx.globals.value? name

/-- No function calls a helper function. -/
def Context.CallsNoHelper (ctx c : Context) : Prop :=
  ∀ name g, ctx.lookupFunction name = some g → g.body.WithinNames (fun _ => True) (ctx.SameCallee c)

namespace Context.Opened

variable {ctx c : Context} {v : String}

/-- In the scope of a call of a helper function everything looks as in the calling scope, as long as
only global variables are looked up. -/
theorem alike (opened : ctx.Opened c) (functions : ctx.CallsNoHelper c) (t : Term) :
    (c.push.bind v t).Alike (fun name => name = v ∨ ctx.SeesGlobal name) (ctx.SameCallee c)
      (({ ctx with params := c.params, generated := c.generated } : Context).given v t) where
  params := by rw [(unchanged_given _ _ _).1]; rfl
  generated := by rw [(unchanged_given _ _ _).2.2]; rfl
  globals := by rw [(unchanged_given _ _ _).2.1]; exact opened.globals
  inside := inner_updateCurrent (List.cons_ne_nil _ _) _
  inside' := inner_given _ _ _
  values name known := by
    rw [lookupVariable_bind (List.cons_ne_nil _ _), lookupVariable_given]
    split
    next => rfl
    next other =>
      have seen : c.push.lookupVariable name = ctx.globals.value? name :=
        congrArg (fun globals : Scope => globals.value? name) opened.globals
      exact seen.trans (known.resolve_left other).symm
  functions name known := by
    rw [lookupFunction_bind, lookupFunction_given]
    exact known
  bodies name f known found := by
    rw [lookupFunction_bind] at found
    exact functions name f ((Eq.symm known).trans found)
  later n le := opened.lookupFunction_eq le

end Context.Opened

/-- A call of a helper function evaluates its body as it is evaluated in the calling scope. -/
theorem callFunction_helper {ctx c : Context} {v : String} {f : Function} (opened : ctx.Opened c)
    (found : c.lookupFunction f.name = some f) (params : f.params = [v])
    (functions : ctx.CallsNoHelper c)
    (body : f.body.WithinNames (fun name => name = v ∨ ctx.SeesGlobal name) (ctx.SameCallee c))
    (fuel digits : Nat) (t : Term) :
    callFunction (fuel + 1) digits f.name [t] c =
      inCallingScope ctx v t (f.body.evalWith (callFunction fuel) digits) c := by
  let enter : Calc Unit := Calc.update fun ctx =>
    (f.params.zip [t]).foldl (fun ctx binding => ctx.bind binding.1 binding.2) ctx
  have arity : checkArity f.signature f.params.length [t].length = .ok () := by
    rw [params]
    rfl
  have steps : callFunction (fuel + 1) digits f.name [t] c =
      withScope (enter >>= fun _ => f.body.evalWith (callFunction fuel) digits) c := by
    unfold callFunction
    rw [bind_ok (look_apply _ c), found]
    exact bind_ok (lift_ok arity c)
  have keeps : Keeps Confined (enter >>= fun _ => f.body.evalWith (callFunction fuel) digits) :=
    (keeps_of_rel (confined_bindAll _)).bind fun _ _ =>
      keeps_evalWith (keeps_callFunction fuel) (fun f _ => keeps_define f) digits f.body le_rfl
  have entered : (enter >>= fun _ => f.body.evalWith (callFunction fuel) digits) c.push =
      f.body.evalWith (callFunction fuel) digits (c.push.bind v t) := by
    have bound : (f.params.zip [t]).foldl (fun ctx binding => ctx.bind binding.1 binding.2) c.push =
        c.push.bind v t := by
      rw [params]
      rfl
    exact bind_ok (a := ()) (congrArg (Prod.mk (Except.ok ())) bound)
  obtain ⟨same, after⟩ := alike_evalWith (keeps_callFunction fuel) (alike_callFunction _ fuel)
    digits body _ _ (opened.alike functions t)
  rw [steps, withScope_eq keeps, entered, same, after.params, after.generated]
  rfl

/-! ## Samples -/

/-- Where a series or a search for roots samples the helper function of its body: the check has been
passed in the calling scope, the helpers have been defined in a scope on top of it, and other
samples may have been taken. -/
inductive Sampled (ctx : Context) (v : String) (f : Function) : Context → Prop
  | series {e : Expr} {c : Context}
      (check : (ctx.freeNames (ctx.replaceConstants e)).length ≤ 1)
      (index : v = (ctx.freeNames (ctx.replaceConstants e)).head?.getD "n")
      (made : synthesize [v] (ctx.replaceConstants e) ctx.push = (.ok f, c)) : Sampled ctx v f c
  | roots {before c c' : Context} {body slope : Expr} {derivative : Function}
      (check : (before.freeNames body).filter (· != v) = []) (same : before.Advances ctx)
      (made : synthesize [v] body ctx.push = (.ok f, c))
      (next : synthesize [v] slope c = (.ok derivative, c')) : Sampled ctx v f c'
  | later {c c' : Context} (sampled : Sampled ctx v f c) (advances : c.Advances c') :
      Sampled ctx v f c'

namespace Sampled

variable {ctx c : Context} {v : String} {f : Function}

theorem helper (sampled : Sampled ctx v f c) :
    ctx.Opened c ∧ c.lookupFunction f.name = some f ∧ f.params = [v] := by
  induction sampled with
  | series _ _ made =>
    obtain ⟨opened, params, -, found, -⟩ := (Opened.of_push ctx).synthesize made
    exact ⟨opened, found, params⟩
  | roots _ _ made next =>
    obtain ⟨opened, params, -, found, -⟩ := (Opened.of_push ctx).synthesize made
    obtain ⟨opened, -, -, -, kept⟩ := opened.synthesize next
    exact ⟨opened, kept f found, params⟩
  | later _ advances ih =>
    obtain ⟨opened, found, params⟩ := ih
    refine ⟨opened.advance advances, ?_, params⟩
    rw [lookupFunction, advances.scopes]
    exact found

/-- The check has found no other free variable. -/
theorem eq_of_mem_freeNames (sampled : Sampled ctx v f c) :
    ∀ name ∈ ctx.freeNames f.body, name = v := by
  induction sampled with
  | @series e c check index made =>
    obtain ⟨-, -, body, -⟩ := (Opened.of_push ctx).synthesize made
    rw [body]
    intro name member
    cases shape : ctx.freeNames (ctx.replaceConstants e) with
    | nil =>
      rw [shape] at member
      exact absurd member List.not_mem_nil
    | cons first others =>
      rw [shape] at check index member
      obtain rfl : others = [] :=
        List.eq_nil_of_length_eq_zero (Nat.le_zero.1 (Nat.le_of_succ_le_succ check))
      rw [List.mem_singleton.1 member, index]
      rfl
  | @roots before _ _ body _ _ check same made next =>
    obtain ⟨-, -, shape, -⟩ := (Opened.of_push ctx).synthesize made
    have free : ctx.freeNames body = before.freeNames body := by
      unfold freeNames isConstant
      rw [same.globals, same.isBound_eq]
    rw [shape, free]
    intro name member
    have kept := List.filter_eq_nil_iff.1 check name member
    simpa using kept
  | later _ _ ih => exact ih

/-- A sample leaves a place where samples are taken. -/
theorem sample (sampled : Sampled ctx v f c) (fuel digits : Nat) (x : Decimal) :
    Sampled ctx v f (sample (callFunction fuel) digits f x c).2 :=
  sampled.later ((keeps_sample (R := Context.Advances) (keeps_callFunction fuel) digits f x).rel c)

end Sampled

/-- A sample of a helper function is the value of its body in the calling scope, and no variable of
the body is free where the sample is taken, provided that of the variables only the global ones are
bound there and that nothing calls a helper. -/
theorem sample_in_calling_scope {ctx c : Context} {v : String} {f : Function}
    (sampled : Sampled ctx v f c) (functions : ctx.CallsNoHelper c)
    (body : f.body.WithinNames (fun name => name = v ∨ ctx.SeesGlobal name) (ctx.SameCallee c))
    (fuel digits : Nat) (x : Decimal) :
    sample (callFunction (fuel + 1)) digits f x c =
        inCallingScope ctx v (.numeric x) (f.body.numberWith (callFunction fuel) digits) c ∧
      (c.push.bind v (.numeric x)).freeNames f.body = [] := by
  obtain ⟨opened, found, params⟩ := sampled.helper
  constructor
  · have called := callFunction_helper opened found params functions body fuel digits (.numeric x)
    refine (bind_congr_at called).trans (inCallingScope_bind (fun t => ?_) ctx v _ c)
    cases t with
    | numeric y => exact ⟨.ok y, rfl⟩
    | symbolic s b => exact ⟨.error _, rfl⟩
  · refine List.eq_nil_iff_forall_not_mem.2 fun name member => ?_
    obtain ⟨free, occurs⟩ := ((Expr.mem_collectNames [] f.body).1 member).resolve_left
      List.not_mem_nil
    rw [Bool.not_eq_true', Bool.or_eq_false_iff, isBound,
      lookupVariable_bind (List.cons_ne_nil _ _)] at free
    obtain ⟨notConstant, notBound⟩ := free
    split at notBound
    next => cases notBound
    next other =>
      -- the variable is not bound in the calling scope either, so the check has refused it
      have seen : c.push.lookupVariable name = ctx.lookupVariable name :=
        (congrArg (fun globals : Scope => globals.value? name) opened.globals).trans
          ((body.of_occurs occurs).resolve_left other).symm
      have constant : ctx.isConstant name = false := by
        rw [← notConstant]
        exact congrArg (fun globals : Scope => globals.has name .constant) opened.globals.symm
      refine other (sampled.eq_of_mem_freeNames name ?_)
      refine (Expr.mem_collectNames [] f.body).2 (Or.inr ⟨?_, occurs⟩)
      rw [constant, isBound, ← seen, notBound]
      rfl

/-- `x^n` -/
def geometricTerm : Expr :=
  .binary .power false (.var "x") (.var "n")

/-- The first helper function of a session, for `x^n`. -/
def geometricHelper : Function :=
  ⟨"_a", ["n"], geometricTerm, none⟩

/-- A half as a number. -/
def oneHalf : Decimal :=
  .finite false 5 (-1)

/-- A session where `x` is a half at top level. -/
def globalHalf : Context :=
  Context.initial.bind "x" (.numeric oneHalf)

/-- A session where `x` is a half in a scope above the global one, as it is while an expression is
evaluated that comes with this value. -/
def localHalf : Context :=
  Context.initial.push.bind "x" (.numeric oneHalf)

theorem callsNoHelper_globalHalf (c : Context) : globalHalf.CallsNoHelper c := by
  intro name g found
  have none : globalHalf.lookupFunction name = none := by
    rw [globalHalf, lookupFunction_bind, lookupFunction]
    exact List.findSome?_eq_none_iff.2 fun scope member =>
      List.mem_singleton.1 member ▸ function?_initial name
  rw [none] at found
  cases found

/-- The fourth term of the series of `x^n` where `x` is a half at top level. -/
theorem sample_globalHalf :
    Sampled globalHalf "n" geometricHelper (synthesize ["n"] geometricTerm globalHalf.push).2 ∧
      (sample (callFunction depthLimit) ambientDigits geometricHelper 3
        (synthesize ["n"] geometricTerm globalHalf.push).2).1 = .ok (.finite false 125 (-3)) ∧
      ((synthesize ["n"] geometricTerm globalHalf.push).2.push.bind "n" (.numeric 3)).freeNames
        geometricTerm = [] := by
  have body : globalHalf.replaceConstants geometricTerm = geometricTerm := by
    with_unfolding_all rfl
  have names : globalHalf.freeNames geometricTerm = ["n"] := by decide +kernel
  have made : synthesize ["n"] geometricTerm globalHalf.push =
      (.ok geometricHelper, (synthesize ["n"] geometricTerm globalHalf.push).2) :=
    Prod.ext (by with_unfolding_all rfl) rfl
  have sampled : Sampled globalHalf "n" geometricHelper
      (synthesize ["n"] geometricTerm globalHalf.push).2 :=
    .series (e := geometricTerm) (by rw [body, names]; rfl) (by rw [body, names]; rfl)
      (by rw [body]; exact made)
  have seen : globalHalf.SeesGlobal "x" := by
    unfold SeesGlobal
    decide +kernel
  obtain ⟨value, closed⟩ := sample_in_calling_scope sampled (callsNoHelper_globalHalf _)
    (show geometricTerm.WithinNames _ _ from ⟨Or.inr seen, Or.inl rfl⟩) 299 ambientDigits 3
  refine ⟨sampled, ?_, closed⟩
  rw [show depthLimit = 299 + 1 from rfl, value]
  decide +kernel

/-- Where `x` is a half in a scope above the global one, the check passes and the fourth term has a
value, but the sample fails, and so does the series. -/
theorem sample_of_local_misses :
    Sampled localHalf "n" geometricHelper (synthesize ["n"] geometricTerm localHalf.push).2 ∧
      (inCallingScope localHalf "n" (.numeric 3)
        (geometricTerm.numberWith (callFunction depthLimit) ambientDigits)
        (synthesize ["n"] geometricTerm localHalf.push).2).1 = .ok (.finite false 125 (-3)) ∧
      (sample (callFunction depthLimit) ambientDigits geometricHelper 3
        (synthesize ["n"] geometricTerm localHalf.push).2).1 =
          .error (.domain (.freeSample "x^n")) ∧
      (evaluateWith [("x", .expression "1/2")] "sum(x^n)" Context.initial).1 =
        .error (.domain (.freeSample "x^n")) := by
  have body : localHalf.replaceConstants geometricTerm = geometricTerm := by
    with_unfolding_all rfl
  have names : localHalf.freeNames geometricTerm = ["n"] := by decide +kernel
  have made : synthesize ["n"] geometricTerm localHalf.push =
      (.ok geometricHelper, (synthesize ["n"] geometricTerm localHalf.push).2) :=
    Prod.ext (by with_unfolding_all rfl) rfl
  refine ⟨.series (e := geometricTerm) ?_ ?_ ?_, ?_, ?_, ?_⟩
  · rw [body, names]
    rfl
  · rw [body, names]
    rfl
  · rw [body]
    exact made
  · decide +kernel
  · decide +kernel
  · decide +kernel

/-! ## Series -/

/-- A sum depends on what its terms are where they are computed. -/
theorem sumFrom_congr {I : Context → Prop} {term term' : Decimal → Calc Decimal}
    (same : ∀ x c, I c → term x c = term' x c) (kept : ∀ x c, I c → I (term x c).2)
    (p : Precision) (epsilon : Decimal) (fuel n : Nat) (total : Decimal) {c : Context}
    (holds : I c) : sumFrom term p epsilon fuel n total c =
      sumFrom term' p epsilon fuel n total c := by
  induction fuel generalizing n total c with
  | zero => rfl
  | succ fuel ih =>
    unfold sumFrom
    refine (bind_congr_after fun y after done => ?_).trans (bind_congr_at (same _ c holds))
    have holds : I after := by
      have kept := kept (.ofInt n) c holds
      rwa [done] at kept
    refine bind_congr_after fun next after' done => ?_
    obtain rfl : after = after' := congrArg Prod.snd done
    split
    · refine bind_congr_after fun change after' done => ?_
      obtain rfl : after = after' := congrArg Prod.snd done
      refine bind_congr_after fun small after' done => ?_
      obtain rfl : after = after' := congrArg Prod.snd done
      split
      · rfl
      · exact ih _ _ holds
    · exact ih _ _ holds

/-- Every place where a sample is taken has the scopes of the first one. -/
theorem sameCallee_eq {ctx c after : Context} (advances : c.Advances after) :
    ctx.SameCallee after = ctx.SameCallee c := by
  funext name
  unfold SameCallee lookupFunction
  rw [advances.scopes]

/-- A sum of samples is the sum of the values of the body in the calling scope. -/
theorem sumFrom_in_calling_scope {ctx c : Context} {v : String} {f : Function}
    (sampled : Sampled ctx v f c) (functions : ctx.CallsNoHelper c)
    (body : f.body.WithinNames (fun name => name = v ∨ ctx.SeesGlobal name) (ctx.SameCallee c))
    (fuel digits : Nat) (p : Precision) (epsilon : Decimal) (terms n : Nat) (total : Decimal) :
    sumFrom (sample (callFunction (fuel + 1)) digits f) p epsilon terms n total c =
      sumFrom (fun x => inCallingScope ctx v (.numeric x)
        (f.body.numberWith (callFunction fuel) digits)) p epsilon terms n total c := by
  refine sumFrom_congr (I := c.Advances) (fun x after advances => ?_) (fun x after advances => ?_)
    p epsilon terms n total (Frame.refl c)
  · have functions : ctx.CallsNoHelper after := by
      unfold CallsNoHelper
      rwa [sameCallee_eq advances]
    exact (sample_in_calling_scope (sampled.later advances) functions
      (by rwa [sameCallee_eq advances]) fuel digits x).1
  · exact Frame.trans advances ((keeps_sample (R := Context.Advances)
      (keeps_callFunction (fuel + 1)) digits f x).rel after)

/-- A series sums up the values of its body in the calling scope. -/
theorem seriesSum_in_calling_scope {ctx c : Context} {v : String} {e : Expr} {f : Function}
    (check : (ctx.freeNames (ctx.replaceConstants e)).length ≤ 1)
    (index : v = (ctx.freeNames (ctx.replaceConstants e)).head?.getD "n")
    (made : synthesize [v] (ctx.replaceConstants e) ctx.push = (.ok f, c))
    (functions : ctx.CallsNoHelper c)
    (body : f.body.WithinNames (fun name => name = v ∨ ctx.SeesGlobal name) (ctx.SameCallee c))
    (fuel : Nat) : (seriesSum (callFunction (fuel + 1)) e ctx).1 =
      ((do
        let p := nativePrecision ctx.params.precision
        let result ← sumFrom (fun x => inCallingScope ctx v (.numeric x)
          (f.body.numberWith (callFunction fuel) p.digits)) p ctx.params.zeroEpsilon
          ctx.params.maxTerms.toNat 0 0
        match result with
        | some total => return .numeric total
        | none =>
          Calc.fail (.convergence (.series e.text ctx.params.maxTerms)) : Calc Term) c).1 := by
  let p := nativePrecision ctx.params.precision
  let act : Calc (Option Decimal) := synthesize [v] (ctx.replaceConstants e) >>= fun f =>
    sumFrom (sample (callFunction (fuel + 1)) p.digits f) p ctx.params.zeroEpsilon
      ctx.params.maxTerms.toNat 0 0
  let finish : Option Decimal → Calc Term
    | some total => return .numeric total
    | none => Calc.fail (.convergence (.series e.text ctx.params.maxTerms))
  have run := sumFrom_in_calling_scope (.series check index made) functions body fuel p.digits p
    ctx.params.zeroEpsilon ctx.params.maxTerms.toNat 0 0
  have keeps : Keeps Confined act :=
    (keeps_synthesize _ _).bind fun f _ =>
      keeps_sumFrom (keeps_sample (keeps_callFunction (fuel + 1)) _ f) _ _ _ _ _
  have steps : seriesSum (callFunction (fuel + 1)) e ctx = (withScope act >>= finish) ctx := by
    unfold seriesSum
    rw [bind_ok (look_apply _ ctx), bind_ok (look_apply _ ctx), bind_ok (look_apply _ ctx)]
    subst index
    exact congrFun (if_neg (Nat.not_lt.2 check)) ctx
  rw [steps]
  refine result_bind_eq (fun result => ?_) ?_
  · cases result with
    | some total => exact ⟨.ok _, rfl⟩
    | none => exact ⟨.error _, rfl⟩
  · have summed : act ctx.push = _ := bind_ok made
    rw [withScope_eq keeps, ← run, summed]

end Reckon
