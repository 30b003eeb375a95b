import Reckon.Proofs.Frame.Request

/-!
# Sequences of operations

`Operation` is what can be done to a context from outside, and `reached` is the context that a
sequence of operations leads to, some of which may fail. What definitions, derivations and
integrations preserve, every sequence of operations preserves (`Operation.keeps_actAll`).
-/

namespace Reckon

open Calc Context

/-- What can be done to a context. -/
inductive Operation where
  | define (f : Function)
  | defineFunction (source : String)
  | removeFunction (name : String)
  | bind (name : String) (t : Term)
  | pushScope
  | popScope
  | freshName
  | setParams (change : Params → Params)
  | eval (e : Expr)
  | evaluateTree (e : Expr)
  | evaluate (bindings : List (String × Supplied)) (source : String)
  | simplify (source : String)
  | differentiate (source wrt : String)
  | integrate (source wrt : String)
  | findRoots (source : String) (given : List String)
  | readMatrix (source : String)
  | call (name : String) (inputs : List Term)
  | callNative (name : String) (inputs : List Term)
  | callNativeOn (name : String) (args : List Expr)
  /-- Several operations in a scope of their own. -/
  | withScope (steps : List Operation)
  /-- Several operations on a copy of the settings. -/
  | withParams (steps : List Operation)

namespace Operation

mutual

/-- The operation; its result is dropped. -/
def act : Operation → Calc Unit
  | define f => Calc.define f
  | defineFunction source => discard (Reckon.defineFunction source)
  | removeFunction name => discard (Reckon.removeFunction name)
  | bind name t => Calc.update (·.bind name t)
  | pushScope => Reckon.pushScope
  | popScope => Reckon.popScope
  | freshName => discard Calc.freshName
  | setParams change => Reckon.setParams change
  | eval e => discard e.eval
  | evaluateTree e => discard (Reckon.evaluateTree e)
  | evaluate bindings source => discard (evaluateWith bindings source)
  | simplify source => discard (Reckon.simplify source)
  | differentiate source wrt => discard (Reckon.differentiate source wrt)
  | integrate source wrt => discard (Reckon.integrate source wrt)
  | findRoots source given => discard (Reckon.findRoots source given)
  | readMatrix source => discard (Reckon.readMatrix source)
  | call name inputs => discard (Reckon.call name inputs)
  | callNative name inputs => discard (Reckon.callNative name inputs)
  | callNativeOn name args => discard (Reckon.callNativeOn name args)
  | withScope steps => Calc.withScope (actAll steps)
  | withParams steps => Calc.withParams (actAll steps)

/-- Operations one after the other; one that fails is followed by the next. -/
def actAll : List Operation → Calc Unit
  | [] => return ()
  | op :: ops => do
    let _ ← Calc.attempt (fun _ => true) op.act
    actAll ops

end

/-- The context after some operations in a new session. -/
def reached (ops : List Operation) : Context :=
  (actAll ops Context.initial).2

mutual

/-- How deeply definitions are nested in the bodies of functions that are handed over. -/
def nesting : Operation → Nat
  | define f => f.body.nesting
  | eval e | evaluateTree e => e.nesting - 1
  | withScope steps | withParams steps => nestingAll steps
  | _ => 0

/-- The largest `nesting` of several operations. -/
def nestingAll : List Operation → Nat
  | [] => 0
  | op :: ops => max op.nesting (nestingAll ops)

end

end Operation

/-! ## Invariants -/

/-- A fact about contexts that every change of the scopes but a definition preserves. -/
class Context.Invariant (J : Context → Prop) : Prop where
  sameNames : ∀ {ctx ctx' : Context}, ctx.SameNames ctx' → J ctx → J ctx'
  push : ∀ {ctx}, J ctx → J ctx.push
  pop : ∀ {ctx ctx'}, J ctx → ctx.pop = .ok ctx' → J ctx'
  bind : ∀ {ctx} {name : String} {t : Term}, J ctx → J (ctx.bind name t)
  remove : ∀ {ctx ctx'} {name : String} {f : Function}, J ctx → ctx.remove name = .ok (f, ctx') →
    J ctx'

/-- The fact holds after if it has held before. -/
def Context.Preserves (J : Context → Prop) (ctx ctx' : Context) : Prop :=
  J ctx → J ctx'

variable {J : Context → Prop} [Invariant J]

instance : WideFrame (Preserves J) where
  refl := fun _ holds => holds
  trans := fun first second holds => second (first holds)
  advances := fun advances => Invariant.sameNames advances.toSameNames
  restore := by
    intro ctx ctx' preserves holds
    have same : ctx'.SameNames { ctx' with params := ctx.params } := ⟨rfl, rfl⟩
    exact Invariant.sameNames same (preserves holds)

theorem preserves_withScope {α : Type} {act : Calc α} (keeps : Keeps (Preserves J) act) :
    Keeps (Preserves J) (withScope act) := by
  refine keeps_of_rel fun ctx holds => ?_
  have inside := keeps.rel ctx.push (Invariant.push holds)
  exact after_withScope (fun _ popped => Invariant.pop inside popped) fun _ => inside

omit [Invariant J] in
theorem preserves_define {f : Function}
    (defined : ∀ {ctx ctx'}, J ctx → ctx.define f = .ok ctx' → J ctx') :
    Keeps (Preserves J) (Calc.define f) := by
  refine keeps_of_rel fun ctx holds => ?_
  unfold Calc.define
  split
  next done => exact defined holds done
  next => exact holds

theorem preserves_removeFunction (name : String) :
    Keeps (Preserves J) (removeFunction name) := by
  refine keeps_of_rel fun ctx holds => ?_
  unfold removeFunction
  split
  next done => exact Invariant.remove holds done
  next => exact holds

theorem preserves_popScope : Keeps (Preserves J) popScope := by
  refine keeps_of_rel fun ctx holds => ?_
  unfold popScope
  split
  next done => exact Invariant.pop holds done
  next => exact holds

theorem keeps_defineFunction {R : Context → Context → Prop} [Frame R]
    (defines : ∀ f : Function, f.body.nesting = 0 → Keeps R (Calc.define f)) (source : String) :
    Keeps R (defineFunction source) := by
  unfold defineFunction
  refine (ensures_tree (P := fun e => ∀ name params body text,
    e = .definition name params body text → body.nesting = 0) fun ctx e _ done => ?_).bind
    fun e plain => ?_
  · rcases nesting_read done with ⟨_, _, _, _, rfl, plain⟩ | none
    · intro _ _ _ _ equal
      cases equal
      exact plain
    · rintro _ _ _ _ rfl
      cases none
  split
  · exact (defines _ (plain _ _ _ _ rfl)).bind fun _ _ => ensures_pure trivial
  · exact ensures_fail _

namespace Operation

theorem keeps_discard {α : Type} {R : Context → Context → Prop} [Frame R] {act : Calc α}
    (keeps : Keeps R act) : Keeps R (discard act) :=
  keeps.map fun _ _ => trivial

/-- What the operations preserve that may evaluate a definition; `d` bounds how deeply definitions
are nested in the bodies of functions. -/
structure Preserving (J : Context → Prop) (d : Nat) : Prop where
  define : ∀ f : Function, f.body.nesting ≤ d → Keeps (Preserves J) (Calc.define f)
  differentiate : ∀ source wrt, Keeps (Preserves J) (Reckon.differentiate source wrt)
  integrate : ∀ source wrt, Keeps (Preserves J) (Reckon.integrate source wrt)

variable {d : Nat}

mutual

theorem keeps_act (rules : Preserving J d) : ∀ op : Operation, op.nesting ≤ d →
    Keeps (Preserves J) op.act
  | .define f, shallow => rules.define f shallow
  | .defineFunction source, _ =>
    keeps_discard (keeps_defineFunction
      (fun f plain => rules.define f (plain ▸ Nat.zero_le d)) source)
  | .removeFunction name, _ => keeps_discard (preserves_removeFunction name)
  | .bind _ _, _ => keeps_of_rel fun _ holds => Invariant.bind holds
  | .pushScope, _ => keeps_of_rel fun _ holds => Invariant.push holds
  | .popScope, _ => preserves_popScope
  | .freshName, _ => keeps_discard keeps_freshName
  | .setParams change, _ => by
    refine keeps_of_rel fun ctx holds => ?_
    have same : ctx.SameNames (Reckon.setParams change ctx).2 := ⟨rfl, rfl⟩
    exact Invariant.sameNames same holds
  | .eval e, shallow =>
    keeps_discard (keeps_eval (d := d + 1) (fun f small => rules.define f (Nat.lt_succ_iff.1 small))
      (Nat.sub_le_iff_le_add.1 shallow))
  | .evaluateTree e, shallow =>
    keeps_discard (keeps_evaluateTree (d := d + 1)
      (fun f small => rules.define f (Nat.lt_succ_iff.1 small)) (Nat.sub_le_iff_le_add.1 shallow))
  | .evaluate bindings source, _ => by
    refine keeps_discard ?_
    -- only without bindings does a definition stay
    cases bindings with
    | nil => exact keeps_evaluate (fun f plain => rules.define f (plain ▸ Nat.zero_le d)) source
    | cons binding bindings => exact keeps_evaluateWith (List.cons_ne_nil _ _) source
  | .simplify source, _ => keeps_discard (keeps_simplify source)
  | .differentiate source wrt, _ => keeps_discard (rules.differentiate source wrt)
  | .integrate source wrt, _ => keeps_discard (rules.integrate source wrt)
  | .findRoots source given, _ => keeps_discard (keeps_findRoots source given)
  | .readMatrix source, _ => keeps_discard (keeps_readMatrix source)
  | .call name inputs, _ => keeps_discard (keeps_call name inputs)
  | .callNative name inputs, _ => keeps_discard (keeps_callNative name inputs)
  | .callNativeOn name args, _ => keeps_discard (keeps_callNativeOn name args)
  | .withScope steps, shallow => preserves_withScope (keeps_actAll rules steps shallow)
  | .withParams steps, shallow => keeps_withParams (keeps_actAll rules steps shallow)

theorem keeps_actAll (rules : Preserving J d) : ∀ ops : List Operation, nestingAll ops ≤ d →
    Keeps (Preserves J) (actAll ops)
  | [], _ => keeps_pure ()
  | op :: ops, shallow => by
    obtain ⟨first, others⟩ := Nat.max_le.1 shallow
    exact (keeps_attempt (keeps_act rules op first) _).bind fun _ _ => keeps_actAll rules ops others

end

end Operation

end Reckon
