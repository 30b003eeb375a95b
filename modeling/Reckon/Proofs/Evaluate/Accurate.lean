import Reckon.Proofs.Evaluate.Text
import Reckon.Proofs.Frame.Evaluate
import Reckon.Proofs.Term.Accurate

/-!
# Evaluations produce terms that bind exactly as they look

An expression in names without a value is evaluated term by term, and every text on the way carries
the binding that looking at it would find, or none. The numbers on the way do not matter: whatever a
number is shown as is an operand with at most a sign in front.

Results: `accurate_of_produces`, `binding_of_produces`.
-/

namespace Reckon

open Calc Context

namespace Expr

mutual

/-- Literals, names that have no value, signs, operators and calls of native functions that take
values. -/
def IsUnbound (ctx : Context) : Expr → Prop
  | .literal .. => True
  | .var name => IsName name ∧ ctx.lookupVariable name = none
  | .unary _ e => e.IsUnbound ctx
  | .binary _ _ l r => l.IsUnbound ctx ∧ r.IsUnbound ctx
  | .call name args =>
    (ctx.lookupFunction name = none ∧
      ∃ n ∈ Native.all, ctx.native? name = some n ∧ n.takesExpressions = false) ∧
      AllUnbound ctx args
  | _ => False

/-- `IsUnbound` of several trees. -/
def AllUnbound (ctx : Context) : List Expr → Prop
  | [] => True
  | e :: es => e.IsUnbound ctx ∧ AllUnbound ctx es

end

mutual

/-- Evaluating the tree in the context gives the term, or gives it on the way. -/
inductive Produces : Expr → Context → Term → Prop
  | value {e : Expr} {ctx : Context} {t : Term} (done : (e.eval ctx).1 = .ok t) : Produces e ctx t
  | operand {sign : Sign} {e : Expr} {ctx : Context} {t : Term} (inner : Produces e ctx t) :
      Produces (.unary sign e) ctx t
  | left {op : Operator} {attached : Bool} {l r : Expr} {ctx : Context} {t : Term}
      (first : Produces l ctx t) : Produces (.binary op attached l r) ctx t
  | right {op : Operator} {attached : Bool} {l r : Expr} {ctx ctx' : Context} {a t : Term}
      (done : l.eval ctx = (.ok a, ctx')) (second : Produces r ctx' t) :
      Produces (.binary op attached l r) ctx t
  | argument {name : String} {args : List Expr} {ctx : Context} {t : Term}
      (inner : ProducesAll args ctx t) : Produces (.call name args) ctx t

/-- So does evaluating several trees, from left to right. -/
inductive ProducesAll : List Expr → Context → Term → Prop
  | head {e : Expr} {es : List Expr} {ctx : Context} {t : Term} (first : Produces e ctx t) :
      ProducesAll (e :: es) ctx t
  | tail {e : Expr} {es : List Expr} {ctx ctx' : Context} {a t : Term}
      (done : e.eval ctx = (.ok a, ctx')) (others : ProducesAll es ctx' t) :
      ProducesAll (e :: es) ctx t

end

end Expr

/-! ## Evaluation -/

instance (base : Context) : Stable base.SameNames Context.Advances :=
  ⟨fun advances same => same.trans advances.toSameNames⟩

section Tree

variable {base : Context} (call : Caller) (digits : Nat)

mutual

/-- One case for each way to build a tree. -/
theorem accurate_evalWith : ∀ e : Expr, e.IsUnbound base →
    Ensures base.SameNames Context.Advances (e.evalWith call digits) Term.Accurate
  | .literal n written, _ => by
    rw [Expr.evalWith]
    cases written with
    | false => exact ensures_pure trivial
    | true => exact (keeps_raisePrecision n).ensures.bind fun _ _ => ensures_pure trivial
  | .var name, ⟨isName, free⟩ => by
    rw [Expr.evalWith]
    refine (ensures_look (P := (· = none)) fun ctx same => ?_).bind fun found none =>
      ensures_pure ?_
    · rw [same.lookupVariable_eq, free]
    · rw [none]
      exact Term.accurate_ofName (isOperand_name isName).isSignable
  | .unary sign e, unbound => by
    rw [Expr.evalWith]
    refine (accurate_evalWith e unbound).bind fun t accurate => ?_
    cases sign with
    | negative => exact ensures_lift fun _ done => Term.accurate_negate accurate done
    | positive => exact ensures_pure accurate
  | .binary op attached l r, ⟨left, right⟩ => by
    rw [Expr.evalWith]
    exact (accurate_evalWith l left).bind fun a first =>
      (accurate_evalWith r right).bind fun b second =>
      (keeps_look _).ensures.bind fun _ _ =>
      ensures_lift fun _ done => Term.accurate_combine first second done
  | .call name args, ⟨⟨noFunction, n, member, native, values⟩, arguments⟩ => by
    rw [Expr.evalWith]
    refine (ensures_look (P := (· = none)) fun ctx same => ?_).bind fun f none => ?_
    · rw [lookupFunction, scopes, same.globals, same.inner]
      exact noFunction
    rw [none, Option.isSome_none, if_neg Bool.false_ne_true]
    refine (ensures_look (P := (· = some n)) fun ctx same => ?_).bind fun found known => ?_
    · rw [native?, same.globals]
      exact native
    rw [known]
    dsimp only
    rw [if_neg (by rw [values]; exact Bool.false_ne_true)]
    exact (accurate_evalAllWith args arguments).bind fun inputs accurate =>
      (keeps_look _).ensures.bind fun _ _ =>
      ensures_lift fun _ done =>
        Native.accurate_apply (Native.isName_of_mem member).1 accurate done

theorem accurate_evalAllWith : ∀ es : List Expr, Expr.AllUnbound base es →
    Ensures base.SameNames Context.Advances (Expr.evalAllWith call digits es)
      fun ts => ∀ t ∈ ts, t.Accurate
  | [], _ => by
    rw [Expr.evalAllWith]
    exact ensures_pure fun _ member => absurd member List.not_mem_nil
  | e :: es, ⟨here, others⟩ => by
    rw [Expr.evalAllWith]
    exact (accurate_evalWith e here).bind fun t first =>
      (accurate_evalAllWith es others).bind fun ts rest =>
      ensures_pure (List.forall_mem_cons.2 ⟨first, rest⟩)

end

end Tree

namespace Expr

variable {base ctx ctx' : Context} {e : Expr} {es : List Expr} {a t : Term}

theorem IsUnbound.sameNames (unbound : e.IsUnbound base) (same : base.SameNames ctx)
    (done : e.eval ctx = (.ok a, ctx')) : base.SameNames ctx' := by
  have advances := (accurate_evalWith (callFunction depthLimit) ambientDigits e unbound ctx same).1
  rw [show e.evalWith (callFunction depthLimit) ambientDigits ctx = (.ok a, ctx') from done]
    at advances
  exact same.trans advances.toSameNames

mutual

theorem accurate_of_produces : ∀ {e : Expr} {ctx : Context} {t : Term}, e.Produces ctx t →
    e.IsUnbound base → base.SameNames ctx → t.Accurate
  | e, ctx, t, .value done, unbound, same =>
    (accurate_evalWith (callFunction depthLimit) ambientDigits e unbound ctx same).2 t done
  | _, _, _, .operand inner, unbound, same => accurate_of_produces inner unbound same
  | _, _, _, .left first, ⟨left, _⟩, same => accurate_of_produces first left same
  | _, _, _, .right done second, ⟨left, right⟩, same =>
    accurate_of_produces second right (left.sameNames same done)
  | _, _, _, .argument inner, ⟨_, arguments⟩, same =>
    accurate_of_producesAll inner arguments same

theorem accurate_of_producesAll : ∀ {es : List Expr} {ctx : Context} {t : Term},
    ProducesAll es ctx t → AllUnbound base es → base.SameNames ctx → t.Accurate
  | _, _, _, .head first, ⟨here, _⟩, same => accurate_of_produces first here same
  | _, _, _, .tail done rest, ⟨here, others⟩, same =>
    accurate_of_producesAll rest others (here.sameNames same done)

end

/-- Whatever text arises while a tree without bound names is evaluated, the binding that it carries,
if it carries one, is the one that its characters show, and so its binding is that. -/
theorem binding_of_produces {s : String} {b : Option Binding} (unbound : e.IsUnbound ctx)
    (produced : e.Produces ctx (.symbolic s b)) :
    (∀ p, b = some p → p = looseness s) ∧ (Term.symbolic s b).binding = .ok (looseness s) := by
  obtain ⟨-, exact⟩ := accurate_of_produces produced unbound (.refl ctx)
  refine ⟨?_, congrArg Except.ok exact⟩
  rintro p rfl
  exact exact

/-- A changed sign in front of a sum. -/
theorem binding_opposite_sum :
    (∀ p, some Binding.unary = some p → p = looseness "-(x+y)") ∧
      (Term.symbolic "-(x+y)" (some Binding.unary)).binding = .ok (looseness "-(x+y)") := by
  have unbound : IsUnbound Context.initial
      (.unary .negative (.binary .plus false (.var "x") (.var "y"))) := by
    have free : ∀ name, Context.initial.lookupVariable name = none := fun _ =>
      Context.IsDefault.lookupVariable_eq_none ⟨rfl, rfl⟩
    exact ⟨⟨by decide +kernel, free "x"⟩, ⟨by decide +kernel, free "y"⟩⟩
  exact binding_of_produces unbound (.value (by decide +kernel))

end Expr

end Reckon
