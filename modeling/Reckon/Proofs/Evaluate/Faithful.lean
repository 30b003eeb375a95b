import Reckon.Proofs.Evaluate.Text
import Reckon.Proofs.Expr.Words
import Reckon.Proofs.Operation
import Reckon.Proofs.Scope
import Reckon.Proofs.Term.Faithful

/-!
# Evaluations bind as they look

In a context whose values bind as they look and whose functions have names for their variables,
every evaluation yields a term that binds as it looks, and leaves such a context behind.

Results: `preserves_defineFunction_faithful`, `ensures_eval`.
-/

namespace Reckon

open Calc Context

/-- A value binds as it looks, the variables in the body of a function are names, and so is the name
of a native function. -/
def Entry.Faithful : Entry → Prop
  | .value t => t.Faithful
  | .function f => f.body.HasNames
  | .native n => IsName n.name
  | .constant _ => True

namespace Context

/-- All entries are faithful. -/
def Faithful (ctx : Context) : Prop :=
  ∀ scope ∈ ctx.scopes, ∀ entry ∈ scope.entries, entry.2.Faithful

variable {ctx ctx' : Context} {name : String}

theorem faithful_initial : initial.Faithful := by
  intro scope member entry inside
  obtain rfl := List.mem_singleton.1 member
  rcases List.mem_append.1 inside with constant | native
  · obtain ⟨c, -, rfl⟩ := List.mem_map.1 constant
    trivial
  · obtain ⟨n, known, rfl⟩ := List.mem_map.1 native
    exact (Native.isName_of_mem known).1

theorem SameNames.faithful (same : ctx.SameNames ctx') (faithful : ctx.Faithful) :
    ctx'.Faithful := by
  rwa [Faithful, same.scopes]

namespace Faithful

theorem push (faithful : ctx.Faithful) : ctx.push.Faithful := by
  intro scope member entry inside
  rcases List.mem_cons.1 (show scope ∈ {} :: ctx.scopes from member) with rfl | outer
  · exact absurd inside List.not_mem_nil
  · exact faithful scope outer entry inside

theorem insert (faithful : ctx.Faithful) {entry : Entry} (new : entry.Faithful) :
    (ctx.updateCurrent (·.insert name entry)).Faithful := by
  intro scope member entry' inside
  rw [scopes_updateCurrent] at member
  rcases List.mem_cons.1 member with rfl | outer
  · rcases Scope.mem_insert inside with same | old
    · rwa [same]
    · exact faithful _ ctx.current_mem_scopes entry' old
  · exact faithful scope (List.mem_of_mem_tail outer) entry' inside

theorem define (faithful : ctx.Faithful) {f : Function} (names : f.body.HasNames)
    (done : ctx.define f = .ok ctx') : ctx'.Faithful := by
  obtain ⟨-, -, -, rfl⟩ := define_eq_ok.1 done
  exact faithful.insert names

theorem bind (faithful : ctx.Faithful) {t : Term} (value : t.Faithful) :
    (ctx.bind name t).Faithful :=
  faithful.insert value

theorem bindAll (bindings : List (String × Term)) (values : ∀ entry ∈ bindings, entry.2.Faithful)
    (faithful : ctx.Faithful) :
    (bindings.foldl (fun ctx (name, t) => ctx.bind name t) ctx).Faithful := by
  induction bindings generalizing ctx with
  | nil => exact faithful
  | cons binding bindings ih =>
    obtain ⟨here, others⟩ := List.forall_mem_cons.1 values
    exact ih others (faithful.bind here)

theorem lookupVariable (faithful : ctx.Faithful) {t : Term}
    (found : ctx.lookupVariable name = some t) : t.Faithful := by
  have value : ∀ scope ∈ ctx.scopes, scope.value? name = some t → t.Faithful := by
    intro scope member found
    unfold Scope.value? at found
    split at found
    next here =>
      cases found
      exact faithful scope member _ (Scope.find?_eq_some here).1
    next => cases found
  rcases Option.or_eq_some_iff.1 found with here | ⟨-, global⟩
  · exact value _ ctx.current_mem_scopes here
  · exact value _ ctx.globals_mem_scopes global

theorem lookupFunction (faithful : ctx.Faithful) {f : Function}
    (found : ctx.lookupFunction name = some f) : f.body.HasNames := by
  obtain ⟨scope, member, inside⟩ := mem_of_lookupFunction found
  exact faithful scope member _ inside

theorem native? (faithful : ctx.Faithful) {n : Native} (found : ctx.native? name = some n) :
    IsName n.name :=
  faithful _ ctx.globals_mem_scopes _ (mem_of_native? found)

end Faithful

end Context

instance : WideFrame (Preserves Context.Faithful) where
  refl := fun _ holds => holds
  trans := fun first second holds => second (first holds)
  advances := fun advances => advances.toSameNames.faithful
  restore := fun preserves holds => preserves holds

instance : Stable Context.Faithful (Preserves Context.Faithful) :=
  ⟨fun preserves holds => preserves holds⟩

instance : Stable Context.Faithful Context.Advances :=
  ⟨fun advances => advances.toSameNames.faithful⟩

/-- Defining functions keeps a context faithful, whatever their texts are. -/
theorem preserves_defineFunction_faithful (source : String) :
    Keeps (Preserves Context.Faithful) (defineFunction source) := by
  unfold defineFunction
  refine (ensures_tree (P := Expr.HasNames) fun ctx e _ done =>
    Expr.hasNames_parse (Context.read_eq_ok.1 done)).bind fun e names => ?_
  split
  next name params body text =>
    exact (preserves_define fun faithful done =>
      faithful.define (f := ⟨name, params, body, text⟩) names.2.2 done).bind fun _ _ =>
      ensures_pure trivial
  next => exact ensures_fail _

/-! ## Evaluating -/

/-- Calls on faithful terms yield faithful terms. -/
def Caller.IsFaithful (call : Caller) : Prop :=
  ∀ digits name inputs, (∀ t ∈ inputs, t.Faithful) →
    Ensures Context.Faithful Context.Advances (call digits name inputs) Term.Faithful

section Tree

variable {call : Caller}

theorem faithful_applyToExpressions (calls : call.Advances) (n : Native) (args : List Expr) :
    Ensures Context.Faithful (Preserves Context.Faithful) (applyToExpressions call n args)
      Term.Faithful := by
  refine fun ctx _ => ⟨(keeps_applyToExpressions calls n args).rel ctx, fun t done => ?_⟩
  have isNumeric := isNumeric_applyToExpressions (Prod.ext done rfl)
  cases t with
  | numeric n => trivial
  | symbolic s b => cases isNumeric

mutual

/-- One case for each way to build a tree. -/
theorem ensures_evalWith (calls : call.Advances) (faithfully : call.IsFaithful) (digits : Nat) :
    ∀ e : Expr, e.HasNames → Ensures Context.Faithful (Preserves Context.Faithful)
      (e.evalWith call digits) Term.Faithful
  | .literal n written, _ => by
    rw [Expr.evalWith]
    cases written with
    | false => exact ensures_pure trivial
    | true => exact (keeps_raisePrecision n).ensures.bind fun _ _ => ensures_pure trivial
  | .var name, isName => by
    rw [Expr.evalWith]
    refine (ensures_look (P := fun found => ∀ t, found = some t → t.Faithful)
      fun ctx faithful t => faithful.lookupVariable).bind fun found values => ensures_pure ?_
    cases found with
    | none => exact Term.faithful_ofName (Form.balanced_name isName)
    | some t => exact values t rfl
  | .unary sign e, names => by
    rw [Expr.evalWith]
    refine (ensures_evalWith calls faithfully digits e names).bind fun t faithful => ?_
    cases sign with
    | negative => exact ensures_lift fun _ done => Term.faithful_negate faithful done
    | positive => exact ensures_pure faithful
  | .binary op attached l r, ⟨left, right⟩ => by
    rw [Expr.evalWith]
    exact (ensures_evalWith calls faithfully digits l left).bind fun a first =>
      (ensures_evalWith calls faithfully digits r right).bind fun b second =>
      (keeps_look _).ensures.bind fun _ _ =>
      ensures_lift fun _ done => Term.faithful_combine first second done
  | .call name args, names => by
    have arguments := ensures_evalAllWith calls faithfully digits args names
    rw [Expr.evalWith]
    refine (keeps_look _).ensures.bind fun f _ => ?_
    split
    · exact arguments.bind fun inputs values => (faithfully _ _ inputs values).widen
    · refine (ensures_look (P := fun found => ∀ n, found = some n → IsName n.name)
        fun ctx faithful n => faithful.native?).bind fun found names => ?_
      cases found with
      | none => exact ensures_fail _
      | some n =>
        dsimp only
        split
        · exact faithful_applyToExpressions calls n args
        · exact arguments.bind fun inputs values => (keeps_look _).ensures.bind fun _ _ =>
            ensures_lift fun _ done => Native.faithful_apply (names n rfl) values done
  | .definition name params body source, ⟨isName, parameters, names⟩ => by
    rw [Expr.evalWith]
    exact (preserves_define fun faithful done =>
      faithful.define (f := ⟨name, params, body, source⟩) names done).ensures.bind fun _ _ =>
      ensures_pure (faithful_signatureText isName parameters)
  | .vector _, _ => by
    rw [Expr.evalWith]
    exact ensures_fail _
  | .matrix _, _ => by
    rw [Expr.evalWith]
    exact ensures_fail _
  | .empty, _ => by
    rw [Expr.evalWith]
    exact ensures_pure trivial

theorem ensures_evalAllWith (calls : call.Advances) (faithfully : call.IsFaithful) (digits : Nat) :
    ∀ es : List Expr, Expr.AllHaveNames es → Ensures Context.Faithful (Preserves Context.Faithful)
      (Expr.evalAllWith call digits es) fun ts => ∀ t ∈ ts, t.Faithful
  | [], _ => by
    rw [Expr.evalAllWith]
    exact ensures_pure fun _ member => absurd member List.not_mem_nil
  | e :: es, ⟨here, others⟩ => by
    rw [Expr.evalAllWith]
    exact (ensures_evalWith calls faithfully digits e here).bind fun t first =>
      (ensures_evalAllWith calls faithfully digits es others).bind fun ts rest =>
      ensures_pure (List.forall_mem_cons.2 ⟨first, rest⟩)

end

end Tree

/-- A computation in a scope of its own yields what it yields. -/
theorem ensures_withScope {α : Type} {act : Calc α} {P : α → Prop} (keeps : Keeps Confined act)
    (ensures : Ensures Context.Faithful (Preserves Context.Faithful) act P) :
    Ensures Context.Faithful Context.Advances (withScope act) P := by
  intro ctx faithful
  refine ⟨(keeps_withScope keeps).rel ctx, fun a done => (ensures ctx.push faithful.push).2 a ?_⟩
  unfold withScope at done
  rcases run : act ctx.push with ⟨result, ctx'⟩
  rw [run] at done
  dsimp only at done
  split at done
  next => exact done
  next => cases done

theorem isFaithful_callFunction (fuel : Nat) : Caller.IsFaithful (callFunction fuel) := by
  induction fuel with
  | zero => exact fun _ _ _ _ => ensures_fail _
  | succ fuel ih =>
    intro digits name inputs values
    unfold callFunction
    refine (ensures_look (P := fun found => ∀ f, found = some f → f.body.HasNames)
      fun ctx faithful f => faithful.lookupFunction).bind fun found names => ?_
    cases found with
    | none => exact ensures_fail _
    | some f =>
      refine (keeps_lift _).ensures.bind fun _ _ => ensures_withScope ?_ ?_
      · exact (keeps_of_rel (confined_bindAll _)).bind fun _ _ =>
          keeps_evalWith (keeps_callFunction fuel) (fun f _ => keeps_define f) digits f.body le_rfl
      · refine (keeps_of_rel fun ctx faithful => ?_).ensures.bind fun _ _ =>
          ensures_evalWith (keeps_callFunction fuel) ih digits f.body (names f rfl)
        exact faithful.bindAll _ fun entry member => values _ (List.of_mem_zip member).2

/-- In a faithful context, a tree with names for its variables has a faithful value. -/
theorem ensures_eval {e : Expr} (names : e.HasNames) :
    Ensures Context.Faithful (Preserves Context.Faithful) e.eval Term.Faithful :=
  ensures_evalWith (keeps_callFunction depthLimit) (isFaithful_callFunction depthLimit)
    ambientDigits e names

end Reckon
