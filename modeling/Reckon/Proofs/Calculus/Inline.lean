import Reckon.Proofs.Frame.Calculus
import Reckon.Proofs.Scope

/-!
# How inlining ends

`Context.Reaches` says which bodies the calls of a tree lead to, and over how many calls. Where no
part of them is a `sum`, a vector, a matrix, a definition or a literal longer than the precision,
inlining ends without calls of functions, or with a wrong number of arguments, or because calls
are nested too deeply (`ends_inline`). The fuel carries the proof, since a tree grows when trees
are put in place of its parameters.
-/

namespace Reckon

open Calc

/-! ## The parts of a tree -/

namespace Expr

mutual

/-- The tree and everything in it. -/
def parts : Expr → List Expr
  | .unary sign e => .unary sign e :: e.parts
  | .binary op attached l r => .binary op attached l r :: (l.parts ++ r.parts)
  | .call name args => .call name args :: partsAll args
  | .definition name params body source => .definition name params body source :: body.parts
  | .vector es => .vector es :: partsAll es
  | .matrix rows => .matrix rows :: partsAll rows
  | .literal n written => [.literal n written]
  | .var name => [.var name]
  | .empty => [.empty]

/-- The parts of several trees. -/
def partsAll : List Expr → List Expr
  | [] => []
  | e :: es => e.parts ++ partsAll es

end

theorem self_mem_parts (e : Expr) : e ∈ e.parts := by
  cases e <;> exact .head _

theorem mem_partsAll {e : Expr} {es : List Expr} : e ∈ partsAll es ↔ ∃ e' ∈ es, e ∈ e'.parts := by
  induction es with
  | nil => simp [partsAll]
  | cons first rest ih => simp [partsAll, ih]

theorem parts_operand_subset (sign : Sign) (e : Expr) : e.parts ⊆ (Expr.unary sign e).parts :=
  List.subset_cons_self _ _

theorem parts_left_subset (op : Operator) (attached : Bool) (l r : Expr) :
    l.parts ⊆ (Expr.binary op attached l r).parts :=
  List.subset_cons_of_subset _ (List.subset_append_left _ _)

theorem parts_right_subset (op : Operator) (attached : Bool) (l r : Expr) :
    r.parts ⊆ (Expr.binary op attached l r).parts :=
  List.subset_cons_of_subset _ (List.subset_append_right _ _)

theorem parts_argument_subset (name : String) {args : List Expr} {e : Expr} (member : e ∈ args) :
    e.parts ⊆ (Expr.call name args).parts :=
  fun _ inside => .tail _ (mem_partsAll.2 ⟨e, member, inside⟩)

/-- No part of the tree is a call of a function. -/
def CallFree (ctx : Context) (e : Expr) : Prop :=
  ∀ name args, .call name args ∈ e.parts → ctx.lookupFunction name = none

/-- The part is evaluated on its own, without a change of the context: it is no `sum`, vector,
matrix or definition, and no literal that raises the precision. -/
def IsPlain (ctx : Context) : Expr → Prop
  | .literal n written => written = true → n.significantDigits ≤ ctx.params.precision
  | .call name _ => ∀ n ∈ ctx.native? name, n.takesExpressions = false
  | .definition .. | .vector _ | .matrix _ => False
  | .unary .. | .binary .. | .var _ | .empty => True

instance (ctx : Context) (e : Expr) : Decidable (e.IsPlain ctx) :=
  match e with
  | .literal n written =>
    inferInstanceAs (Decidable (written = true → n.significantDigits ≤ ctx.params.precision))
  | .call name _ =>
    inferInstanceAs (Decidable (∀ n ∈ ctx.native? name, n.takesExpressions = false))
  | .definition .. | .vector _ | .matrix _ => inferInstanceAs (Decidable False)
  | .unary .. | .binary .. | .var _ | .empty => inferInstanceAs (Decidable True)

end Expr

/-- The bodies that the calls of a tree lead to, with the number of calls on the way. -/
inductive Context.Reaches (ctx : Context) (e : Expr) : Nat → Expr → Prop where
  | root : ctx.Reaches e 0 e
  | body {k : Nat} {e' : Expr} {name : String} {args : List Expr} {f : Function} :
    ctx.Reaches e k e' → .call name args ∈ e'.parts → ctx.lookupFunction name = some f →
      ctx.Reaches e (k + 1) f.body

theorem Context.Reaches.trans {ctx : Context} {e e' e'' : Expr} {j k : Nat}
    (first : ctx.Reaches e j e') (second : ctx.Reaches e' k e'') : ctx.Reaches e (j + k) e'' := by
  induction second with
  | root => exact first
  | body _ called found ih => exact .body ih called found

namespace Expr

variable {ctx : Context} {deep wrong : Prop}

/-- The calls of functions have as many arguments as there are parameters. -/
def FitsParams (ctx : Context) (e : Expr) : Prop :=
  ∀ name args f, .call name args ∈ e.parts → ctx.lookupFunction name = some f →
    args.length = f.params.length

/-- What inlining with this much fuel may meet: plain parts and, unless `wrong`, calls with the
right number of arguments; where the fuel may run out, `deep`. -/
def Tame (ctx : Context) (deep wrong : Prop) : (fuel : Nat) → Expr → Prop
  | 0, _ => deep
  | fuel + 1, e => (∀ part ∈ e.parts, part.IsPlain ctx) ∧ (wrong ∨ e.FitsParams ctx) ∧
    ∀ name args f, .call name args ∈ e.parts → ctx.lookupFunction name = some f →
      Tame ctx deep wrong fuel f.body

theorem tame_of_reaches {fuel : Nat} {e : Expr} (bodies : ∀ k e', ctx.Reaches e k e' →
    (∀ part ∈ e'.parts, part.IsPlain ctx) ∧ (wrong ∨ e'.FitsParams ctx) ∧ (deep ∨ k < fuel)) :
    Tame ctx deep wrong fuel e := by
  induction fuel generalizing e with
  | zero => exact (bodies 0 e .root).2.2.resolve_right (Nat.not_lt_zero 0)
  | succ fuel ih =>
    obtain ⟨plain, fits, -⟩ := bodies 0 e .root
    refine ⟨plain, fits, fun name args f called found => ih fun k e' reaches => ?_⟩
    obtain ⟨plain', fits', shallow⟩ :=
      bodies (1 + k) e' ((Context.Reaches.body .root called found).trans reaches)
    exact ⟨plain', fits', shallow.imp_right fun small => by omega⟩

theorem Tame.part {fuel : Nat} {e e' : Expr} (tame : Tame ctx deep wrong (fuel + 1) e)
    (inside : e'.parts ⊆ e.parts) : Tame ctx deep wrong (fuel + 1) e' := by
  obtain ⟨plain, fits, bodies⟩ := tame
  exact ⟨fun part member => plain part (inside member),
    fits.imp_right fun fits name args f called => fits name args f (inside called),
    fun name args f called => bodies name args f (inside called)⟩

theorem Tame.operand {fuel : Nat} {sign : Sign} {e : Expr}
    (tame : Tame ctx deep wrong (fuel + 1) (.unary sign e)) : Tame ctx deep wrong (fuel + 1) e :=
  tame.part (parts_operand_subset sign e)

theorem Tame.left {fuel : Nat} {op : Operator} {attached : Bool} {l r : Expr}
    (tame : Tame ctx deep wrong (fuel + 1) (.binary op attached l r)) :
    Tame ctx deep wrong (fuel + 1) l :=
  tame.part (parts_left_subset op attached l r)

theorem Tame.right {fuel : Nat} {op : Operator} {attached : Bool} {l r : Expr}
    (tame : Tame ctx deep wrong (fuel + 1) (.binary op attached l r)) :
    Tame ctx deep wrong (fuel + 1) r :=
  tame.part (parts_right_subset op attached l r)

theorem Tame.argument {fuel : Nat} {name : String} {args : List Expr}
    (tame : Tame ctx deep wrong (fuel + 1) (.call name args)) :
    ∀ e ∈ args, Tame ctx deep wrong (fuel + 1) e :=
  fun _ member => tame.part (parts_argument_subset name member)

/-! ## Trees without calls -/

theorem callFree_literal (n : Decimal) (written : Bool) : CallFree ctx (.literal n written) :=
  fun _ _ called => by simp [parts] at called

theorem callFree_var (name : String) : CallFree ctx (.var name) :=
  fun _ _ called => by simp [parts] at called

theorem callFree_empty : CallFree ctx .empty :=
  fun _ _ called => by simp [parts] at called

theorem callFree_unary {sign : Sign} {e : Expr} :
    CallFree ctx (.unary sign e) ↔ CallFree ctx e := by
  simp [CallFree, parts]

theorem callFree_binary {op : Operator} {attached : Bool} {l r : Expr} :
    CallFree ctx (.binary op attached l r) ↔ CallFree ctx l ∧ CallFree ctx r := by
  simp [CallFree, parts, or_imp, forall_and]

theorem callFree_call {name : String} {args : List Expr} :
    CallFree ctx (.call name args) ↔
      ctx.lookupFunction name = none ∧ ∀ e ∈ args, CallFree ctx e := by
  constructor
  · intro free
    refine ⟨free name args (.head _), fun e member name' args' called => ?_⟩
    exact free name' args' (parts_argument_subset name member called)
  · rintro ⟨unknown, others⟩ name' args' called
    rcases List.mem_cons.1 called with equal | inside
    · cases equal
      exact unknown
    · obtain ⟨e, member, called'⟩ := mem_partsAll.1 inside
      exact others e member name' args' called'

mutual

/-- There is nothing to inline in a tree without calls of functions. -/
theorem inlineWith_of_callFree (again : Expr → Calc Expr) :
    ∀ e : Expr, CallFree ctx e → e.inlineWith again ctx = (.ok e, ctx)
  | .call name args, free => by
    obtain ⟨unknown, others⟩ := callFree_call.1 free
    rw [inlineWith, bind_ok (inlineAllWith_of_callFree again args others),
      bind_ok (look_apply _ ctx), unknown]
    rfl
  | .binary op attached l r, free => by
    obtain ⟨left, right⟩ := callFree_binary.1 free
    rw [inlineWith, bind_ok (inlineWith_of_callFree again l left),
      bind_ok (inlineWith_of_callFree again r right)]
    rfl
  | .unary sign e, free => by
    rw [inlineWith, bind_ok (inlineWith_of_callFree again e (callFree_unary.1 free))]
    rfl
  | .literal .., _ => rfl
  | .var _, _ => rfl
  | .definition .., _ => rfl
  | .vector _, _ => rfl
  | .matrix _, _ => rfl
  | .empty, _ => rfl

theorem inlineAllWith_of_callFree (again : Expr → Calc Expr) :
    ∀ es : List Expr, (∀ e ∈ es, CallFree ctx e) → inlineAllWith again es ctx = (.ok es, ctx)
  | [], _ => rfl
  | e :: es, free => by
    obtain ⟨first, others⟩ := List.forall_mem_cons.1 free
    rw [inlineAllWith, bind_ok (inlineWith_of_callFree again e first),
      bind_ok (inlineAllWith_of_callFree again es others)]
    rfl

end

/-! ## How inlining ends -/

/-- The context stays as it is; there is a result with the property, or a call with a wrong number
of arguments, or calls are nested too deeply. -/
def Ends {α : Type} (ctx : Context) (deep wrong : Prop) (act : Calc α) (P : α → Prop) : Prop :=
  (∃ a, act ctx = (.ok a, ctx) ∧ P a) ∨
  (wrong ∧ ∃ signature expected given,
    act ctx = (.error (.arity signature expected given), ctx)) ∨
  (deep ∧ act ctx = (.error (.depth .inlining), ctx))

section Ends

variable {α β : Type} {P : α → Prop} {Q : β → Prop}

theorem ends_pure {a : α} (holds : P a) : Ends ctx deep wrong (pure a) P :=
  .inl ⟨a, rfl, holds⟩

theorem ends_look {f : Context → α} : Ends ctx deep wrong (look f) fun a => f ctx = a :=
  .inl ⟨f ctx, rfl, rfl⟩

theorem ends_checkArity {signature : String} {expected given : Nat}
    (fits : wrong ∨ given = expected) :
    Ends ctx deep wrong (lift (checkArity signature expected given)) fun _ => True := by
  by_cases equal : given = expected
  · exact .inl ⟨(), by rw [lift_apply, checkArity, if_pos equal], trivial⟩
  · refine .inr (.inl ⟨fits.resolve_right equal, signature, expected, given, ?_⟩)
    rw [lift_apply, checkArity, if_neg equal]

theorem Ends.bind {act : Calc α} {next : α → Calc β} (first : Ends ctx deep wrong act P)
    (second : ∀ a, P a → Ends ctx deep wrong (next a) Q) :
    Ends ctx deep wrong (act >>= next) Q := by
  rcases first with ⟨a, run, holds⟩ | ⟨isWrong, signature, expected, given, run⟩ | ⟨isDeep, run⟩
  · have rest := second a holds
    unfold Ends at rest ⊢
    rw [bind_ok run]
    exact rest
  · exact .inr (.inl ⟨isWrong, signature, expected, given, bind_error run⟩)
  · exact .inr (.inr ⟨isDeep, bind_error run⟩)

end Ends

/-- All trees for variables are without calls. -/
def FreeBindings (ctx : Context) (bindings : Bindings) : Prop :=
  ∀ entry ∈ bindings, CallFree ctx entry.2

/-- What inlines bodies ends without calls, after it has put trees in place of the parameters. -/
def EndsBodies (ctx : Context) (deep wrong : Prop) (fuel : Nat) (again : Expr → Calc Expr) : Prop :=
  ∀ (e : Expr) (bindings : Bindings), Tame ctx deep wrong fuel e → FreeBindings ctx bindings →
    Ends ctx deep wrong (again (e.substitute bindings)) (CallFree ctx)

variable {fuel : Nat} {bindings : Bindings} {again : Expr → Calc Expr}

mutual

theorem ends_inlineWith (free : FreeBindings ctx bindings)
    (next : EndsBodies ctx deep wrong fuel again) :
    ∀ e : Expr, Tame ctx deep wrong (fuel + 1) e →
      Ends ctx deep wrong ((e.substitute bindings).inlineWith again) (CallFree ctx)
  | .var name, _ => by
    rw [substitute]
    cases found : bindings.lookup name with
    | none => exact ends_pure (callFree_var name)
    | some e =>
      obtain ⟨front, back, rfl, -⟩ := List.lookup_eq_some_iff.1 found
      have callFree := free (name, e) (List.mem_append_right _ (.head _))
      exact .inl ⟨e, inlineWith_of_callFree again e callFree, callFree⟩
  | .unary sign e, tame => by
    rw [substitute, inlineWith]
    exact (ends_inlineWith free next e tame.operand).bind fun e' callFree =>
      ends_pure (callFree_unary.2 callFree)
  | .binary op attached l r, tame => by
    rw [substitute, inlineWith]
    exact (ends_inlineWith free next l tame.left).bind fun l' left =>
      (ends_inlineWith free next r tame.right).bind fun r' right =>
      ends_pure (callFree_binary.2 ⟨left, right⟩)
  | .call name args, tame => by
    rw [substitute, inlineWith]
    refine (ends_inlineAllWith free next args tame.argument).bind fun args' arguments => ?_
    refine ends_look.bind fun found looked => ?_
    cases found with
    | none => exact ends_pure (callFree_call.2 ⟨looked, arguments.2⟩)
    | some f =>
      have fits : wrong ∨ args'.length = f.params.length := tame.2.1.imp_right fun fits =>
        arguments.1.trans (fits name args f (.head _) looked)
      refine (ends_checkArity fits).bind fun _ _ => next f.body _ ?_ fun entry member => ?_
      · exact tame.2.2 name args f (.head _) looked
      · exact arguments.2 _ (List.of_mem_zip member).2
  | .literal .., _ => ends_pure (callFree_literal _ _)
  | .empty, _ => ends_pure callFree_empty
  | .definition .., tame => (tame.1 _ (self_mem_parts _)).elim
  | .vector _, tame => (tame.1 _ (self_mem_parts _)).elim
  | .matrix _, tame => (tame.1 _ (self_mem_parts _)).elim

theorem ends_inlineAllWith (free : FreeBindings ctx bindings)
    (next : EndsBodies ctx deep wrong fuel again) :
    ∀ es : List Expr, (∀ e ∈ es, Tame ctx deep wrong (fuel + 1) e) →
      Ends ctx deep wrong (inlineAllWith again (substituteAll bindings es))
        fun es' => es'.length = es.length ∧ ∀ e ∈ es', CallFree ctx e
  | [], _ => ends_pure ⟨rfl, fun _ member => absurd member List.not_mem_nil⟩
  | e :: es, tame => by
    obtain ⟨first, others⟩ := List.forall_mem_cons.1 tame
    rw [substituteAll, inlineAllWith]
    refine (ends_inlineWith free next e first).bind fun e' here =>
      (ends_inlineAllWith free next es others).bind fun es' rest => ends_pure ?_
    exact ⟨congrArg (· + 1) rest.1, List.forall_mem_cons.2 ⟨here, rest.2⟩⟩

end

theorem ends_inlineWithin (fuel : Nat) : EndsBodies ctx deep wrong fuel (inlineWithin fuel) := by
  induction fuel with
  | zero => exact fun _ _ tame _ => .inr (.inr ⟨tame, rfl⟩)
  | succ fuel ih => exact fun e _ tame free => ends_inlineWith free ih e tame

mutual

theorem substitute_nil : ∀ e : Expr, e.substitute [] = e
  | .var name => rfl
  | .unary sign e => by rw [substitute, substitute_nil e]
  | .binary op attached l r => by rw [substitute, substitute_nil l, substitute_nil r]
  | .call name args => by rw [substitute, substituteAll_nil args]
  | .definition name params body source => by
    rw [substitute, List.filter_nil, substitute_nil body]
  | .vector es => by rw [substitute, substituteAll_nil es]
  | .matrix rows => by rw [substitute, substituteAll_nil rows]
  | .literal .. => rfl
  | .empty => rfl

theorem substituteAll_nil : ∀ es : List Expr, substituteAll [] es = es
  | [] => rfl
  | e :: es => by rw [substituteAll, substitute_nil e, substituteAll_nil es]

end

theorem ends_inline {e : Expr} (tame : Tame ctx deep wrong (inlineLimit + 1) e) :
    Ends ctx deep wrong e.inline (CallFree ctx) := by
  have ends := ends_inlineWithin _ e [] tame fun _ member => absurd member List.not_mem_nil
  rw [substitute_nil] at ends
  exact ends

end Expr

end Reckon
