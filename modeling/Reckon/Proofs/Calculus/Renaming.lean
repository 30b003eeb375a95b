import Reckon.Proofs.Evaluate.Respelled
import Reckon.Proofs.Request.Scopes

/-!
# A bound name shadows the constant in calculus

A variable that has the name of a constant is a variable where it is bound: another one that is
bound to the same value may take its place. Derivatives and antiderivatives of the two trees are
built side by side and are respelled again (`Expr.inStep_derivative`,
`Expr.inStep_antiderivative`), so they have the same values, or none.

Result: `Expr.values_renamed`. The one exception are powers of the variable `e` with an exponent
that varies, whose logarithm is shortened also where `e` is bound (`Expr.values_powerOfE`).
-/

namespace Reckon

open Calc Context

namespace Expr

/-! ## Building -/

section Build

variable {swap : String → String → Prop} {a a' b b' : Expr}

theorem respelled_sum (left : a.Respelled swap a') (right : b.Respelled swap b') :
    (buildSum a b).Respelled swap (buildSum a' b') := by
  unfold buildSum
  rw [← left.isLiteral_eq, ← right.isLiteral_eq]
  split
  · exact right
  split
  · exact left
  · exact ⟨a', b', rfl, left, right⟩

theorem respelled_negation (alike : a.Respelled swap a') :
    (buildNegation a).Respelled swap (buildNegation a') := by
  unfold buildNegation
  rw [← alike.isLiteral_eq]
  split
  · exact alike
  cases a with
  | unary sign e =>
    obtain ⟨f, rfl, inner⟩ := alike
    cases sign with
    | negative => exact inner
    | positive => exact ⟨_, rfl, f, rfl, inner⟩
  | var name =>
    rcases alike with rfl | ⟨name', exchanged, rfl⟩
    · exact .refl _
    · exact ⟨_, rfl, .inr ⟨name', exchanged, rfl⟩⟩
  | call | vector | matrix =>
    obtain ⟨_, rfl, inner⟩ := alike
    exact ⟨_, rfl, _, rfl, inner⟩
  | binary =>
    obtain ⟨_, _, rfl, inner⟩ := alike
    exact ⟨_, rfl, _, _, rfl, inner⟩
  | literal | definition | empty =>
    cases alike
    exact .refl _

theorem respelled_difference (left : a.Respelled swap a') (right : b.Respelled swap b') :
    (buildDifference a b).Respelled swap (buildDifference a' b') := by
  unfold buildDifference
  rw [← left.isLiteral_eq, ← right.isLiteral_eq]
  split
  · exact left
  split
  · exact respelled_negation right
  · exact ⟨a', b', rfl, left, right⟩

theorem respelled_product (left : a.Respelled swap a') (right : b.Respelled swap b') :
    (buildProduct a b).Respelled swap (buildProduct a' b') := by
  unfold buildProduct
  rw [← left.isLiteral_eq, ← left.isLiteral_eq, ← right.isLiteral_eq, ← right.isLiteral_eq]
  split
  · exact .refl _
  split
  · exact right
  split
  · exact left
  · exact ⟨a', b', rfl, left, right⟩

theorem respelled_quotient (left : a.Respelled swap a') (right : b.Respelled swap b') :
    (buildQuotient a b).Respelled swap (buildQuotient a' b') := by
  unfold buildQuotient
  rw [← left.isLiteral_eq, ← right.isLiteral_eq]
  split
  · exact left
  split
  · exact left
  · exact ⟨a', b', rfl, left, right⟩

theorem respelled_power (left : a.Respelled swap a') (right : b.Respelled swap b') :
    (buildPower a b).Respelled swap (buildPower a' b') := by
  unfold buildPower
  rw [← right.isLiteral_eq]
  split
  · exact left
  · exact ⟨a', b', rfl, left, right⟩

end Build

end Expr

/-! ## One context for both runs -/

/-- Both contexts are the same, and its scopes are those of `ctx`. -/
def Context.Stays (ctx a b : Context) : Prop :=
  a = b ∧ ctx.SameNames a

/-- Variables that are exchanged have the same value. -/
def Context.Twins (ctx : Context) (swap : String → String → Prop) : Prop :=
  ∀ n n', swap n n' → (ctx.lookupVariable n).isSome ∧ ctx.lookupVariable n = ctx.lookupVariable n'

/-- What is derived when the tree is: the tree itself, and its calls of functions once their bodies
have been put in. -/
inductive Context.Unfolds (ctx : Context) (e : Expr) : Expr → Prop where
  | itself : ctx.Unfolds e e
  | body {name : String} {args : List Expr} {u : Expr} : .call name args ∈ e.parts →
    (ctx.lookupFunction name).isSome → ((Expr.call name args).inline ctx).1 = .ok u →
    ctx.Unfolds e u

namespace Calc

/-- The scopes are looked at. -/
theorem inStep_look_names {α : Type} {ctx : Context} {f : Context → α}
    (names : ∀ before, ctx.SameNames before → f before = f ctx) :
    InStep ctx.Stays (fun a b => a = b ∧ a = f ctx) (look f) (look f) :=
  inStep_look fun before _ ⟨same, kept⟩ => ⟨congrArg f same, names before kept⟩

end Calc

/-- A context is related to itself if the variables that are exchanged are alike. -/
theorem Context.Twins.respells {ctx : Context} {shared swap : String → String → Prop}
    {series : String → Prop} (twins : ctx.Twins swap)
    (known : ∀ name n, ctx.native? name = some n → n.takesExpressions = true → series name)
    (top : ∀ n n', shared n n' → n ≠ "n" ∧ n' ≠ "n" ∧
      (ctx.globals.value? n).isSome ∧ ctx.globals.value? n = ctx.globals.value? n') :
    ctx.Respells shared swap series 0 ctx where
  params := rfl
  generated := rfl
  globals := rfl
  inner := List.forall₂_same.2 fun _ _ => ⟨fun _ => rfl, fun _ => Function.respells_refl _⟩
  deep := Nat.zero_le _
  known := known
  here := twins
  top := top

theorem Context.Twins.sameNames {ctx ctx' : Context} {swap : String → String → Prop}
    (twins : ctx.Twins swap) (same : ctx.SameNames ctx') : ctx'.Twins swap := by
  intro n n' exchanged
  rw [same.lookupVariable_eq, same.lookupVariable_eq]
  exact twins n n' exchanged

namespace Expr

variable {swap : String → String → Prop} {ctx : Context} {wrt : String}

/-! ## Exponents -/

theorem not_call_of_isArithmetic {name : String} {args : List Expr} :
    ∀ {e : Expr}, e.isArithmetic = true → .call name args ∉ e.parts
  | .unary _ e, arithmetic, inside => by
    rw [isArithmetic] at arithmetic
    rcases List.mem_cons.1 inside with same | inside
    · cases same
    · exact not_call_of_isArithmetic arithmetic inside
  | .binary _ _ l r, arithmetic, inside => by
    rw [isArithmetic, Bool.and_eq_true] at arithmetic
    rcases List.mem_cons.1 inside with same | inside
    · cases same
    rcases List.mem_append.1 inside with inside | inside
    · exact not_call_of_isArithmetic arithmetic.1 inside
    · exact not_call_of_isArithmetic arithmetic.2 inside
  | .literal .., _, inside | .var _, _, inside | .empty, _, inside => by
    cases List.mem_singleton.1 inside

/-- Without calls the context is the same after both evaluations. -/
theorem inStep_eval (twins : ctx.Twins swap) {e e' : Expr} (alike : e.Respelled swap e')
    (arithmetic : e.isArithmetic = true) : InStep ctx.Stays Eq e.eval e'.eval := by
  rintro before _ ⟨rfl, kept⟩
  have related : before.Respells (fun _ _ => False) swap (fun _ => True) 0 before :=
    (twins.sameNames kept).respells (fun _ _ _ _ => trivial) fun _ _ => False.elim
  have agrees := inStep_evalWith (keeps_callFunction depthLimit)
    (inStep_callFunction _ _ depthLimit) ambientDigits
    (.inr fun name args inside => absurd inside (not_call_of_isArithmetic arithmetic))
    alike before before related
  have advances : Context.Advances before (e.eval before).2 :=
    (keeps_eval_of_isArithmetic arithmetic).rel before
  have advances' : Context.Advances before (e'.eval before).2 :=
    (keeps_eval_of_isArithmetic (alike.isArithmetic_eq ▸ arithmetic)).rel before
  change Agrees _ _ (e.eval before) (e'.eval before) at agrees
  rcases run : e.eval before with ⟨outcome, after⟩
  rcases run' : e'.eval before with ⟨outcome', after'⟩
  rw [run, run'] at agrees
  rw [run] at advances
  rw [run'] at advances'
  cases agrees with
  | fault => exact .fault ..
  | value same ended =>
    refine .value same ⟨?_, kept.trans advances.toSameNames⟩
    obtain ⟨⟨globals, inner⟩, -⟩ := advances
    obtain ⟨⟨globals', inner'⟩, -⟩ := advances'
    obtain ⟨params, generated, -⟩ := ended
    obtain ⟨_, _, _, _⟩ := after
    obtain ⟨_, _, _, _⟩ := after'
    cases params
    cases generated
    cases globals.trans globals'.symm
    cases inner.trans inner'.symm
    rfl

/-- An exponent is the same number on both sides, or none. -/
theorem inStep_value? (twins : ctx.Twins swap) {e e' : Expr} (alike : e.Respelled swap e') :
    InStep ctx.Stays Eq e.value? e'.value? := by
  unfold value?
  rw [← alike.isArithmetic_eq]
  cases arithmetic : e.isArithmetic with
  | false => exact inStep_pure rfl
  | true =>
    have looked : InStep ctx.Stays Eq (look fun ctx => e.names.all ctx.isBound)
        (look fun ctx => e'.names.all ctx.isBound) := by
      refine inStep_look ?_
      rintro before _ ⟨rfl, kept⟩
      exact alike.all_names fun n n' exchanged => by
        obtain ⟨here, same⟩ := twins.sameNames kept n n' exchanged
        exact ⟨here, by rwa [isBound, ← same]⟩
    refine looked.bind_same fun bound => ?_
    cases bound with
    | false => exact inStep_pure rfl
    | true => exact (inStep_eval twins alike arithmetic).bind_same fun t => inStep_pure rfl

/-! ## Inlining -/

section Inline

variable {R : Context → Context → Prop} {again : Expr → Calc Expr}

mutual

/-- Inlining looks at functions only, so any relation is kept under which these are the same. -/
theorem inStep_inlineWith (plain : ctx.Plain)
    (names : ∀ before before', R before before' → ctx.SameNames before ∧ ctx.SameNames before')
    (next : ∀ e e', e.Respelled swap e' → InStep R (Respelled swap) (again e) (again e')) :
    ∀ {e e' : Expr}, e.Respelled swap e' →
      InStep R (Respelled swap) (e.inlineWith again) (e'.inlineWith again)
  | .call name args, _, ⟨_, shape, trees⟩ => by
    rw [shape, inlineWith, inlineWith]
    refine (inStep_inlineAllWith plain names next trees).bind fun es es' arguments => ?_
    have looked : InStep R (fun found found' : Option Function => found = found' ∧
        ∀ f, found = some f → f.body.nesting = 0) (look (·.lookupFunction name))
        (look (·.lookupFunction name)) := by
      refine inStep_look fun before before' related => ?_
      obtain ⟨same, same'⟩ := names before before' related
      unfold lookupFunction
      rw [same.scopes, same'.scopes]
      exact ⟨rfl, fun f found => Supply.body (P := (nesting · = 0)) plain found⟩
    refine looked.bind fun found _ known => ?_
    obtain ⟨rfl, known⟩ := known
    cases found with
    | none => exact inStep_pure ⟨es', rfl, arguments⟩
    | some f =>
      dsimp only
      rw [arguments.length_eq]
      exact (inStep_lift _).bind_same fun _ =>
        next _ _ (respelled_body f.params arguments (known f rfl))
  | .binary op attached l r, _, ⟨_, _, shape, left, right⟩ => by
    rw [shape, inlineWith, inlineWith]
    exact (inStep_inlineWith plain names next left).bind fun a a' here =>
      (inStep_inlineWith plain names next right).bind fun b b' there =>
      inStep_pure ⟨a', b', rfl, here, there⟩
  | .unary sign e, _, ⟨_, shape, tree⟩ => by
    rw [shape, inlineWith, inlineWith]
    exact (inStep_inlineWith plain names next tree).bind fun a a' here =>
      inStep_pure ⟨a', rfl, here⟩
  | .var name, _, tree => by
    rcases tree with rfl | ⟨name', exchanged, rfl⟩
    · exact inStep_pure (.refl _)
    · exact inStep_pure (.inr ⟨name', exchanged, rfl⟩)
  | .vector es, _, ⟨es', shape, trees⟩ => by
    rw [shape]
    exact inStep_pure ⟨es', rfl, trees⟩
  | .matrix es, _, ⟨es', shape, trees⟩ => by
    rw [shape]
    exact inStep_pure ⟨es', rfl, trees⟩
  | .literal .., _, tree | .definition .., _, tree | .empty, _, tree => by
    cases tree
    exact inStep_pure (.refl _)

theorem inStep_inlineAllWith (plain : ctx.Plain)
    (names : ∀ before before', R before before' → ctx.SameNames before ∧ ctx.SameNames before')
    (next : ∀ e e', e.Respelled swap e' → InStep R (Respelled swap) (again e) (again e')) :
    ∀ {es es' : List Expr}, AllRespelled swap es es' →
      InStep R (AllRespelled swap) (inlineAllWith again es) (inlineAllWith again es')
  | [], _, trees => by
    cases trees
    exact inStep_pure rfl
  | _ :: _, _, ⟨_, _, shape, first, others⟩ => by
    rw [shape, inlineAllWith, inlineAllWith]
    exact (inStep_inlineWith plain names next first).bind fun a a' here =>
      (inStep_inlineAllWith plain names next others).bind fun as as' rest =>
      inStep_pure ⟨a', as', rfl, here, rest⟩

end

theorem inStep_inline (plain : ctx.Plain)
    (names : ∀ before before', R before before' → ctx.SameNames before ∧ ctx.SameNames before')
    {e e' : Expr} (tree : e.Respelled swap e') :
    InStep R (Respelled swap) e.inline e'.inline := by
  unfold inline
  induction inlineLimit + 1 generalizing e e' with
  | zero => exact inStep_fail _ _
  | succ fuel ih => exact inStep_inlineWith plain names (fun _ _ tree => ih tree) tree

/-- What inlining yields does not depend on the settings. -/
theorem inline_eq_of_sameNames (plain : ctx.Plain) {before : Context} (kept : ctx.SameNames before)
    {e u : Expr} (done : (e.inline before).1 = .ok u) : (e.inline ctx).1 = .ok u := by
  have agrees := inStep_inline (R := fun a b => ctx.SameNames a ∧ ctx.SameNames b) plain
    (fun _ _ => id) (show e.Respelled (fun _ _ => False) e from .refl e) ctx before
    ⟨.refl ctx, kept⟩
  rcases run : e.inline ctx with ⟨outcome, after⟩
  rcases run' : e.inline before with ⟨outcome', after'⟩
  rw [run, run'] at agrees
  rw [run'] at done
  cases agrees with
  | fault => cases done
  | value trees _ =>
    cases done
    rw [trees.eq fun _ _ none => none.elim]

end Inline

/-! ## Deriving -/

/-- No power of the variable `e` that is exchanged has an exponent that varies. -/
def SparesLog (wrt : String) (swap : String → String → Prop) (e : Expr) : Prop :=
  ∀ attached exponent n', .binary .power attached (.var "e") exponent ∈ e.parts → swap "e" n' →
    exponent.mentions wrt = false

theorem SparesLog.of_parts {e part : Expr} (spares : e.SparesLog wrt swap)
    (inside : part.parts ⊆ e.parts) : part.SparesLog wrt swap :=
  fun attached exponent n' member => spares attached exponent n' (inside member)

theorem mentions_of_isVar {e : Expr} (itself : e.isVar wrt = true) : e.mentions wrt = true := by
  cases e with
  | var name => exact mentions_iff.2 (eq_of_beq itself)
  | _ => cases itself

theorem buildLog_of_ne {a : Expr} (other : a ≠ .var "e") : buildLog a = pure (.call "ln" [a]) := by
  unfold buildLog
  split
  · exact absurd rfl other
  · rfl

/-- The logarithm is shortened on both sides or on neither. -/
theorem inStep_buildLog (apart : ∀ n n', swap n n' → n' ≠ "e") {a a' : Expr}
    (alike : a.Respelled swap a') (spared : ∀ n', a = .var "e" → ¬ swap "e" n') :
    InStep ctx.Stays (Respelled swap) (buildLog a) (buildLog a') := by
  by_cases special : a = .var "e"
  · subst special
    rcases alike with rfl | ⟨n', exchanged, -⟩
    · unfold buildLog
      refine (inStep_look fun _ _ stays => congrArg (·.isConstant "e") stays.1).bind_same
        fun constant => ?_
      cases constant <;> exact inStep_pure (.refl _)
    · exact absurd exchanged (spared n' rfl)
  · have special' : a' ≠ .var "e" := by
      rintro rfl
      rcases alike.var_right with same | ⟨name, exchanged, -⟩
      · exact special same
      · exact apart name "e" exchanged rfl
    rw [buildLog_of_ne special, buildLog_of_ne special']
    exact inStep_pure ⟨_, rfl, a', [], rfl, alike, rfl⟩

/-- A formula with a tree in place of `x`. -/
theorem inStep_ofFormula {formula : String} (reads : ∀ v e, parse v formula = .ok e → e.nesting = 0)
    {x x' : Expr} (alike : x.Respelled swap x') :
    InStep ctx.Stays (Respelled swap) (ofFormula formula x) (ofFormula formula x') := by
  have read : InStep ctx.Stays (fun e e' => e = e' ∧ e.nesting = 0) (Calc.tree formula ["x"])
      (Calc.tree formula ["x"]) := by
    rintro before _ ⟨rfl, kept⟩
    unfold Calc.tree Context.read
    split
    next e done => exact .value ⟨rfl, reads _ e done⟩ ⟨rfl, kept⟩
    next => exact .fault ..
  unfold ofFormula
  refine read.bind fun e _ known => ?_
  obtain ⟨rfl, plain⟩ := known
  have argument : AllRespelled swap [x] [x'] := ⟨x', [], rfl, alike, rfl⟩
  exact inStep_pure (respelled_body ["x"] argument plain)

section Derive

variable (twins : ctx.Twins swap) (fixed : ∀ n n', swap n n' → n ≠ wrt ∧ n' ≠ wrt)
  (apart : ∀ n n', swap n n' → n' ≠ "e")

include twins apart

theorem inStep_derivePower {base base' exponent exponent' : Expr}
    {dBase dBase' dExponent dExponent' : Calc Expr} (left : base.Respelled swap base')
    (right : exponent.Respelled swap exponent')
    (dLeft : InStep ctx.Stays (Respelled swap) dBase dBase')
    (dRight : InStep ctx.Stays (Respelled swap) dExponent dExponent')
    (baseVaries exponentVaries : Bool)
    (spared : exponentVaries = true → ∀ n', base = .var "e" → ¬ swap "e" n') :
    InStep ctx.Stays (Respelled swap)
      (derivePower base exponent dBase dExponent baseVaries exponentVaries)
      (derivePower base' exponent' dBase' dExponent' baseVaries exponentVaries) := by
  unfold derivePower
  refine inStep_join dLeft (inStep_pure (.refl _)) fun d d' varies => ?_
  cases exponentVaries with
  | false =>
    refine (inStep_value? twins right).bind_same fun value => ?_
    cases value with
    | some n =>
      refine (inStep_decimal _).bind_same fun reduced => ?_
      have power : InStep ctx.Stays (Respelled swap)
          (buildPower base <$> Calc.decimal (Monomial.literal reduced))
          (buildPower base' <$> Calc.decimal (Monomial.literal reduced)) := by
        rw [map_eq_pure_bind, map_eq_pure_bind]
        exact (inStep_decimal _).bind_same fun e => inStep_pure (respelled_power left (.refl e))
      refine inStep_join (inStep_pure (.refl _)) power fun p p' raised => ?_
      exact (inStep_decimal _).bind_same fun factor =>
        inStep_pure (respelled_product (respelled_product (.refl factor) raised) varies)
    | none =>
      have reduced : (Expr.binary .minus false exponent (.number 1)).Respelled swap
          (.binary .minus false exponent' (.number 1)) := ⟨_, _, rfl, right, .refl _⟩
      exact inStep_pure
        (respelled_product (respelled_product right (respelled_power left reduced)) varies)
  | true =>
    have power := respelled_power left right
    refine dRight.bind fun e e' here => (inStep_buildLog apart left (spared rfl)).bind
      fun log log' there => ?_
    split
    · exact inStep_pure (respelled_product (respelled_product power there) here)
    · exact inStep_pure (respelled_product power (respelled_sum (respelled_product here there)
        (respelled_product right (respelled_quotient varies left))))

include fixed

theorem inStep_deriveBinary (op : Operator) {l l' r r' : Expr}
    {dLeft dLeft' dRight dRight' : Calc Expr}
    (left : l.Respelled swap l') (right : r.Respelled swap r')
    (first : InStep ctx.Stays (Respelled swap) dLeft dLeft')
    (second : InStep ctx.Stays (Respelled swap) dRight dRight')
    (spared : op = .power → r.mentions wrt = true → ∀ n', l = .var "e" → ¬ swap "e" n') :
    InStep ctx.Stays (Respelled swap) (deriveBinary wrt op l r dLeft dRight)
      (deriveBinary wrt op l' r' dLeft' dRight') := by
  unfold deriveBinary
  split
  · exact first.bind fun a a' here => second.bind fun b b' there =>
      inStep_pure (respelled_sum here there)
  split
  · exact first.bind fun a a' here => second.bind fun b b' there =>
      inStep_pure (respelled_difference here there)
  split
  · exact inStep_fail _ _
  next additive subtractive comparison =>
  dsimp only
  rw [← left.mentions_eq fixed, ← right.mentions_eq fixed]
  split
  · exact inStep_pure (.refl _)
  cases op with
  | times =>
    dsimp only
    split
    · exact second.bind fun b b' there => inStep_pure (respelled_product left there)
    split
    · exact first.bind fun a a' here => inStep_pure (respelled_product here right)
    · exact first.bind fun a a' here => second.bind fun b b' there =>
        inStep_pure (respelled_sum (respelled_product here right) (respelled_product left there))
  | divide =>
    dsimp only
    split
    · exact first.bind fun a a' here => inStep_pure (respelled_quotient here right)
    · exact first.bind fun a a' here => second.bind fun b b' there => inStep_pure
        (respelled_quotient
          (respelled_difference (respelled_product here right) (respelled_product left there))
          (respelled_power right (.refl _)))
  | power => exact inStep_derivePower twins apart left right first second _ _ (spared rfl)
  | plus => exact absurd rfl additive
  | minus => exact absurd rfl subtractive
  | greater | less | greaterEqual | lessEqual | notEqual | equal | increase =>
    exact absurd rfl comparison

omit twins apart in
theorem inStep_deriveCall (plain : ctx.Plain) (name : String) {args args' : List Expr}
    {dArg dArg' : Calc Expr} (trees : AllRespelled swap args args')
    (inner : InStep ctx.Stays (Respelled swap) dArg dArg') :
    InStep ctx.Stays (Respelled swap) (deriveCall wrt name args dArg)
      (deriveCall wrt name args' dArg') := by
  unfold deriveCall
  refine (inStep_look_names fun before kept => ?_).bind fun found _ known => ?_
  · rw [native?, native?, kept.globals]
  obtain ⟨rfl, known⟩ := known
  cases found with
  | none => exact inStep_fail _ _
  | some n =>
    have call : (Expr.call name args).Respelled swap (.call name args') := ⟨args', rfl, trees⟩
    dsimp only
    rw [trees.length_eq, ← call.mentions_eq fixed]
    refine (inStep_lift _).bind_same fun _ => ?_
    split
    · exact inStep_pure (.refl _)
    cases rule : n.derivative with
    | none => exact inStep_fail _ _
    | some formula =>
      cases args with
      | nil =>
        cases trees
        exact inStep_fail _ _
      | cons arg rest =>
        obtain ⟨arg', rest', rfl, first, -⟩ := trees
        have reads : ∀ v e, parse v formula = .ok e → e.nesting = 0 := fun v e =>
          Supply.derivative (P := (nesting · = 0)) plain known.symm rule
        exact (inStep_ofFormula reads first).bind fun outer outer' here =>
          inner.bind fun d d' there => inStep_pure (respelled_product here there)

/-- One case for each way to build a tree; calls of functions are left to `onCall`. -/
theorem inStep_deriveWith (plain : ctx.Plain) {onCall : Expr → Calc Expr} :
    ∀ {e e' : Expr}, e.Respelled swap e' → e.SparesLog wrt swap →
      (∀ name args args', .call name args ∈ e.parts → (ctx.lookupFunction name).isSome →
        AllRespelled swap args args' → InStep ctx.Stays (Respelled swap)
          (onCall (.call name args)) (onCall (.call name args'))) →
      InStep ctx.Stays (Respelled swap) (e.deriveWith onCall wrt) (e'.deriveWith onCall wrt)
  | .literal .., _, tree, _, _ | .empty, _, tree, _, _ => by
    cases tree
    exact inStep_pure (.refl _)
  | .var name, _, tree, _, _ => by
    rcases tree with rfl | ⟨name', exchanged, rfl⟩
    · exact inStep_pure (.refl _)
    · obtain ⟨other, other'⟩ := fixed name name' exchanged
      rw [deriveWith, deriveWith, beq_false_of_ne other, beq_false_of_ne other']
      exact inStep_pure (.refl _)
  | .unary sign e, _, ⟨_, shape, tree⟩, spares, calls => by
    have inside := parts_operand_subset sign e
    rw [shape, deriveWith, deriveWith]
    refine (inStep_deriveWith plain tree (spares.of_parts inside)
      fun name args args' member => calls name args args' (inside member)).bind fun d d' here => ?_
    cases sign with
    | negative => exact inStep_pure (respelled_negation here)
    | positive => exact inStep_pure here
  | .binary op attached l r, _, ⟨_, _, shape, left, right⟩, spares, calls => by
    have first := parts_left_subset op attached l r
    have second := parts_right_subset op attached l r
    rw [shape, deriveWith, deriveWith]
    refine inStep_deriveBinary twins fixed apart op left right
      (inStep_deriveWith plain left (spares.of_parts first)
        fun name args args' member => calls name args args' (first member))
      (inStep_deriveWith plain right (spares.of_parts second)
        fun name args args' member => calls name args args' (second member)) ?_
    rintro rfl varies n' rfl exchanged
    rw [spares attached r n' (.head _) exchanged] at varies
    cases varies
  | .call name args, _, ⟨args', shape, trees⟩, spares, calls => by
    have inner : InStep ctx.Stays (Respelled swap) (deriveFirst onCall wrt args)
        (deriveFirst onCall wrt args') := by
      cases args with
      | nil =>
        cases trees
        exact inStep_pure (.refl _)
      | cons e es =>
        obtain ⟨f, fs, rfl, tree, -⟩ := trees
        have inside := parts_argument_subset name (List.mem_cons_self (a := e) (l := es))
        exact inStep_deriveWith plain tree (spares.of_parts inside)
          fun name args args' member => calls name args args' (inside member)
    rw [shape, deriveWith, deriveWith]
    refine (inStep_look_names fun before kept => ?_).bind fun found _ known => ?_
    · rw [lookupFunction, lookupFunction, kept.scopes]
    obtain ⟨rfl, known⟩ := known
    split
    next defined => exact calls name args args' (.head _) (known ▸ defined) trees
    next => exact inStep_deriveCall fixed plain name trees inner
  | .definition .., _, tree, _, _ => by
    cases tree
    exact inStep_fail _ _
  | .vector _, _, ⟨_, shape, _⟩, _, _ => by
    rw [shape]
    exact inStep_fail _ _
  | .matrix _, _, ⟨_, shape, _⟩, _, _ => by
    rw [shape]
    exact inStep_fail _ _

/-- Both runs inline a call of a function and derive what they get. -/
theorem inStep_derivative (plain : ctx.Plain) {e e' : Expr} (tree : e.Respelled swap e')
    (spares : ∀ u, ctx.Unfolds e u → u.SparesLog wrt swap) :
    InStep ctx.Stays (Respelled swap) (e.derivative wrt) (e'.derivative wrt) := by
  refine inStep_deriveWith twins fixed apart plain tree (spares e .itself)
    fun name args args' member defined trees => ?_
  have call : (Expr.call name args).Respelled swap (.call name args') := ⟨args', rfl, trees⟩
  have names : ∀ before before', ctx.Stays before before' →
      ctx.SameNames before ∧ ctx.SameNames before' := by
    rintro before _ ⟨rfl, kept⟩
    exact ⟨kept, kept⟩
  refine ((inStep_inline plain names call).known fun before before' stays u done =>
    spares u (.body member defined (inline_eq_of_sameNames plain stays.2 done))).bind
      fun u u' known => ?_
  exact inStep_deriveWith twins fixed apart plain known.1 known.2
    fun _ _ _ _ _ _ => inStep_fail _ _

/-! ## Integrating -/

theorem inStep_integratePower {base base' exponent exponent' : Expr} (text text' : String)
    (left : base.Respelled swap base') (right : exponent.Respelled swap exponent')
    (spared : exponent.mentions wrt = true → ∀ n', base = .var "e" → ¬ swap "e" n') :
    InStep ctx.Stays (Respelled swap) (integratePower wrt base exponent text)
      (integratePower wrt base' exponent' text') := by
  unfold integratePower
  rw [← left.isVar_eq fixed, ← left.mentions_eq fixed, ← right.isVar_eq fixed,
    ← right.mentions_eq fixed]
  dsimp only
  split
  · refine (inStep_value? twins right).bind_same fun value => ?_
    cases value with
    | some n =>
      dsimp only
      split
      · exact inStep_pure (.refl _)
      · exact (inStep_decimal _).bind_same fun raised => (inStep_decimal _).bind_same
          fun literal => inStep_pure (.refl _)
    | none =>
      have raised : (Expr.binary .plus false exponent (.number 1)).Respelled swap
          (.binary .plus false exponent' (.number 1)) := ⟨_, _, rfl, right, .refl _⟩
      exact inStep_pure (respelled_quotient (respelled_power (.refl _) raised) raised)
  split
  next shape =>
    rw [Bool.and_eq_true] at shape
    exact (inStep_buildLog apart left (spared (mentions_of_isVar shape.2))).bind
      fun log log' here => inStep_pure (respelled_quotient (respelled_power left (.refl _)) here)
  · exact inStep_fail _ _

omit twins apart in
/-- The call of a native on the variable is integrated, any other call of what varies is refused. -/
theorem inStep_integrateCall (name : String) {args args' : List Expr}
    (trees : AllRespelled swap args args') :
    InStep ctx.Stays (Respelled swap) ((Expr.call name args).antiderivative wrt)
      ((Expr.call name args').antiderivative wrt) := by
  have whole : (Expr.call name args).Respelled swap (.call name args') := ⟨args', rfl, trees⟩
  have same := whole.mentions_eq fixed
  unfold antiderivative
  rw [← same]
  split
  · exact inStep_pure (respelled_product whole (.refl _))
  cases args with
  | nil =>
    cases trees
    exact inStep_fail _ _
  | cons arg rest =>
    obtain ⟨arg', rest', rfl, first, others⟩ := trees
    cases rest with
    | cons second rest =>
      obtain ⟨second', rest', rfl, -⟩ := others
      exact inStep_fail _ _
    | nil =>
      cases others
      dsimp only
      cases found : integrals.lookup name with
      | none => exact inStep_fail _ _
      | some formula =>
        have reads : ∀ v e, parse v formula = .ok e → e.nesting = 0 := by
          obtain ⟨front, back, shape, -⟩ := List.lookup_eq_some_iff.1 found
          exact fun v e => Hereditary.formula (P := (nesting · = 0))
            (noEquals_integrals _ (shape ▸ List.mem_append_right front (.head back)))
        dsimp only
        rw [← first.isVar_eq fixed]
        refine (inStep_look_names fun before kept => ?_).bind fun native _ known => ?_
        · rw [isNative, isNative, kept.globals]
        obtain ⟨rfl, -⟩ := known
        split
        · exact inStep_ofFormula reads (.refl _)
        · exact inStep_fail _ _

theorem inStep_integrateBinary (op : Operator) (attached : Bool) {l l' r r' : Expr}
    (left : l.Respelled swap l') (right : r.Respelled swap r')
    (first : InStep ctx.Stays (Respelled swap) (l.antiderivative wrt) (l'.antiderivative wrt))
    (second : InStep ctx.Stays (Respelled swap) (r.antiderivative wrt) (r'.antiderivative wrt))
    (spared : op = .power → r.mentions wrt = true → ∀ n', l = .var "e" → ¬ swap "e" n') :
    InStep ctx.Stays (Respelled swap) ((Expr.binary op attached l r).antiderivative wrt)
      ((Expr.binary op attached l' r').antiderivative wrt) := by
  have whole : (Expr.binary op attached l r).Respelled swap (.binary op attached l' r') :=
    ⟨l', r', rfl, left, right⟩
  unfold antiderivative
  dsimp only
  rw [← whole.mentions_eq fixed, ← left.mentions_eq fixed, ← right.mentions_eq fixed,
    ← right.isAnyVar_eq]
  split
  · exact inStep_pure (respelled_product whole (.refl _))
  cases op with
  | plus => exact first.bind fun a a' here => second.bind fun b b' there =>
      inStep_pure (respelled_sum here there)
  | minus => exact first.bind fun a a' here => second.bind fun b b' there =>
      inStep_pure (respelled_difference here there)
  | times =>
    dsimp only
    split
    · exact second.bind fun b b' there => inStep_pure (respelled_product left there)
    split
    · exact first.bind fun a a' here => inStep_pure (respelled_product here right)
    · exact inStep_fail _ _
  | divide =>
    dsimp only
    split
    · exact first.bind fun a a' here => inStep_pure (respelled_quotient here right)
    split
    · exact inStep_pure (respelled_product left (.refl _))
    · exact inStep_fail _ _
  | power => exact inStep_integratePower twins fixed apart _ _ left right (spared rfl)
  | greater | less | greaterEqual | lessEqual | notEqual | equal | increase =>
    exact inStep_fail _ _

theorem inStep_antiderivative : ∀ {e e' : Expr}, e.Respelled swap e' →
    e.SparesLog wrt swap →
      InStep ctx.Stays (Respelled swap) (e.antiderivative wrt) (e'.antiderivative wrt)
  | .var name, _, tree, _ => by
    rcases tree with rfl | ⟨name', exchanged, rfl⟩
    · rw [antiderivative]
      split <;> exact inStep_pure (.refl _)
    · obtain ⟨other, other'⟩ := fixed name name' exchanged
      rw [antiderivative, antiderivative, beq_false_of_ne other, beq_false_of_ne other']
      exact inStep_pure (respelled_product (.inr ⟨name', exchanged, rfl⟩) (.refl _))
  | .unary sign e, _, ⟨f, shape, tree⟩, spares => by
    have inside := parts_operand_subset sign e
    have whole : (Expr.unary sign e).Respelled swap (.unary sign f) := ⟨f, rfl, tree⟩
    rw [shape, antiderivative, antiderivative, ← whole.mentions_eq fixed]
    split
    · exact inStep_pure (respelled_product whole (.refl _))
    refine (inStep_antiderivative tree (spares.of_parts inside)).bind fun d d' here => ?_
    cases sign with
    | negative => exact inStep_pure (respelled_negation here)
    | positive => exact inStep_pure here
  | .binary op attached l r, _, ⟨l', r', shape, left, right⟩, spares => by
    rw [shape]
    refine inStep_integrateBinary twins fixed apart op attached left right
      (inStep_antiderivative left (spares.of_parts (parts_left_subset op attached l r)))
      (inStep_antiderivative right (spares.of_parts (parts_right_subset op attached l r))) ?_
    rintro rfl varies n' rfl exchanged
    rw [spares attached r n' (.head _) exchanged] at varies
    cases varies
  | .call name args, _, ⟨args', shape, trees⟩, _ => shape ▸ inStep_integrateCall fixed name trees
  | .vector es, _, ⟨es', shape, trees⟩, _ => by
    have whole : (Expr.vector es).Respelled swap (.vector es') := ⟨es', rfl, trees⟩
    subst shape
    have same := whole.mentions_eq fixed
    unfold antiderivative
    rw [← same]
    split
    · exact inStep_pure (respelled_product whole (.refl _))
    · exact inStep_fail _ _
  | .matrix rows, _, ⟨rows', shape, trees⟩, _ => by
    have whole : (Expr.matrix rows).Respelled swap (.matrix rows') := ⟨rows', rfl, trees⟩
    subst shape
    have same := whole.mentions_eq fixed
    unfold antiderivative
    rw [← same]
    split
    · exact inStep_pure (respelled_product whole (.refl _))
    · exact inStep_fail _ _
  | .literal .., _, tree, _ | .definition .., _, tree, _ | .empty, _, tree, _ => by
    cases tree
    exact inStep_pure (.refl _)

end Derive

/-! ## Values -/

/-- The value of a tree that is computed first. -/
def valueOf (act : Calc Expr) (ctx : Context) : Option Term :=
  ((act >>= Expr.eval) ctx).1.toOption

/-- One variable is exchanged for one other. -/
def exchange (name name' : String) : String → String → Prop :=
  fun n n' => n = name ∧ n' = name'

end Expr

/-- The name of a native that takes expressions. -/
def Context.IsSeries (ctx : Context) (name : String) : Prop :=
  ∃ n, ctx.native? name = some n ∧ n.takesExpressions = true

/-- The second variable may take the place of the first one where something is derived with respect
to a third: it has the same value and no special meaning. -/
structure Context.Renames (ctx : Context) (wrt name name' : String) : Prop where
  bound : (ctx.lookupVariable name).isSome
  same : ctx.lookupVariable name = ctx.lookupVariable name'
  fixed : name ≠ wrt ∧ name' ≠ wrt
  fresh : name' ≠ "e"

/-- Both variables have the same value at top level, and neither is the one that a series without a
variable is taken over. -/
structure Context.SameAtTop (ctx : Context) (name name' : String) : Prop where
  bound : (ctx.globals.value? name).isSome
  same : ctx.globals.value? name = ctx.globals.value? name'
  other : name ≠ "n" ∧ name' ≠ "n"

namespace Context

variable {ctx after : Context} {wrt name name' : String}

theorem SameNames.isSeries_eq (kept : ctx.SameNames after) : after.IsSeries = ctx.IsSeries := by
  funext name
  rw [IsSeries, IsSeries, native?, native?, kept.globals]

theorem Renames.sameNames (renames : ctx.Renames wrt name name') (kept : ctx.SameNames after) :
    after.Renames wrt name name' where
  bound := by
    rw [kept.lookupVariable_eq]
    exact renames.bound
  same := by
    rw [kept.lookupVariable_eq, kept.lookupVariable_eq]
    exact renames.same
  fixed := renames.fixed
  fresh := renames.fresh

theorem SameAtTop.sameNames (top : ctx.SameAtTop name name') (kept : ctx.SameNames after) :
    after.SameAtTop name name' where
  bound := by
    rw [kept.globals]
    exact top.bound
  same := by
    rw [kept.globals]
    exact top.same
  other := top.other

end Context

namespace Expr

variable {ctx : Context} {wrt name name' : String}

theorem twins_exchange (renames : ctx.Renames wrt name name') :
    ctx.Twins (exchange name name') := by
  rintro _ _ ⟨rfl, rfl⟩
  exact ⟨renames.bound, renames.same⟩

/-- Trees that differ in variables with the same value have the same value. -/
theorem eval_eq (renames : ctx.Renames wrt name name') {d d' : Expr}
    (alike : d.Respelled (exchange name name') d')
    (visible : ctx.SameAtTop name name' ∨ d.SumsApart ctx.IsSeries (exchange name name')) :
    (d.eval ctx).1.toOption = (d'.eval ctx).1.toOption := by
  have twins := twins_exchange renames
  have known : ∀ name n, ctx.native? name = some n → n.takesExpressions = true →
      ctx.IsSeries name := fun _ n found takes => ⟨n, found, takes⟩
  rcases visible with top | apart
  · have related : ctx.Respells (exchange name name') (exchange name name') ctx.IsSeries 0 ctx := by
      refine twins.respells known ?_
      rintro _ _ ⟨rfl, rfl⟩
      exact ⟨top.other.1, top.other.2, top.bound, top.same⟩
    exact (inStep_evalWith (keeps_callFunction depthLimit) (inStep_callFunction _ _ depthLimit)
      ambientDigits (.inl fun _ _ => id) alike ctx ctx related).toOption_eq
  · have related : ctx.Respells (fun _ _ => False) (exchange name name') ctx.IsSeries 0 ctx :=
      twins.respells known fun _ _ => False.elim
    exact (inStep_evalWith (keeps_callFunction depthLimit) (inStep_callFunction _ _ depthLimit)
      ambientDigits (.inr apart) alike ctx ctx related).toOption_eq

theorem valueOf_eq {act act' : Calc Expr} (renames : ctx.Renames wrt name name')
    (steps : InStep ctx.Stays (Respelled (exchange name name')) act act')
    (visible : ctx.SameAtTop name name' ∨
      ∀ d, (act ctx).1 = .ok d → d.SumsApart ctx.IsSeries (exchange name name')) :
    valueOf act ctx = valueOf act' ctx := by
  have agrees := steps ctx ctx ⟨rfl, .refl ctx⟩
  unfold valueOf
  rcases run : act ctx with ⟨outcome, after⟩
  rcases run' : act' ctx with ⟨outcome', after'⟩
  rw [run, run'] at agrees
  rw [run] at visible
  cases agrees with
  | fault fault fault' =>
    rw [bind_error run, bind_error run']
    rfl
  | @value d d' _ _ alike stays =>
    obtain ⟨rfl, kept⟩ := stays
    rw [bind_ok run, bind_ok run']
    refine eval_eq (renames.sameNames kept) alike ?_
    rcases visible with top | apart
    · exact .inl (top.sameNames kept)
    · exact .inr (kept.isSeries_eq ▸ apart d rfl)

/-- A bound variable may be exchanged for another one of the same value: derivative and
antiderivative have the same values, or none. A constant of the same name makes no difference, but
for powers of `e` with an exponent that varies. -/
theorem values_renamed {e : Expr} (plain : ctx.Plain) (tree : e.nesting = 0)
    (renames : ctx.Renames wrt name name')
    (spares : ∀ u, ctx.Unfolds e u → u.SparesLog wrt (exchange name name'))
    (visible : ctx.SameAtTop name name' ∨
      ∀ d, (e.derivative wrt ctx).1 = .ok d ∨ (e.antiderivative wrt ctx).1 = .ok d →
        d.SumsApart ctx.IsSeries (exchange name name')) :
    let renamed := e.substitute [(name, .var name')]
    valueOf (e.derivative wrt) ctx = valueOf (renamed.derivative wrt) ctx ∧
      valueOf (e.antiderivative wrt) ctx = valueOf (renamed.antiderivative wrt) ctx := by
  intro renamed
  have alike : e.Respelled (exchange name name') renamed := respelled_rename ⟨rfl, rfl⟩ tree
  have twins := twins_exchange renames
  have fixed : ∀ n n', exchange name name' n n' → n ≠ wrt ∧ n' ≠ wrt := by
    rintro _ _ ⟨rfl, rfl⟩
    exact renames.fixed
  have apart : ∀ n n', exchange name name' n n' → n' ≠ "e" := by
    rintro _ _ ⟨rfl, rfl⟩
    exact renames.fresh
  constructor
  · exact valueOf_eq renames (inStep_derivative twins fixed apart plain alike spares)
      (visible.imp_right fun sums d done => sums d (.inl done))
  · exact valueOf_eq renames
      (inStep_antiderivative twins fixed apart alike (spares e .itself))
      (visible.imp_right fun sums d done => sums d (.inr done))

/-- The name and `y` are bound to one, and `x` is bound to zero. -/
def shadowing (name : String) : Context :=
  ((Context.initial.bind name (.numeric 1)).bind "y" (.numeric 1)).bind "x" (.numeric 0)

/-- The variable with the exponent `x`. -/
def powerOfX (name : String) : Expr :=
  .binary .power false (.var name) (.var "x")

/-- A power of `pi`, where this is bound. -/
theorem values_powerOfPi :
    let ctx := shadowing "pi"
    (ctx.Plain ∧ ctx.Renames "x" "pi" "y" ∧ ctx.SameAtTop "pi" "y") ∧
      ((powerOfX "pi").derivative "x" ctx).1.toOption =
        some (.binary .times false (powerOfX "pi") (.call "ln" [.var "pi"])) ∧
      valueOf ((powerOfX "pi").derivative "x") ctx =
        valueOf (((powerOfX "pi").substitute [("pi", .var "y")]).derivative "x") ctx := by
  intro ctx
  have value : ∀ t, Entry.Plain (.value t) := fun _ => trivial
  have plain : ctx.Plain :=
    ((plain_initial.insert (value _)).insert (value _)).insert (value _)
  have renames : ctx.Renames "x" "pi" "y" :=
    ⟨by decide +kernel, by decide +kernel, by decide, by decide⟩
  have top : ctx.SameAtTop "pi" "y" := ⟨by decide +kernel, by decide +kernel, by decide⟩
  refine ⟨⟨plain, renames, top⟩, ?_, ?_⟩
  · rfl
  · refine (values_renamed plain rfl renames (fun u _ attached exponent n' _ exchanged => ?_)
      (.inl top)).1
    exact absurd exchanged.1 (by decide)

/-- A power of `e` with an exponent that varies is derived as if `e` were not bound. -/
theorem values_powerOfE :
    let ctx := shadowing "e"
    ctx.Renames "x" "e" "y" ∧
      valueOf ((powerOfX "e").derivative "x") ctx = some (.numeric 1) ∧
      valueOf (((powerOfX "e").substitute [("e", .var "y")]).derivative "x") ctx =
        some (.numeric 0) := by
  intro ctx
  exact ⟨⟨by decide +kernel, by decide +kernel, by decide, by decide⟩, by decide +kernel,
    by decide +kernel⟩

end Expr

end Reckon
