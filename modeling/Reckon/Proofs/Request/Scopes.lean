import Reckon.Proofs.Operation
import Reckon.Proofs.Scope

/-!
# What requests leave of the scopes

A request leaves all scopes as they were, whether it succeeds or fails. A text that is a definition
adds its function to the current scope if it succeeds, and nothing else. To derive and to integrate
is to evaluate what bodies of functions are made of: this needs a context where no body has a
definition in it (`Context.Plain`), which operations lead to. The exception is `integrate`, which
evaluates a definition that it is given (`scopes_after_requests`).
-/

namespace Reckon

open Calc Context

/-! ## Contexts without nested definitions -/

/-- Nothing that the entry is made of has a definition in it. -/
def Entry.Plain : Entry → Prop
  | .function f => f.body.nesting = 0
  | .native n => ∀ formula ∈ n.derivative, '=' ∉ formula.toList
  | .constant _ | .value _ => True

namespace Context

/-- No body of a function and no formula of a native has a definition in it. -/
def Plain (ctx : Context) : Prop :=
  ∀ scope ∈ ctx.scopes, ∀ entry ∈ scope.entries, entry.2.Plain

theorem noEquals_natives : ∀ n ∈ Native.all, ∀ formula ∈ n.derivative, '=' ∉ formula.toList := by
  decide

theorem plain_initial : initial.Plain := by
  intro scope member entry inside
  cases List.mem_singleton.1 member
  rcases List.mem_append.1 inside with constant | native
  · obtain ⟨c, -, rfl⟩ := List.mem_map.1 constant
    trivial
  · obtain ⟨n, listed, rfl⟩ := List.mem_map.1 native
    exact noEquals_natives n listed

variable {ctx ctx' : Context}

theorem Plain.insert (plain : ctx.Plain) {name : String} {entry : Entry} (new : entry.Plain) :
    (ctx.updateCurrent (·.insert name entry)).Plain := by
  intro scope member entry' inside
  rw [scopes_updateCurrent] at member
  rcases List.mem_cons.1 member with rfl | outer
  · rcases Scope.mem_insert inside with equal | old
    · rw [equal]
      exact new
    · exact plain ctx.current ctx.current_mem_scopes entry' old
  · exact plain scope (List.mem_of_mem_tail outer) entry' inside

/-- Every scope that is left is part of one that was there. -/
theorem mem_eraseInnermost {name : String} {scopes : List Scope} {scope : Scope}
    (member : scope ∈ eraseInnermost name scopes) :
    ∃ scope' ∈ scopes, ∀ entry ∈ scope.entries, entry ∈ scope'.entries := by
  induction scopes with
  | nil => cases member
  | cons first rest ih =>
    unfold eraseInnermost at member
    split at member
    · rcases List.mem_cons.1 member with rfl | outer
      · exact ⟨first, .head _, fun entry inside => (List.mem_filter.1 inside).1⟩
      · exact ⟨scope, .tail _ outer, fun _ inside => inside⟩
    · rcases List.mem_cons.1 member with rfl | outer
      · exact ⟨scope, .head _, fun _ inside => inside⟩
      · obtain ⟨scope', old, part⟩ := ih outer
        exact ⟨scope', .tail _ old, part⟩

theorem Plain.remove {name : String} {f : Function} (plain : ctx.Plain)
    (done : ctx.remove name = .ok (f, ctx')) : ctx'.Plain := by
  unfold Context.remove at done
  split at done
  next => cases done
  next =>
    split at done
    · cases done
      intro scope member entry inside
      rcases List.mem_append.1 member with inner | outer
      · obtain ⟨scope', old, part⟩ := mem_eraseInnermost inner
        exact plain scope' (List.mem_append_left _ old) entry (part entry inside)
      · exact plain scope (List.mem_append_right _ outer) entry inside
    · cases done
      intro scope member entry inside
      rcases List.mem_append.1 member with inner | outer
      · exact plain scope (List.mem_append_left _ inner) entry inside
      · cases List.mem_singleton.1 outer
        exact plain ctx.globals ctx.globals_mem_scopes entry (List.mem_filter.1 inside).1

instance : Invariant Plain where
  sameNames := by
    intro ctx ctx' same plain scope member
    exact plain scope (same.scopes ▸ member)
  push := by
    intro ctx plain scope member entry inside
    rcases List.mem_cons.1 member with rfl | old
    · cases inside
    · exact plain scope old entry inside
  pop := by
    intro ctx ctx' plain popped scope member
    obtain ⟨top, scopes, -⟩ := scopes_pop popped
    exact plain scope (scopes ▸ List.mem_cons_of_mem top member)
  bind := fun plain => plain.insert trivial
  remove := Plain.remove

instance : Stable Plain Advances where
  of_rel := fun advances => Invariant.sameNames advances.toSameNames

end Context

instance : Expr.Supply Plain (Expr.nesting · = 0) where
  literal _ _ := rfl
  var _ := rfl
  unary := Iff.rfl
  binary := Nat.max_eq_zero_iff
  call := Expr.nestingAll_eq_zero
  substitute := fun {e bindings} plain trees => Nat.le_zero.1 <| plain ▸
    Expr.nesting_substitute (d := 0) (fun entry member => Nat.le_of_eq (trees entry member)) e
  formula := nesting_parse_of_noEquals
  body := by
    intro ctx name f plain found
    obtain ⟨scope, member, inside⟩ := mem_of_lookupFunction found
    exact plain scope member _ inside
  derivative := by
    intro ctx name n formula v e plain found rule done
    have noEquals := plain _ ctx.globals_mem_scopes _ (mem_of_native? found) formula rule
    exact nesting_parse_of_noEquals noEquals done

/-! ## Deriving and integrating -/

theorem advances_differentiate (source wrt : String) :
    Ensures Plain Advances (differentiate source wrt) fun _ => True := by
  unfold differentiate
  refine (ensures_tree fun ctx e _ done => nesting_read done).bind fun e shape => ?_
  rcases shape with ⟨name, params, body, text, rfl, -⟩ | plain
  · -- a definition is not derived
    exact ensures_fail _
  · exact (Expr.ensures_inline plain).bind fun e' plain' =>
      (Expr.ensures_derivative wrt plain').bind fun _ plain'' =>
      (advances_evaluateTree plain'').ensures

theorem advances_integrateTree (wrt : String) {e : Expr} (plain : e.nesting = 0) :
    Ensures Plain Advances (do evaluateTree (← (← e.inline).antiderivative wrt)) fun _ => True :=
  (Expr.ensures_inline plain).bind fun e' plain' =>
    (Expr.ensures_antiderivative wrt e' plain').bind fun _ plain'' =>
    (advances_evaluateTree plain'').ensures

/-- A definition is integrated like a number that does not vary. -/
theorem preserves_integrateDefinition (name wrt : String) (params : List String) {body : Expr}
    (text : Option String) (plain : body.nesting = 0) : Keeps (Preserves Plain) (do
      evaluateTree (← (← (Expr.definition name params body text).inline).antiderivative wrt)) := by
  refine keeps_evaluateTree (d := 1)
    (e := .buildProduct (.definition name params body text) (.var wrt)) (fun f small => ?_) ?_
  · exact preserves_define fun {_ _} holds done =>
      (define_eq_ok.1 done).2.2.2 ▸ holds.insert (Nat.lt_one_iff.1 small)
  · show max (body.nesting + 1) 0 ≤ 1
    rw [plain]
    exact Nat.le_refl 1

theorem preserves_integrate (source wrt : String) :
    Keeps (Preserves Plain) (integrate source wrt) := by
  refine keeps_of_rel fun ctx plain => ?_
  unfold integrate
  rw [tree_bind]
  split
  next e done =>
    rcases nesting_read done with ⟨name, params, body, text, rfl, shallow⟩ | shallow
    · exact (preserves_integrateDefinition name wrt params text shallow).rel ctx plain
    · exact Stable.of_rel (advances_integrateTree wrt shallow ctx plain).1 plain
  next => exact plain

/-- Every context is plain where no body of a function has a definition in it. -/
theorem plain_reached {ops : List Operation} (plain : Operation.nestingAll ops = 0) :
    (Operation.reached ops).Plain := by
  refine (Operation.keeps_actAll ⟨fun f small => ?_, fun source wrt => ?_, preserves_integrate⟩ ops
    (Nat.le_of_eq plain)).rel initial plain_initial
  · exact preserves_define fun {_ _} holds done =>
      (define_eq_ok.1 done).2.2.2 ▸ holds.insert (Nat.le_zero.1 small)
  · exact keeps_of_rel fun ctx holds =>
      Stable.of_rel (advances_differentiate source wrt ctx holds).1 holds

/-! ## Definitions -/

namespace Context

/-- The context with one more function, the last entry of the current scope. -/
def append (ctx : Context) (f : Function) : Context :=
  ctx.updateCurrent fun scope => ⟨scope.entries ++ [(f.name, .function f)]⟩

theorem define_eq_append {ctx ctx' : Context} {f : Function} (done : ctx.define f = .ok ctx') :
    ctx' = ctx.append f := by
  obtain ⟨-, -, new, rfl⟩ := define_eq_ok.1 done
  have absent := lookupFunction_eq_none.1 new ctx.current ctx.current_mem_scopes
  have last : ctx.current.insert f.name (.function f) =
      ⟨ctx.current.entries ++ [(f.name, .function f)]⟩ :=
    congrArg Scope.mk (Scope.entries_insert (by simpa [Scope.has, Entry.kind] using absent))
  obtain ⟨settings, globals, inner, generated⟩ := ctx
  cases inner with
  | nil => exact congrArg (fun scope => Context.mk settings scope [] generated) last
  | cons scope outer =>
    exact congrArg (fun scope => Context.mk settings globals (scope :: outer) generated) last

/-- A function with this name and these parameters has been added, and nothing else has changed;
or there was a fault and nothing has changed. -/
def Defines {α : Type} (ctx : Context) (name : String) (params : List String)
    (outcome : Except Fault α × Context) : Prop :=
  (∃ a f, outcome.1 = .ok a ∧ f.name = name ∧ f.params = params ∧
      (ctx.append f).SameNames outcome.2) ∨
    ∃ fault, outcome.1 = .error fault ∧ ctx.SameNames outcome.2

/-- A text that is a definition adds its function, any other text nothing. -/
def DefinesAtMost {α : Type} (ctx : Context) (source : String)
    (outcome : Except Fault α × Context) : Prop :=
  match ctx.read source [] with
  | .ok (.definition name params _ _) => ctx.Defines name params outcome
  | _ => ctx.SameNames outcome.2

/-- The text is a definition. -/
def readsDefinition (ctx : Context) (source : String) : Bool :=
  match ctx.read source [] with
  | .ok (.definition ..) => true
  | _ => false

end Context

theorem defines_define {α : Type} (ctx : Context) (f : Function) (a : α) :
    ctx.Defines f.name f.params ((do Calc.define f; return a) ctx) := by
  cases done : ctx.define f with
  | ok ctx' =>
    have run : Calc.define f ctx = (.ok (), ctx') := by rw [Calc.define, done]
    rw [bind_ok run, define_eq_append done]
    exact .inl ⟨a, f, rfl, rfl, rfl, SameNames.refl _⟩
  | error fault =>
    have run : Calc.define f ctx = (.error fault, ctx) := by rw [Calc.define, done]
    rw [bind_error run]
    exact .inr ⟨fault, rfl, SameNames.refl _⟩

theorem definesAtMost_defineFunction (ctx : Context) (source : String) :
    ctx.DefinesAtMost source (defineFunction source ctx) := by
  unfold defineFunction DefinesAtMost
  rw [tree_bind]
  cases ctx.read source [] with
  | error fault => exact SameNames.refl ctx
  | ok e =>
    cases e
    case definition name params body text => exact defines_define ctx ⟨name, params, body, text⟩ _
    all_goals exact SameNames.refl ctx

/-- A definition is not simplified; its constants may be replaced. -/
theorem prepare_definition (ctx : Context) (name : String) (params : List String) (body : Expr)
    (text : Option String) : ∃ body', (Expr.definition name params body text).prepare ctx =
      (.ok (.definition name params body' text), ctx) := by
  unfold Expr.prepare
  rw [bind_ok (look_apply _ ctx)]
  split
  · exact ⟨_, bind_ok (look_apply _ ctx)⟩
  · exact ⟨body, rfl⟩

theorem defines_answer (ctx : Context) (name : String) (params : List String) (body : Expr)
    (text : Option String) :
    ctx.Defines name params ((Expr.definition name params body text).answer ctx) := by
  obtain ⟨body', prepared⟩ := prepare_definition ctx name params body text
  have run : (Expr.definition name params body text).answer ctx =
      (do
        Calc.define ⟨name, params, body', text⟩
        return (Term.ofName (signatureText name params)).removeParens) ctx := by
    show ((Expr.definition name params body text).prepare >>= fun e => e.eval >>= Term.settle) ctx
      = _
    rw [bind_ok prepared, Expr.eval, Expr.evalWith, bind_assoc]
    rfl
  rw [run]
  exact defines_define ctx ⟨name, params, body', text⟩ _

theorem definesAtMost_evaluate (ctx : Context) (source : String) :
    ctx.DefinesAtMost source (evaluate source ctx) := by
  unfold evaluate DefinesAtMost withParams
  rw [tree_bind]
  cases done : ctx.read source [] with
  | error fault => exact ⟨rfl, rfl⟩
  | ok e =>
    rcases nesting_read done with ⟨name, params, body, text, rfl, -⟩ | plain
    · rcases defines_answer ctx name params body text with
        ⟨t, f, done, named, taken, same⟩ | ⟨fault, failed, same⟩
      · exact .inl ⟨t, f, done, named, taken, same.globals, same.inner⟩
      · exact .inr ⟨fault, failed, same.globals, same.inner⟩
    · have advances := (keeps_answer (R := Advances) (d := 0) (fun _ deep => nomatch deep)
        (Nat.le_of_eq plain)).rel ctx
      dsimp only
      split
      next equal =>
        cases equal
        cases plain
      next => exact ⟨advances.globals, advances.inner⟩

/-! ## Requests -/

theorem sameNames_integrate {ctx : Context} (plain : ctx.Plain) {source : String}
    (other : ctx.readsDefinition source = false) (wrt : String) :
    ctx.SameNames (integrate source wrt ctx).2 := by
  unfold readsDefinition at other
  unfold integrate
  rw [tree_bind]
  cases done : ctx.read source [] with
  | error fault => exact SameNames.refl ctx
  | ok e =>
    rcases nesting_read done with ⟨name, params, body, text, rfl, -⟩ | shallow
    · rw [done] at other
      cases other
    · exact (advances_integrateTree wrt shallow ctx plain).1.toSameNames

/-- A request leaves the scopes as they were, whether it succeeds or fails. The text of a
definition adds its function when it is evaluated without bindings or handed to `defineFunction`.
To derive and to integrate is to evaluate what bodies are made of, so these bodies must have no
definition in them, and a definition must not be integrated. -/
theorem scopes_after_requests (ops : List Operation) :
    let ctx := Operation.reached ops
    (∀ source names, ctx.SameNames (Calc.read source names ctx).2) ∧
    (∀ bindings source, bindings ≠ [] → ctx.SameNames (evaluateWith bindings source ctx).2) ∧
    (∀ source, ctx.DefinesAtMost source (evaluateWith [] source ctx)) ∧
    (∀ source, ctx.DefinesAtMost source (defineFunction source ctx)) ∧
    (∀ source, ctx.SameNames (simplify source ctx).2) ∧
    (∀ source given, ctx.SameNames (findRoots source given ctx).2) ∧
    (∀ source, ctx.SameNames (readMatrix source ctx).2) ∧
    (∀ name inputs, ctx.SameNames (call name inputs ctx).2) ∧
    (∀ name inputs, ctx.SameNames (callNative name inputs ctx).2) ∧
    (∀ name args, ctx.SameNames (callNativeOn name args ctx).2) ∧
    (Operation.nestingAll ops = 0 →
      (∀ source wrt, ctx.SameNames (differentiate source wrt ctx).2) ∧
      (∀ source wrt, ctx.readsDefinition source = false →
        ctx.SameNames (integrate source wrt ctx).2)) := by
  intro ctx
  have same {α : Type} {act : Calc α} (keeps : Keeps Advances act) : ctx.SameNames (act ctx).2 :=
    (keeps.rel ctx).toSameNames
  refine ⟨fun _ _ => SameNames.refl ctx,
    fun _ source given => same (keeps_evaluateWith given source),
    definesAtMost_evaluate ctx, definesAtMost_defineFunction ctx,
    fun source => same (keeps_simplify source),
    fun source given => same (keeps_findRoots source given),
    fun source => same (keeps_readMatrix source),
    fun name inputs => same (keeps_call name inputs),
    fun name inputs => same (keeps_callNative name inputs),
    fun name args => same (keeps_callNativeOn name args), fun plain => ?_⟩
  have reached : ctx.Plain := plain_reached plain
  exact ⟨fun source wrt => (advances_differentiate source wrt ctx reached).1.toSameNames,
    fun _ wrt other => sameNames_integrate reached other wrt⟩

theorem scopes_after_integrating_call :
    let ops : List Operation :=
      [.defineFunction "f(x)=x^2", .pushScope, .bind "y" (.numeric 3), .evaluate [] "f(y)"]
    let ctx := Operation.reached ops
    ctx.readsDefinition "f(x)" = false ∧ ctx.SameNames (integrate "f(x)" "x" ctx).2 ∧
      ctx.SameNames (evaluateWith [("z", .expression "g(x)=x")] "f(z)" ctx).2 := by
  intro ops ctx
  have other : ctx.readsDefinition "f(x)" = false := by decide +kernel
  obtain ⟨-, binds, -, -, -, -, -, -, -, -, calculus⟩ := scopes_after_requests ops
  exact ⟨other, (calculus rfl).2 "f(x)" "x" other, binds _ "f(z)" (List.cons_ne_nil _ _)⟩

/-- To integrate a definition is to define the function. -/
theorem integrate_defines :
    (integrate "f(x)=x" "x" Context.initial).1.isOk = true ∧
    (Context.initial.lookupFunction "f").isSome = false ∧
    ((integrate "f(x)=x" "x" Context.initial).2.lookupFunction "f").isSome = true := by
  decide +kernel

end Reckon
