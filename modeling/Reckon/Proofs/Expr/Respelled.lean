import Reckon.Proofs.Calculus.Inline
import Reckon.Proofs.Expr.Meaning
import Reckon.Proofs.Expr.Nesting

/-!
# Trees that differ in the names of variables

`Expr.Respelled swap e e'` says that `e'` is `e` with other variables in place of some of its own,
each exchanged as `swap` allows. Definitions are the same in both. Where the variables that are
exchanged are alike in a context, the context finds the same free names in both trees
(`Context.freeNames_respelled`), and putting trees in place of variables respells the result
(`Respelled.substitute`).
-/

namespace Reckon

namespace Expr

mutual

/-- The second tree is the first one with some variables exchanged. -/
def Respelled (swap : String → String → Prop) : Expr → Expr → Prop
  | .var name, e' => e' = .var name ∨ ∃ name', swap name name' ∧ e' = .var name'
  | .unary sign e, e' => ∃ f, e' = .unary sign f ∧ e.Respelled swap f
  | .binary op attached l r, e' =>
    ∃ l' r', e' = .binary op attached l' r' ∧ l.Respelled swap l' ∧ r.Respelled swap r'
  | .call name args, e' => ∃ args', e' = .call name args' ∧ AllRespelled swap args args'
  | .vector es, e' => ∃ es', e' = .vector es' ∧ AllRespelled swap es es'
  | .matrix rows, e' => ∃ rows', e' = .matrix rows' ∧ AllRespelled swap rows rows'
  | .literal n written, e' => e' = .literal n written
  | .definition name params body source, e' => e' = .definition name params body source
  | .empty, e' => e' = .empty

/-- `Respelled` for one tree after the other. -/
def AllRespelled (swap : String → String → Prop) : List Expr → List Expr → Prop
  | [], es' => es' = []
  | e :: es, es' => ∃ f fs, es' = f :: fs ∧ e.Respelled swap f ∧ AllRespelled swap es fs

end

variable {swap : String → String → Prop}

mutual

theorem Respelled.refl : ∀ e : Expr, e.Respelled swap e
  | .var _ => .inl rfl
  | .unary _ e => ⟨e, rfl, Respelled.refl e⟩
  | .binary _ _ l r => ⟨l, r, rfl, Respelled.refl l, Respelled.refl r⟩
  | .call _ args => ⟨args, rfl, AllRespelled.refl args⟩
  | .vector es => ⟨es, rfl, AllRespelled.refl es⟩
  | .matrix rows => ⟨rows, rfl, AllRespelled.refl rows⟩
  | .literal .. | .definition .. | .empty => rfl

theorem AllRespelled.refl : ∀ es : List Expr, AllRespelled swap es es
  | [] => rfl
  | e :: es => ⟨e, es, rfl, Respelled.refl e, AllRespelled.refl es⟩

end

theorem AllRespelled.length_eq {es es' : List Expr} (alike : AllRespelled swap es es') :
    es.length = es'.length := by
  induction es generalizing es' with
  | nil => exact congrArg List.length alike.symm
  | cons e es ih =>
    obtain ⟨f, fs, rfl, -, others⟩ := alike
    exact congrArg Nat.succ (ih others)

mutual

/-- Nothing is exchanged in a tree without the variables that could be. -/
theorem Respelled.eq : ∀ {e e' : Expr}, e.Respelled swap e' →
    (∀ name name', swap name name' → ¬ e.Occurs name) → e' = e
  | .var name, _, alike, absent =>
    alike.elim id fun ⟨name', exchanged, _⟩ => absurd rfl (absent name name' exchanged)
  | .unary _ _, _, ⟨_, shape, alike⟩, absent => by rw [shape, alike.eq absent]
  | .binary _ _ _ _, _, ⟨_, _, shape, left, right⟩, absent => by
    rw [shape, left.eq fun n n' exchanged inside => absent n n' exchanged (.inl inside),
      right.eq fun n n' exchanged inside => absent n n' exchanged (.inr inside)]
  | .call _ _, _, ⟨_, shape, alike⟩, absent => by rw [shape, alike.eq absent]
  | .vector _, _, ⟨_, shape, alike⟩, absent => by rw [shape, alike.eq absent]
  | .matrix _, _, ⟨_, shape, alike⟩, absent => by rw [shape, alike.eq absent]
  | .literal .., _, alike, _ | .definition .., _, alike, _ | .empty, _, alike, _ => alike

theorem AllRespelled.eq : ∀ {es es' : List Expr}, AllRespelled swap es es' →
    (∀ name name', swap name name' → ¬ OccursIn name es) → es' = es
  | [], _, alike, _ => alike
  | _ :: _, _, ⟨_, _, shape, first, others⟩, absent => by
    rw [shape, first.eq fun n n' exchanged inside => absent n n' exchanged (.inl inside),
      others.eq fun n n' exchanged inside => absent n n' exchanged (.inr inside)]

end

/-! ## Names -/

mutual

/-- What is collected is the same if none of the variables that are exchanged is kept. -/
theorem Respelled.collectNames {keep : String → Bool}
    (dropped : ∀ name name', swap name name' → keep name = false ∧ keep name' = false) :
    ∀ {e e' : Expr} (seen : List String), e.Respelled swap e' →
      e.collectNames keep seen = e'.collectNames keep seen
  | .var name, _, seen, alike => by
    rcases alike with rfl | ⟨name', exchanged, rfl⟩
    · rfl
    · obtain ⟨here, there⟩ := dropped name name' exchanged
      simp [Expr.collectNames, here, there]
  | .unary _ _, _, seen, ⟨_, shape, alike⟩ => by
    rw [shape, Expr.collectNames, Expr.collectNames, alike.collectNames dropped]
  | .binary _ _ _ _, _, seen, ⟨_, _, shape, left, right⟩ => by
    rw [shape, Expr.collectNames, Expr.collectNames, left.collectNames dropped,
      right.collectNames dropped]
  | .call _ _, _, seen, ⟨_, shape, alike⟩ => by
    rw [shape, Expr.collectNames, Expr.collectNames, alike.collectNames dropped]
  | .vector _, _, seen, ⟨_, shape, alike⟩ => by
    rw [shape, Expr.collectNames, Expr.collectNames, alike.collectNames dropped]
  | .matrix _, _, seen, ⟨_, shape, alike⟩ => by
    rw [shape, Expr.collectNames, Expr.collectNames, alike.collectNames dropped]
  | .literal .., _, _, alike | .definition .., _, _, alike | .empty, _, _, alike =>
    congrArg (fun e : Expr => e.collectNames _ _) (Eq.symm alike)

theorem AllRespelled.collectNames {keep : String → Bool}
    (dropped : ∀ name name', swap name name' → keep name = false ∧ keep name' = false) :
    ∀ {es es' : List Expr} (seen : List String), AllRespelled swap es es' →
      collectAllNames keep seen es = collectAllNames keep seen es'
  | [], _, _, alike => congrArg (collectAllNames _ _) (Eq.symm alike)
  | _ :: _, _, _, ⟨_, _, shape, first, others⟩ => by
    rw [shape, collectAllNames, collectAllNames, first.collectNames dropped,
      others.collectNames dropped]

end

/-- A variable that is not exchanged occurs on both sides or on neither. -/
theorem Respelled.occurs_iff {name : String}
    (other : ∀ n n', swap n n' → n ≠ name ∧ n' ≠ name) {e e' : Expr}
    (alike : e.Respelled swap e') : e.Occurs name ↔ e'.Occurs name := by
  have same : e.collectNames (· == name) [] = e'.collectNames (· == name) [] :=
    alike.collectNames (fun n n' exchanged =>
      ⟨beq_false_of_ne (other n n' exchanged).1, beq_false_of_ne (other n n' exchanged).2⟩) []
  have found : ∀ f : Expr, name ∈ f.collectNames (· == name) [] ↔ f.Occurs name := fun f => by
    rw [mem_collectNames]
    simp
  rw [← found e, ← found e', same]

theorem Respelled.mentions_eq {name : String}
    (other : ∀ n n', swap n n' → n ≠ name ∧ n' ≠ name) {e e' : Expr}
    (alike : e.Respelled swap e') : e.mentions name = e'.mentions name := by
  rw [Bool.eq_iff_iff, mentions_iff, mentions_iff, alike.occurs_iff other]

/-- Whether all variables pass a test, if those that are exchanged do. -/
theorem Respelled.all_names {test : String → Bool}
    (passed : ∀ n n', swap n n' → test n = true ∧ test n' = true) {e e' : Expr}
    (alike : e.Respelled swap e') : e.names.all test = e'.names.all test := by
  have same : e.collectNames (fun n => !test n) [] = e'.collectNames (fun n => !test n) [] :=
    alike.collectNames (fun n n' exchanged =>
      ⟨by rw [(passed n n' exchanged).1]; rfl, by rw [(passed n n' exchanged).2]; rfl⟩) []
  have empty : ∀ f : Expr,
      f.names.all test = true ↔ f.collectNames (fun n => !test n) [] = [] := fun f => by
    rw [List.all_eq_true, List.eq_nil_iff_forall_not_mem]
    simp only [mem_names, mem_collectNames, List.not_mem_nil, false_or, Bool.not_eq_true']
    exact forall_congr' fun name =>
      ⟨fun passes ⟨failed, occurs⟩ => by simp [passes occurs] at failed,
        fun passes occurs => by
          cases tested : test name with
          | true => rfl
          | false => exact absurd ⟨tested, occurs⟩ passes⟩
  rw [Bool.eq_iff_iff, empty, empty, same]

/-! ## What a tree is at its root -/

theorem Respelled.var_right {e : Expr} {name' : String} (alike : e.Respelled swap (.var name')) :
    e = .var name' ∨ ∃ name, swap name name' ∧ e = .var name := by
  cases e with
  | var name =>
    rcases alike with same | ⟨other, exchanged, same⟩
    · exact .inl same.symm
    · cases same
      exact .inr ⟨name, exchanged, rfl⟩
  | unary | call | vector | matrix =>
    obtain ⟨_, shape, -⟩ := alike
    cases shape
  | binary =>
    obtain ⟨_, _, shape, -⟩ := alike
    cases shape
  | literal | definition | empty => cases alike

theorem Respelled.isLiteral_eq {e e' : Expr} (alike : e.Respelled swap e') (n : Decimal) :
    e.isLiteral n = e'.isLiteral n := by
  cases e with
  | var name => rcases alike with rfl | ⟨_, -, rfl⟩ <;> rfl
  | unary | call | vector | matrix =>
    obtain ⟨_, rfl, -⟩ := alike
    rfl
  | binary =>
    obtain ⟨_, _, rfl, -⟩ := alike
    rfl
  | literal | definition | empty =>
    cases alike
    rfl

theorem Respelled.isAnyVar_eq {e e' : Expr} (alike : e.Respelled swap e') :
    e.isAnyVar = e'.isAnyVar := by
  cases e with
  | var name => rcases alike with rfl | ⟨_, -, rfl⟩ <;> rfl
  | unary | call | vector | matrix =>
    obtain ⟨_, rfl, -⟩ := alike
    rfl
  | binary =>
    obtain ⟨_, _, rfl, -⟩ := alike
    rfl
  | literal | definition | empty =>
    cases alike
    rfl

theorem Respelled.isVar_eq {name : String} (other : ∀ n n', swap n n' → n ≠ name ∧ n' ≠ name)
    {e e' : Expr} (alike : e.Respelled swap e') : e.isVar name = e'.isVar name := by
  cases e with
  | var n =>
    rcases alike with rfl | ⟨n', exchanged, rfl⟩
    · rfl
    · rw [isVar, isVar, beq_false_of_ne (other n n' exchanged).1,
        beq_false_of_ne (other n n' exchanged).2]
  | unary | call | vector | matrix =>
    obtain ⟨_, rfl, -⟩ := alike
    rfl
  | binary =>
    obtain ⟨_, _, rfl, -⟩ := alike
    rfl
  | literal | definition | empty =>
    cases alike
    rfl

theorem Respelled.isArithmetic_eq : ∀ {e e' : Expr}, e.Respelled swap e' →
    e.isArithmetic = e'.isArithmetic
  | .var _, _, alike => by rcases alike with rfl | ⟨_, -, rfl⟩ <;> rfl
  | .unary _ _, _, ⟨_, shape, alike⟩ => by
    rw [shape, isArithmetic, isArithmetic, alike.isArithmetic_eq]
  | .binary _ _ _ _, _, ⟨_, _, shape, left, right⟩ => by
    rw [shape, isArithmetic, isArithmetic, left.isArithmetic_eq, right.isArithmetic_eq]
  | .call _ _, _, ⟨_, shape, _⟩ | .vector _, _, ⟨_, shape, _⟩ | .matrix _, _, ⟨_, shape, _⟩ => by
    rw [shape, isArithmetic, isArithmetic]
  | .literal .., _, alike | .definition .., _, alike | .empty, _, alike =>
    congrArg isArithmetic (Eq.symm alike)

/-! ## Trees in place of variables -/

section Substitute

variable {bindings bindings' : Bindings} {old : String → String → Prop}

mutual

/-- Respelled trees in place of the variables; what is put into definitions is the same. -/
theorem Respelled.substitute (leaf : ∀ n n', n = n' ∨ old n n' →
      ((bindings.lookup n).getD (.var n)).Respelled swap ((bindings'.lookup n').getD (.var n'))) :
    ∀ {e e' : Expr}, bindings = bindings' ∨ e.nesting = 0 → e.Respelled old e' →
      (e.substitute bindings).Respelled swap (e'.substitute bindings')
  | .var name, _, _, alike => by
    rcases alike with rfl | ⟨name', exchanged, rfl⟩
    · exact leaf name name (.inl rfl)
    · exact leaf name name' (.inr exchanged)
  | .unary _ e, _, plain, ⟨f, rfl, alike⟩ =>
    ⟨f.substitute bindings', rfl, Respelled.substitute leaf (e := e) plain alike⟩
  | .binary _ _ l r, _, plain, ⟨l', r', rfl, left, right⟩ =>
    ⟨l'.substitute bindings', r'.substitute bindings', rfl,
      Respelled.substitute leaf (plain.imp_right fun none => (Nat.max_eq_zero_iff.1 none).1) left,
      Respelled.substitute leaf (plain.imp_right fun none => (Nat.max_eq_zero_iff.1 none).2) right⟩
  | .call _ es, _, plain, ⟨es', rfl, alike⟩ =>
    ⟨substituteAll bindings' es', rfl,
      AllRespelled.substitute leaf (show _ ∨ nestingAll es = 0 from plain) alike⟩
  | .vector es, _, plain, ⟨es', rfl, alike⟩ =>
    ⟨substituteAll bindings' es', rfl,
      AllRespelled.substitute leaf (show _ ∨ nestingAll es = 0 from plain) alike⟩
  | .matrix es, _, plain, ⟨es', rfl, alike⟩ =>
    ⟨substituteAll bindings' es', rfl,
      AllRespelled.substitute leaf (show _ ∨ nestingAll es = 0 from plain) alike⟩
  | .definition name params body source, _, plain, alike => by
    obtain rfl := plain.resolve_right (Nat.succ_ne_zero body.nesting)
    cases alike
    exact Respelled.refl _
  | .literal .., _, _, alike | .empty, _, _, alike => by
    cases alike
    exact Respelled.refl _

theorem AllRespelled.substitute (leaf : ∀ n n', n = n' ∨ old n n' →
      ((bindings.lookup n).getD (.var n)).Respelled swap ((bindings'.lookup n').getD (.var n'))) :
    ∀ {es es' : List Expr}, bindings = bindings' ∨ nestingAll es = 0 → AllRespelled old es es' →
      AllRespelled swap (substituteAll bindings es) (substituteAll bindings' es')
  | [], _, _, alike => by
    cases alike
    rfl
  | e :: es, _, plain, ⟨f, fs, rfl, first, others⟩ =>
    ⟨f.substitute bindings', substituteAll bindings' fs, rfl,
      Respelled.substitute leaf (plain.imp_right fun none => (Nat.max_eq_zero_iff.1 none).1) first,
      AllRespelled.substitute leaf
        (plain.imp_right fun none => (Nat.max_eq_zero_iff.1 none).2) others⟩

end

end Substitute

/-- One variable in place of another. -/
theorem respelled_rename {name name' : String} (exchanged : swap name name') {e : Expr}
    (plain : e.nesting = 0) : e.Respelled swap (e.substitute [(name, .var name')]) := by
  have alike : (e.substitute []).Respelled swap (e.substitute [(name, .var name')]) := by
    refine Respelled.substitute (fun n _ same => ?_) (.inr plain)
      (show e.Respelled (fun _ _ => False) e from .refl e)
    obtain rfl := same.resolve_right id
    rw [List.lookup_cons]
    cases here : n == name with
    | true => exact .inr ⟨name', eq_of_beq here ▸ exchanged, rfl⟩
    | false => exact .inl rfl
  rwa [substitute_nil] at alike

/-- The arguments of a call in place of the parameters of a body. -/
theorem respelled_body (params : List String) {args args' : List Expr}
    (alike : AllRespelled swap args args') {body : Expr} (plain : body.nesting = 0) :
    (body.substitute (params.zip args)).Respelled swap (body.substitute (params.zip args')) := by
  refine Respelled.substitute (fun n _ same => ?_) (.inr plain)
    (show body.Respelled (fun _ _ => False) body from .refl body)
  obtain rfl := same.resolve_right id
  induction params generalizing args args' with
  | nil => exact Respelled.refl _
  | cons param params ih =>
    cases args with
    | nil =>
      cases alike
      exact Respelled.refl _
    | cons e es =>
      obtain ⟨f, fs, rfl, first, others⟩ := alike
      rw [List.zip_cons_cons, List.zip_cons_cons, List.lookup_cons, List.lookup_cons]
      cases n == param with
      | true => exact first
      | false => exact ih others

end Expr

end Reckon
