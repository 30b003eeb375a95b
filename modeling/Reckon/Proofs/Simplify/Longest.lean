import Reckon.Proofs.Frame.Request

/-!
# The longest literal

A written literal with more digits than the precision raises it when it is evaluated. A tree that is
simplified first is evaluated piece by piece, and what is left of it at the end. `Calc.Raises` keeps
account of both: what the precision has been raised to, and what the literals of the result are
still going to raise it to. In the end it is the longest literal of the tree, whether the tree was
simplified or not.

Results: `spends_eval`, `raises_simplify`, `spends_prepare_eval`.
-/

namespace Reckon

open Calc Context

namespace Calc

variable {α β : Type} {P : α → Prop} {Q : β → Prop} {rest : α → Nat} {rest' : β → Nat} {m n : Nat}

/-- Where the computation succeeds, it has raised the precision to so many digits, except for the
digits that come with the result. -/
def Raises (digits : Nat) (act : Calc α) (P : α → Prop) (rest : α → Nat) : Prop :=
  ∀ ⦃ctx a ctx'⦄, act ctx = (.ok a, ctx') →
    P a ∧ max ctx'.params.precision (rest a) = max ctx.params.precision digits

/-- The computation has raised the precision to so many digits. -/
abbrev Spends (digits : Nat) (act : Calc α) : Prop :=
  Raises digits act (fun _ => True) fun _ => 0

theorem Spends.eq {act : Calc α} (spends : Spends n act) {ctx ctx' : Context} {a : α}
    (done : act ctx = (.ok a, ctx')) : ctx'.params.precision = max ctx.params.precision n :=
  (Nat.max_zero _).symm.trans (spends done).2

theorem raises_pure {a : α} (holds : P a) : Raises (rest a) (pure a) P rest := by
  intro ctx b ctx' done
  cases done
  exact ⟨holds, rfl⟩

theorem spends_pure (a : α) : Spends 0 (pure a) :=
  raises_pure trivial

theorem raises_look {f : Context → α} (holds : ∀ ctx, P (f ctx)) :
    Raises 0 (look f) P fun _ => 0 := by
  intro ctx a ctx' done
  cases done
  exact ⟨holds ctx, rfl⟩

theorem spends_look (f : Context → α) : Spends 0 (look f) :=
  raises_look fun _ => trivial

theorem spends_lift (result : Except Fault α) : Spends 0 (lift result) := by
  intro ctx a ctx' done
  cases (Prod.mk.inj done).2
  exact ⟨trivial, rfl⟩

theorem spends_decimal (result : Except Signal α) : Spends 0 (decimal result) :=
  spends_lift _

/-- What comes with the first result is spent by what follows. -/
theorem Raises.bind {act : Calc α} {next : α → Calc β} (first : Raises m act P rest)
    (second : ∀ a, P a → Raises (max (rest a) n) (next a) Q rest') :
    Raises (max m n) (act >>= next) Q rest' := by
  intro ctx b ctx'' done
  obtain ⟨a, ctx', done, done'⟩ := exists_of_bind done
  obtain ⟨holds, digits⟩ := first done
  obtain ⟨holds', digits'⟩ := second a holds done'
  exact ⟨holds', by omega⟩

/-- What follows spends only what comes with the first result. -/
theorem Raises.finish {act : Calc α} {next : α → Calc β} (first : Raises m act P rest)
    (second : ∀ a, P a → Raises (rest a) (next a) Q rest') :
    Raises m (act >>= next) Q rest' := by
  have both : Raises (max m 0) (act >>= next) Q rest' := first.bind fun a holds => by
    rw [Nat.max_zero]
    exact second a holds
  rwa [Nat.max_zero] at both

theorem Raises.mono {P' : α → Prop} {act : Calc α} (raises : Raises n act P rest)
    (weaker : ∀ a, P a → P' a) : Raises n act P' rest :=
  fun _ a _ done => ⟨weaker a (raises done).1, (raises done).2⟩

/-- What follows raises the precision no further. -/
theorem Raises.bind_within {act : Calc α} {next : α → Calc β} (first : Raises m act P rest)
    (second : ∀ a, P a → ∃ k, k ≤ m ∧ Raises (max (rest a) k) (next a) Q rest') :
    Raises m (act >>= next) Q rest' := by
  intro ctx b ctx'' done
  obtain ⟨a, ctx', done, done'⟩ := exists_of_bind done
  obtain ⟨holds, digits⟩ := first done
  obtain ⟨k, less, next⟩ := second a holds
  obtain ⟨holds', digits'⟩ := next done'
  exact ⟨holds', by omega⟩

theorem Spends.bind {act : Calc α} {next : α → Calc β} (first : Spends m act)
    (second : ∀ a, Raises n (next a) Q rest') : Raises (max m n) (act >>= next) Q rest' :=
  Raises.bind first fun a _ => by
    rw [Nat.zero_max]
    exact second a

/-- A step that does not raise the precision. -/
theorem Spends.then {act : Calc α} {next : α → Calc β} (first : Spends 0 act)
    (second : ∀ a, Raises n (next a) Q rest') : Raises n (act >>= next) Q rest' := by
  have both := first.bind second
  rwa [Nat.zero_max] at both

theorem Spends.finish {act : Calc α} {next : α → Calc β} (first : Spends m act)
    (second : ∀ a, Spends 0 (next a)) : Spends m (act >>= next) :=
  Raises.finish first fun a _ => second a

end Calc

namespace Expr

/-- The tree is made of literals, signs and operators. -/
def IsNumerical : Expr → Prop
  | .literal .. => True
  | .unary _ e => e.IsNumerical
  | .binary _ _ l r => l.IsNumerical ∧ r.IsNumerical
  | _ => False

/-- The digits of the longest literal that a text has written. -/
def longest : Expr → Nat
  | .literal n written => if written then n.significantDigits else 0
  | .unary _ e => e.longest
  | .binary _ _ l r => max l.longest r.longest
  | _ => 0

/-- The tree is made of literals, signs and operators, and no literal is longer than this. -/
def Within (digits : Nat) (e : Expr) : Prop :=
  e.IsNumerical ∧ e.longest ≤ digits

theorem compositional_within : Compositional Within where
  number digits _ := ⟨trivial, Nat.zero_le digits⟩
  unary := Iff.rfl
  binary {digits op attached l r} := by
    constructor
    · rintro ⟨⟨left, right⟩, short⟩
      exact ⟨⟨left, (Nat.max_le.1 short).1⟩, right, (Nat.max_le.1 short).2⟩
    · rintro ⟨⟨left, short⟩, right, short'⟩
      exact ⟨⟨left, right⟩, Nat.max_le.2 ⟨short, short'⟩⟩
  call holds := holds.1.elim
  definition holds := holds.1.elim

theorem IsNumerical.isArithmetic : ∀ {e : Expr}, e.IsNumerical → e.isArithmetic = true
  | .literal .., _ => rfl
  | .unary _ e, numerical => IsNumerical.isArithmetic (e := e) numerical
  | .binary .., ⟨left, right⟩ => Bool.and_eq_true_iff.2 ⟨left.isArithmetic, right.isArithmetic⟩

theorem IsNumerical.collectNames {keep : String → Bool} : ∀ {e : Expr} {seen : List String},
    e.IsNumerical → e.collectNames keep seen = seen
  | .literal .., _, _ => by rw [Expr.collectNames]
  | .unary _ e, _, numerical => by
    rw [Expr.collectNames]
    exact IsNumerical.collectNames (e := e) numerical
  | .binary .., _, ⟨left, right⟩ => by
    rw [Expr.collectNames, left.collectNames, right.collectNames]

theorem IsNumerical.substitute {bindings : Bindings} : ∀ {e : Expr}, e.IsNumerical →
    e.substitute bindings = e
  | .literal .., _ => by rw [Expr.substitute]
  | .unary _ e, numerical => by
    rw [Expr.substitute, IsNumerical.substitute (e := e) numerical]
  | .binary .., ⟨left, right⟩ => by
    rw [Expr.substitute, left.substitute, right.substitute]

/-! ## Evaluating -/

theorem spends_raisePrecision (n : Decimal) : Spends n.significantDigits (raisePrecision n) := by
  intro ctx a ctx' done
  cases done
  refine ⟨trivial, ?_⟩
  dsimp only
  split
  next less =>
    dsimp only
    omega
  next => omega

theorem spends_eval : ∀ {e : Expr}, e.IsNumerical → Spends e.longest e.eval
  | .literal n written, _ => by
    rw [eval, evalWith, longest]
    cases written with
    | true => exact (spends_raisePrecision n).finish fun _ => spends_pure _
    | false => exact spends_pure _
  | .unary sign e, numerical => by
    rw [eval, evalWith]
    refine (spends_eval (e := e) numerical).finish fun t => ?_
    cases sign with
    | positive => exact spends_pure t
    | negative => exact spends_lift _
  | .binary op attached l r, ⟨left, right⟩ => by
    rw [eval, evalWith]
    exact (spends_eval left).bind fun a => (spends_eval right).finish fun b =>
      (spends_look _).then fun precision => spends_lift _

theorem spends_value? {e : Expr} (numerical : e.IsNumerical) : Spends e.longest e.value? := by
  have closed : Raises 0 (look fun ctx => e.names.all ctx.isBound) (· = true) fun _ => 0 :=
    raises_look fun ctx => by rw [names, numerical.collectNames, List.all_nil]
  rw [value?, numerical.isArithmetic, ← Nat.zero_max e.longest]
  refine closed.bind fun bound isBound => ?_
  rw [isBound, Nat.zero_max]
  exact (spends_eval numerical).finish fun t => spends_pure _

/-! ## Simplifying -/

/-- The digits of the longest literal in several terms. -/
def longestOf (terms : List (Sign × Expr)) : Nat :=
  (terms.map fun term => term.2.longest).foldr max 0

theorem longestOf_cons (term : Sign × Expr) (terms : List (Sign × Expr)) :
    longestOf (term :: terms) = max term.2.longest (longestOf terms) :=
  rfl

theorem longestOf_append (terms terms' : List (Sign × Expr)) :
    longestOf (terms ++ terms') = max (longestOf terms) (longestOf terms') := by
  induction terms with
  | nil => exact (Nat.zero_max _).symm
  | cons term terms ih =>
    rw [List.cons_append, longestOf_cons, ih, longestOf_cons, Nat.max_assoc]

theorem longestOf_terms (sign : Sign) (e : Expr) : longestOf (e.terms sign) = e.longest := by
  fun_induction terms sign e with
  | case1 sign attached l r left right => rw [longestOf_append, left, right, longest]
  | case2 sign attached l r left right => rw [longestOf_append, left, right, longest]
  | case3 sign s e ih => rw [ih, longest]
  | case4 sign e => exact Nat.max_zero _

theorem terms_ne_nil (sign : Sign) (e : Expr) : e.terms sign ≠ [] := by
  fun_induction terms sign e with
  | case1 sign attached l r left right => exact List.append_ne_nil_of_left_ne_nil left _
  | case2 sign attached l r left right => exact List.append_ne_nil_of_left_ne_nil left _
  | case3 sign s e ih => exact ih
  | case4 sign e => exact List.cons_ne_nil _ _

/-- The whole tree is evaluated first, so that nothing is left for its parts to raise. -/
theorem spends_monomial : ∀ {e : Expr}, e.IsNumerical → Spends e.longest e.monomial
  | .literal n written, numerical => by
    rw [monomial.eq_def]
    refine (spends_value? numerical).finish fun value => ?_
    cases value with
    | some n => exact spends_pure _
    | none => exact spends_pure _
  | .unary sign e, numerical => by
    rw [monomial]
    refine (spends_value? numerical).bind_within fun value _ => ?_
    cases value with
    | some n => exact ⟨0, Nat.zero_le _, spends_pure _⟩
    | none =>
      exact ⟨e.longest, Nat.le_refl _, by
        rw [Nat.zero_max]
        exact (spends_monomial (e := e) numerical).finish fun m => spends_decimal _⟩
  | .binary op attached l r, numerical => by
    have value := spends_value? numerical
    obtain ⟨left, right⟩ := numerical
    rw [monomial.eq_def]
    refine value.bind_within fun value _ => ?_
    cases value with
    | some n => exact ⟨0, Nat.zero_le _, spends_pure _⟩
    | none =>
      dsimp only
      split
      · refine ⟨max l.longest r.longest, Nat.le_refl _, ?_⟩
        rw [Nat.zero_max]
        exact (spends_monomial left).bind fun a => (spends_monomial right).finish fun b =>
          spends_decimal _
      · exact left.elim
      · exact ⟨0, Nat.zero_le _, spends_pure _⟩

theorem spends_productsWith (sign : Sign) (m : Monomial) {right : List (Sign × Expr)}
    (numerical : ∀ term ∈ right, term.2.IsNumerical) :
    Spends (longestOf right) (productsWith sign m right) := by
  induction right with
  | nil => exact spends_pure _
  | cons term right ih =>
    obtain ⟨here, others⟩ := List.forall_mem_cons.1 numerical
    rw [productsWith]
    exact (spends_monomial here).bind fun b => (spends_decimal _).then fun product =>
      (spends_decimal _).then fun signed => (ih others).finish fun ms => spends_pure _

/-- Every term on the right is evaluated as often as there are terms on the left. -/
theorem spends_products {left right : List (Sign × Expr)} (nonempty : left ≠ [])
    (numerical : ∀ term ∈ left, term.2.IsNumerical)
    (numerical' : ∀ term ∈ right, term.2.IsNumerical) :
    Spends (max (longestOf left) (longestOf right)) (products right left) := by
  induction left with
  | nil => exact absurd rfl nonempty
  | cons term left ih =>
    obtain ⟨here, others⟩ := List.forall_mem_cons.1 numerical
    rw [products]
    cases left with
    | nil =>
      have first : Spends (max term.2.longest (longestOf right)) (do
          let first ← productsWith term.1 (← term.2.monomial) right
          return first ++ (← products right [])) :=
        (spends_monomial here).bind fun m => (spends_productsWith _ m numerical').finish fun ms =>
          (spends_pure []).then fun ms' => spends_pure _
      rwa [show longestOf [term] = term.2.longest from Nat.max_zero _]
    | cons term' left =>
      have both := (spends_monomial here).bind fun m =>
        (spends_productsWith term.1 m numerical').bind fun ms =>
        (ih (List.cons_ne_nil _ _) others).finish fun ms' => spends_pure (ms ++ ms')
      have total : max (longestOf (term :: term' :: left)) (longestOf right) =
          max term.2.longest (max (longestOf right)
            (max (longestOf (term' :: left)) (longestOf right))) := by
        rw [longestOf_cons]
        omega
      rwa [total]

theorem spends_ofMonomials (ms : List Monomial) : Spends 0 (ofMonomials ms) :=
  spends_decimal _

theorem spends_signedTerm (sign : Sign) {e : Expr} (numerical : e.IsNumerical) :
    Spends e.longest (signedTerm sign e) := by
  unfold signedTerm
  exact (spends_monomial numerical).finish fun m => (spends_decimal _).then fun m' => spends_pure _

/-- What has been spent on a tree is enough for the literals of what it was turned into. -/
theorem raises_of_spends {act : Calc Expr} {n : Nat} (spends : Spends n act)
    (ensures : Ensures (fun _ => True) Advances act (Within n)) :
    Raises n act (Within n) longest := by
  intro ctx e' ctx' done
  have within : e'.Within n := (ensures ctx trivial).2 e' (by rw [done])
  have digits := spends.eq done
  have short := within.2
  exact ⟨within, by omega⟩

/-- A tree that is there has nothing spent on it. -/
theorem raises_tree {e : Expr} {n : Nat} (within : e.Within n) :
    Raises e.longest (pure e) (Within n) longest :=
  raises_pure (a := e) within

theorem raises_expandProduct (attached : Bool) {l r : Expr} (left : l.IsNumerical)
    (right : r.IsNumerical) :
    Raises (max l.longest r.longest) (expandProduct attached l r)
      (Within (max l.longest r.longest)) longest := by
  have within : (Expr.binary .times attached l r).Within (max l.longest r.longest) :=
    ⟨⟨left, right⟩, Nat.le_refl _⟩
  obtain ⟨first, second⟩ := compositional_within.binary.1 within
  have handsDown := compositional_within.handsDown (max l.longest r.longest)
  have ensures := ensures_expandProduct (I := fun _ => True) (R := Context.Advances)
    compositional_within attached first second
  unfold expandProduct at ensures ⊢
  dsimp only at ensures ⊢
  split
  next => exact raises_tree within
  next many =>
    rw [if_neg many] at ensures
    refine raises_of_spends ?_ ensures
    rw [← longestOf_terms .positive l, ← longestOf_terms .positive r]
    exact (spends_products (terms_ne_nil _ _)
      (fun term member => (forall_terms handsDown first term member).1)
      (fun term member => (forall_terms handsDown second term member).1)).finish spends_ofMonomials

theorem within_longest {e : Expr} (numerical : e.IsNumerical) : e.Within e.longest :=
  ⟨numerical, Nat.le_refl _⟩

theorem Within.mono {e : Expr} {m n : Nat} (within : e.Within m) (less : m ≤ n) : e.Within n :=
  ⟨within.1, Nat.le_trans within.2 less⟩

/-- Two parts of a tree that are expanded or folded one after the other. -/
theorem raises_parts {α : Type} {P : α → Prop} {rest : α → Nat} {m n : Nat} {left right : Calc Expr}
    {next : Expr → Expr → Calc α} (first : Raises m left (Within m) longest)
    (second : Raises n right (Within n) longest)
    (both : ∀ l r, l.Within m → r.Within n → Raises (max l.longest r.longest) (next l r) P rest) :
    Raises (max m n) (do next (← left) (← right)) P rest := by
  refine first.bind fun l here => ?_
  rw [Nat.max_comm]
  refine second.bind fun r here' => ?_
  rw [Nat.max_comm]
  exact both l r here here'

theorem within_binary {op : Operator} {attached : Bool} {l r : Expr} {m n : Nat}
    (left : l.Within m) (right : r.Within n) : (Expr.binary op attached l r).Within (max m n) :=
  compositional_within.binary.2
    ⟨left.mono (Nat.le_max_left m n), right.mono (Nat.le_max_right m n)⟩

theorem raises_binary {op : Operator} {attached : Bool} {m n : Nat} {left right : Calc Expr}
    (first : Raises m left (Within m) longest) (second : Raises n right (Within n) longest) :
    Raises (max m n) (do return .binary op attached (← left) (← right)) (Within (max m n))
      longest :=
  raises_parts first second fun _ _ here here' => raises_tree (within_binary here here')

theorem raises_expand : ∀ {e : Expr}, e.IsNumerical →
    Raises e.longest e.expand (Within e.longest) longest
  | .literal n written, numerical => by
    exact raises_tree (within_longest numerical)
  | .unary sign e, numerical => by
    rw [expand]
    exact (raises_expand (e := e) numerical).finish fun e' within =>
      raises_tree (e := .unary sign e') within
  | .binary op attached l r, ⟨left, right⟩ => by
    have first := raises_expand left
    have second := raises_expand right
    cases op
    case times =>
      rw [expand]
      exact raises_parts first second fun l' r' here here' =>
        (raises_expandProduct attached here.1 here'.1).mono fun e' within =>
          within.mono (Nat.max_le.2 ⟨Nat.le_trans here.2 (Nat.le_max_left _ _),
            Nat.le_trans here'.2 (Nat.le_max_right _ _)⟩)
    -- the operands of every other operator are expanded on their own
    all_goals exact raises_binary first second

/-- A tree is folded, or its terms are. -/
structure RaisesFolding (e : Expr) : Prop where
  fold : Raises e.longest e.fold (Within e.longest) longest
  terms : ∀ sign, Spends e.longest (e.foldTerms sign)

theorem raises_fold : ∀ {e : Expr}, e.IsNumerical → e.RaisesFolding
  | .literal n written, numerical => by
    constructor
    · exact raises_tree (within_longest numerical)
    · exact fun sign => spends_signedTerm sign numerical
  | .unary s e, numerical => by
    have inner := raises_fold (e := e) numerical
    have ensures := ensures_fold (I := fun _ => True) (R := Context.Advances)
      compositional_within (.unary s e) (within_longest (e := .unary s e) numerical)
    constructor
    · refine raises_of_spends ?_ ensures
      rw [Expr.fold]
      exact (inner.terms s).finish spends_ofMonomials
    · intro sign
      rw [foldTerms]
      exact inner.terms _
  | .binary op attached l r, ⟨left, right⟩ => by
    have first := raises_fold left
    have second := raises_fold right
    have ensures := ensures_fold (I := fun _ => True) (R := Context.Advances)
      compositional_within (.binary op attached l r) (within_longest ⟨left, right⟩)
    cases op
    case plus | minus =>
      constructor
      · refine raises_of_spends ?_ ensures
        rw [Expr.fold]
        exact (first.terms _).bind fun ms => (second.terms _).finish fun ms' =>
          spends_ofMonomials _
      · intro sign
        rw [foldTerms]
        exact (first.terms _).bind fun ms => (second.terms _).finish fun ms' => spends_pure _
    -- the operands of every other operator are folded on their own
    all_goals
      constructor
      · exact raises_binary first.fold second.fold
      · exact fun sign => raises_parts first.fold second.fold fun l' r' here here' =>
          spends_signedTerm sign ⟨here.1, here'.1⟩

theorem raises_simplify {e : Expr} (numerical : e.IsNumerical) :
    Raises e.longest e.simplify (Within e.longest) longest :=
  (raises_expand numerical).finish fun _ within =>
    (raises_fold within.1).fold.mono fun _ within' => within'.mono within.2

/-! ## Requests -/

/-- There are no constants in the tree to be replaced. -/
theorem IsNumerical.prepare_apply {e : Expr} (numerical : e.IsNumerical) (ctx : Context) :
    e.prepare ctx = (if ctx.params.simplify then e.simplify else pure e) ctx := by
  have same : ctx.replaceConstants e = e := numerical.substitute
  cases e
  case literal | unary | binary =>
    rw [prepare, bind_ok (look_apply _ ctx)]
    split
    · rw [bind_ok (look_apply _ ctx), same]
    · rfl
  all_goals exact numerical.elim

/-- In the end the precision is that of the longest literal, whether the tree was simplified or
not. -/
theorem spends_prepare_eval {e : Expr} (numerical : e.IsNumerical) :
    Spends e.longest (do (← e.prepare).eval) := by
  have prepares : Raises e.longest e.prepare (Within e.longest) longest := by
    intro ctx e' ctx' done
    rw [numerical.prepare_apply] at done
    split at done
    · exact raises_simplify numerical done
    · exact raises_tree (within_longest numerical) done
  exact prepares.finish fun e' within => spends_eval within.1

end Expr

end Reckon
