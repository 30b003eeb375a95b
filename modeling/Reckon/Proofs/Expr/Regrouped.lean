import Reckon.Proofs.Expr.Blanks
import Reckon.Proofs.Expr.Meaning

/-!
# Products grouped to the left

A product of several factors can be grouped in several ways, and a sign in front of it can belong to
the product or to its first factor. `Expr.regrouped` chooses one way: the factors are grouped to the
left and the sign stands at the first of them. Trees with the same form have the same value in every
ring, whatever quotients, powers, comparisons and calls mean (`Regrouped.values_valueParts`), and
what is built from such trees in the same way has the same form again (`isCongruence_regrouped`).
-/

namespace Reckon

namespace Expr

/-! ## The form -/

/-- The product of a tree and the factors of another one, which are grouped to the left. -/
def spread (l : Expr) : Expr → Expr
  | .binary .times _ a b => .binary .times false (spread l a) b
  | r => .binary .times false l r

/-- The tree with a sign in front of its first factor, where the factors are grouped to the left. -/
def signFirst (sign : Sign) : Expr → Expr
  | .binary .times _ a b => .binary .times false (signFirst sign a) b
  | e => .unary sign e

mutual

/-- The tree with the factors of its products grouped to the left and signs at the first factors. -/
def regrouped : Expr → Expr
  | .unary sign e => signFirst sign e.regrouped
  | .binary .times _ l r => spread l.regrouped r.regrouped
  | .binary op attached l r => .binary op attached l.regrouped r.regrouped
  | .call name args => .call name (allRegrouped args)
  | .definition name params body source => .definition name params body.regrouped source
  | .vector es => .vector (allRegrouped es)
  | .matrix rows => .matrix (allRegrouped rows)
  | .literal n written => .literal n written
  | .var name => .var name
  | .empty => .empty

/-- `regrouped` of several trees. -/
def allRegrouped : List Expr → List Expr
  | [] => []
  | e :: es => e.regrouped :: allRegrouped es

end

/-- The trees differ in the grouping of factors only. -/
def Regrouped (e e' : Expr) : Prop :=
  e.regrouped = e'.regrouped

theorem allRegrouped_eq_map (es : List Expr) : allRegrouped es = es.map regrouped := by
  induction es with
  | nil => rfl
  | cons e es ih => rw [allRegrouped, ih, List.map_cons]

theorem regrouped_times (attached : Bool) (l r : Expr) :
    (binary .times attached l r).regrouped = spread l.regrouped r.regrouped := by
  rw [regrouped]

theorem spread_of_plain {r : Expr} (plain : ∀ attached a b, r ≠ .binary .times attached a b)
    (l : Expr) : spread l r = .binary .times false l r := by
  rw [spread]
  exact plain

/-- A product is not a product of other factors than those of its parts. -/
theorem spread_assoc (l a b : Expr) : spread l (spread a b) = spread (spread l a) b := by
  induction b using spread.induct with
  | case1 attached x y ih => rw [spread, spread, ih, spread]
  | case2 b plain => rw [spread_of_plain plain, spread_of_plain plain, spread]

/-- A sign in front of a product is one in front of its first factor. -/
theorem signFirst_spread (sign : Sign) (a b : Expr) :
    signFirst sign (spread a b) = spread (signFirst sign a) b := by
  induction b using spread.induct with
  | case1 attached x y ih => rw [spread, signFirst, ih, spread]
  | case2 b plain => rw [spread_of_plain plain, spread_of_plain plain, signFirst]

theorem Regrouped.unary {e e' : Expr} (alike : e.Regrouped e') (sign : Sign) :
    (unary sign e).Regrouped (unary sign e') := by
  rw [Regrouped, regrouped, regrouped, alike]

theorem Regrouped.binary {l l' r r' : Expr} (left : l.Regrouped l') (right : r.Regrouped r')
    (op : Operator) (attached : Bool) :
    (binary op attached l r).Regrouped (binary op attached l' r') := by
  unfold Regrouped at *
  cases op <;> simp only [regrouped, left, right]

/-! ## Factors read one by one -/

/-- The product of a tree and further factors. -/
def product (e : Expr) (factors : List Expr) : Expr :=
  factors.foldl (binary .times false) e

theorem product_append (e : Expr) (fs gs : List Expr) :
    product e (fs ++ gs) = product (product e fs) gs := by
  rw [product, List.foldl_append]
  rfl

theorem Regrouped.product {e e' : Expr} (alike : e.Regrouped e') (fs : List Expr) :
    (e.product fs).Regrouped (e'.product fs) := by
  induction fs generalizing e e' with
  | nil => exact alike
  | cons f fs ih =>
    exact ih (alike.binary rfl .times false)

/-- It does not matter whether further factors belong to the product or to its last factor. -/
theorem regrouped_times_product (attached : Bool) (l e : Expr) (fs : List Expr) :
    (binary .times attached l (e.product fs)).Regrouped
      ((binary .times attached l e).product fs) := by
  induction fs generalizing e with
  | nil => rfl
  | cons f fs ih =>
    refine (ih _).trans (Regrouped.product ?_ fs)
    simp only [Regrouped, regrouped_times, spread_assoc]

/-- It does not matter whether a sign belongs to a product or to its first factor. -/
theorem regrouped_unary_product (sign : Sign) (e : Expr) (fs : List Expr) :
    (unary sign (e.product fs)).Regrouped ((unary sign e).product fs) := by
  induction fs generalizing e with
  | nil => rfl
  | cons f fs ih =>
    refine (ih _).trans (Regrouped.product ?_ fs)
    simp only [Regrouped, regrouped, signFirst_spread]

theorem regrouped_foldl_juxtaposed (e : Expr) (fs : List Expr) :
    (fs.foldl juxtaposed e).Regrouped (e.product fs) := by
  induction fs generalizing e with
  | nil => rfl
  | cons f fs ih =>
    refine (ih _).trans (Regrouped.product ?_ fs)
    simp only [Regrouped, juxtaposed, regrouped_times]

/-! ## A congruence -/

/-- What a product with signs becomes is no bracket. -/
theorem spread_cases (l r : Expr) : ∃ a b, spread l r = binary .times false a b := by
  unfold spread
  split <;> exact ⟨_, _, rfl⟩

theorem signFirst_cases (sign : Sign) (e : Expr) :
    (∃ a b, signFirst sign e = binary .times false a b) ∨ signFirst sign e = unary sign e := by
  unfold signFirst
  split
  · exact .inl ⟨_, _, rfl⟩
  · exact .inr rfl

/-- Brackets stay brackets, and nothing else becomes one. -/
theorem regrouped_bracket (e : Expr) :
    (∃ es, e = .vector es ∧ e.regrouped = .vector (allRegrouped es)) ∨
    (∃ rows, e = .matrix rows ∧ e.regrouped = .matrix (allRegrouped rows)) ∨
    (∀ es, e ≠ .vector es ∧ e ≠ .matrix es ∧
      e.regrouped ≠ .vector es ∧ e.regrouped ≠ .matrix es) := by
  cases e with
  | vector es => exact .inl ⟨es, rfl, by rw [regrouped]⟩
  | matrix rows => exact .inr (.inl ⟨rows, rfl, by rw [regrouped]⟩)
  | unary sign e =>
    refine .inr (.inr fun es => ?_)
    rw [regrouped]
    rcases signFirst_cases sign e.regrouped with ⟨a, b, shape⟩ | shape <;> simp [shape]
  | binary op attached l r =>
    refine .inr (.inr fun es => ?_)
    cases op with
    | times =>
      obtain ⟨a, b, shape⟩ := spread_cases l.regrouped r.regrouped
      simp [regrouped, shape]
    | _ => simp [regrouped]
  | _ => exact .inr (.inr fun es => by simp [regrouped])

theorem Regrouped.cases {e e' : Expr} (alike : e.Regrouped e') :
    (∃ es es', e = .vector es ∧ e' = .vector es' ∧ es.length = es'.length) ∨
    (∃ rows rows', e = .matrix rows ∧ e' = .matrix rows') ∨
    (∀ es, e ≠ .vector es ∧ e ≠ .matrix es ∧ e' ≠ .vector es ∧ e' ≠ .matrix es) := by
  unfold Regrouped at alike
  rcases regrouped_bracket e with ⟨es, rfl, form⟩ | ⟨rows, rfl, form⟩ | other <;>
    rcases regrouped_bracket e' with ⟨es', rfl, form'⟩ | ⟨rows', rfl, form'⟩ | other'
  · rw [form, form', allRegrouped_eq_map, allRegrouped_eq_map] at alike
    have length := congrArg List.length (Expr.vector.inj alike)
    rw [List.length_map, List.length_map] at length
    exact .inl ⟨es, es', rfl, rfl, length⟩
  · rw [form, form'] at alike
    cases alike
  · exact absurd (alike.symm.trans form) (other' _).2.2.1
  · rw [form, form'] at alike
    cases alike
  · exact .inr (.inl ⟨rows, rows', rfl, rfl⟩)
  · exact absurd (alike.symm.trans form) (other' _).2.2.2
  · exact absurd (alike.trans form') (other _).2.2.1
  · exact absurd (alike.trans form') (other _).2.2.2
  · exact .inr (.inr fun es => ⟨(other es).1, (other es).2.1, (other' es).1, (other' es).2.1⟩)

theorem isVector_eq_false {e : Expr} (other : ∀ es, e ≠ .vector es) :
    e.isVector = false ∧ e.elements = [] := by
  cases e with
  | vector es => exact absurd rfl (other es)
  | _ => exact ⟨rfl, rfl⟩

theorem map_regrouped {es es' : List Expr} (alike : List.Forall₂ Regrouped es es') :
    allRegrouped es = allRegrouped es' := by
  rw [allRegrouped_eq_map, allRegrouped_eq_map, ← List.forall₂_eq_eq_eq, List.forall₂_map_left_iff,
    List.forall₂_map_right_iff]
  exact alike

theorem isCongruence_regrouped : IsCongruence Regrouped where
  refl _ := rfl
  unary alike := alike.unary _
  binary left right := left.binary right _ _
  call alike := by rw [Regrouped, regrouped, regrouped, map_regrouped alike]
  vector alike := by rw [Regrouped, regrouped, regrouped, map_regrouped alike]
  matrix alike := by rw [Regrouped, regrouped, regrouped, map_regrouped alike]
  isVector alike := by
    rcases alike.cases with ⟨es, es', rfl, rfl, -⟩ | ⟨rows, rows', rfl, rfl⟩ | other
    · rfl
    · rfl
    · rw [(isVector_eq_false fun es => (other es).1).1,
        (isVector_eq_false fun es => (other es).2.2.1).1]
  width alike := by
    rcases alike.cases with ⟨es, es', rfl, rfl, length⟩ | ⟨rows, rows', rfl, rfl⟩ | other
    · exact length
    · rfl
    · rw [(isVector_eq_false fun es => (other es).1).2,
        (isVector_eq_false fun es => (other es).2.2.1).2]
  isMatrix alike := by
    rcases alike.cases with ⟨es, es', rfl, rfl, -⟩ | ⟨rows, rows', rfl, rfl⟩ | other
    · constructor <;> rintro ⟨_, shape⟩ <;> cases shape
    · exact ⟨fun _ => ⟨rows', rfl⟩, fun _ => ⟨rows, rfl⟩⟩
    · exact ⟨fun ⟨rows, shape⟩ => absurd shape (other rows).2.1,
        fun ⟨rows, shape⟩ => absurd shape (other rows).2.2.2⟩

theorem unsourced_regrouped (e : Expr) : e.unsourced.regrouped = e.regrouped.unsourced := by
  cases e with
  | definition name params body source => rfl
  | unary sign e =>
    rw [unsourced, regrouped]
    · rcases signFirst_cases sign e.regrouped with ⟨a, b, shape⟩ | shape <;> rw [shape] <;> rfl
    · exact fun _ _ _ _ shape => Expr.noConfusion shape
  | binary op attached l r =>
    cases op with
    | times =>
      obtain ⟨a, b, shape⟩ := spread_cases l.regrouped r.regrouped
      rw [unsourced, regrouped, shape]
      · rfl
      · exact fun _ _ _ _ shape => Expr.noConfusion shape
    | _ => rfl
  | _ => rfl

theorem Regrouped.unsourced {e e' : Expr} (alike : e.Regrouped e') :
    e.unsourced.Regrouped e'.unsourced := by
  rw [Regrouped, unsourced_regrouped, unsourced_regrouped, alike]

/-! ## Values -/

mutual

/-- The parts of a tree that have a value: the entries of brackets and the body of a definition. -/
def valueParts : Expr → List Expr
  | .definition _ _ body _ => body.valueParts
  | .vector es => allValueParts es
  | .matrix rows => allValueParts rows
  | e => [e]

/-- `valueParts` of several trees. -/
def allValueParts : List Expr → List Expr
  | [] => []
  | e :: es => e.valueParts ++ allValueParts es

end

section Values

variable {K : Type} [Ring K] [Algebra ℚ K] (I : Interpretation K) (ρ : String → K)

theorem value_spread (l r : Expr) : (spread l r).value I ρ = l.value I ρ * r.value I ρ := by
  induction r using spread.induct with
  | case1 attached a b ih =>
    rw [spread, value, value]
    simp only [Interpretation.apply, ih, mul_assoc]
  | case2 r plain =>
    rw [spread_of_plain plain, value]
    rfl

theorem value_signFirst (sign : Sign) (e : Expr) :
    (signFirst sign e).value I ρ = signed sign (e.value I ρ) := by
  induction e using signFirst.induct with
  | case1 attached a b ih =>
    rw [signFirst, value, value]
    simp only [Interpretation.apply, ih]
    cases sign with
    | positive => rfl
    | negative => exact neg_mul _ _
  | case2 e plain =>
    rw [signFirst, value]
    exact plain

mutual

/-- Grouping factors in another way does not change a value. -/
theorem value_regrouped (e : Expr) : e.regrouped.value I ρ = e.value I ρ := by
  cases e with
  | unary sign e => rw [regrouped, value_signFirst, value_regrouped e, value]
  | binary op attached l r =>
    cases op with
    | times =>
      rw [regrouped, value_spread, value_regrouped l, value_regrouped r, value]
      rfl
    | _ => simp only [regrouped, value, value_regrouped l, value_regrouped r]
  | call name args => rw [regrouped, value, value, values_allRegrouped args]
  | _ => simp only [regrouped, value]

theorem values_allRegrouped (es : List Expr) : values I ρ (allRegrouped es) = values I ρ es := by
  cases es with
  | nil => rw [allRegrouped]
  | cons e es => rw [allRegrouped, values, values, value_regrouped e, values_allRegrouped es]

end

theorem values_append (es fs : List Expr) :
    values I ρ (es ++ fs) = values I ρ es ++ values I ρ fs := by
  induction es with
  | nil => rw [values, List.nil_append, List.nil_append]
  | cons e es ih => rw [List.cons_append, values, values, ih, List.cons_append]

theorem values_valueParts_of_single {e : Expr} (single : e.valueParts = [e])
    (single' : e.regrouped.valueParts = [e.regrouped]) :
    values I ρ e.regrouped.valueParts = values I ρ e.valueParts := by
  rw [single, single']
  simp only [values, value_regrouped]

mutual

/-- The parts of the form have the values of the parts of the tree. -/
theorem values_valueParts_regrouped (e : Expr) :
    values I ρ e.regrouped.valueParts = values I ρ e.valueParts := by
  cases e with
  | definition name params body source =>
    rw [regrouped, valueParts, valueParts, values_valueParts_regrouped body]
  | vector es => rw [regrouped, valueParts, valueParts, values_allValueParts_regrouped es]
  | matrix rows => rw [regrouped, valueParts, valueParts, values_allValueParts_regrouped rows]
  | unary sign e =>
    refine values_valueParts_of_single I ρ rfl ?_
    rw [regrouped]
    rcases signFirst_cases sign e.regrouped with ⟨a, b, shape⟩ | shape <;> rw [shape] <;> rfl
  | binary op attached l r =>
    refine values_valueParts_of_single I ρ rfl ?_
    cases op with
    | times =>
      obtain ⟨a, b, shape⟩ := spread_cases l.regrouped r.regrouped
      rw [regrouped, shape]
      rfl
    | _ => rfl
  | _ => exact values_valueParts_of_single I ρ rfl rfl

theorem values_allValueParts_regrouped (es : List Expr) :
    values I ρ (allValueParts (allRegrouped es)) = values I ρ (allValueParts es) := by
  cases es with
  | nil => rw [allRegrouped]
  | cons e es =>
    rw [allRegrouped, allValueParts, allValueParts, values_append, values_append,
      values_valueParts_regrouped e, values_allValueParts_regrouped es]

end

end Values

/-- However factors are grouped, the values are the same. -/
theorem Regrouped.values_valueParts {e e' : Expr} (alike : e.Regrouped e') {K : Type} [Ring K]
    [Algebra ℚ K] (I : Interpretation K) (ρ : String → K) :
    values I ρ e.valueParts = values I ρ e'.valueParts := by
  rw [← values_valueParts_regrouped, alike, values_valueParts_regrouped]

end Expr

end Reckon
