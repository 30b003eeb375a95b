import Reckon.Proofs.Expr.RoundTrip
import Reckon.Proofs.Frame.Simplify
import Reckon.Request

/-!
# Like terms

Monomials are like if their keys are the same: the same variables with the same exponents, and
other factors with the same texts. A text says less than the tree. Where the sign of a product is
left out, `a*sin(x)` is written like `asin(x)`, and `cos(asin(x))-cos(a*sin(x))` cancels
(`unlike_collected`). With every product sign written (`Expr.explicit`) a text is read as one tree
only (`value_eq_of_explicit_text_eq`), so like monomials are equal but for their coefficients as
long as no texts of their factors agree for the want of a sign (`monicValue_eq_of_like`).
-/

namespace Reckon

/-! ## Texts with every product sign -/

namespace Expr

mutual

/-- The tree with every product written. -/
def explicit : Expr → Expr
  | .unary sign e => .unary sign e.explicit
  | .binary op _ l r => .binary op false l.explicit r.explicit
  | .call name args => .call name (explicitAll args)
  | e => e

/-- `explicit` on several trees. -/
def explicitAll : List Expr → List Expr
  | [] => []
  | e :: es => e.explicit :: explicitAll es

end

mutual

/-- A number or a formula of numbers and names whose literals can be written out: they are finite
and not negative, and keep all their digits in a text. -/
def IsScalar : Expr → Prop
  | .literal n _ => ∃ q, n.toRat? = some q ∧ 0 ≤ q ∧ Representable Decimal.exactDigits q
  | .var name => IsName name
  | .unary _ e => e.IsScalar
  | .binary _ _ l r => l.IsScalar ∧ r.IsScalar
  | .call name args => IsName name ∧ AllScalar args
  | _ => False

/-- All of several trees are scalar. -/
def AllScalar : List Expr → Prop
  | [] => True
  | e :: es => e.IsScalar ∧ AllScalar es

end

/-- Every name is a whole and can be called. -/
def wholes : Vocabulary where
  isFunction _ := true
  isKnown _ := true

mutual

theorem IsScalar.explicit : ∀ {e : Expr}, e.IsScalar → e.explicit.IsExplicit wholes
  | .literal .., scalar => scalar
  | .var _, isName => ⟨isName, Or.inr rfl⟩
  | .unary _ e, scalar => IsScalar.explicit (e := e) scalar
  | .binary .., ⟨left, right⟩ => ⟨rfl, left.explicit, right.explicit⟩
  | .call .., ⟨isName, all⟩ => ⟨isName, rfl, all.explicit⟩

theorem AllScalar.explicit : ∀ {es : List Expr}, AllScalar es → AllExplicit wholes (explicitAll es)
  | [], _ => trivial
  | _ :: _, ⟨first, others⟩ => ⟨first.explicit, others.explicit⟩

end

section Value

variable {K : Type} [Ring K] [Algebra ℚ K] (I : Interpretation K) (ρ : String → K)

mutual

/-- A product means the same with its sign. -/
theorem value_explicit : ∀ e : Expr, e.explicit.value I ρ = e.value I ρ
  | .unary _ e => by rw [explicit, value, value, value_explicit e]
  | .binary _ _ l r => by rw [explicit, value, value, value_explicit l, value_explicit r]
  | .call _ args => by rw [explicit, value, value, values_explicitAll args]
  | .literal .. => rfl
  | .var _ => rfl
  | .definition .. => rfl
  | .vector _ => rfl
  | .matrix _ => rfl
  | .empty => rfl

theorem values_explicitAll : ∀ es : List Expr, values I ρ (explicitAll es) = values I ρ es
  | [] => rfl
  | e :: es => by rw [explicitAll, values, values, value_explicit e, values_explicitAll es]

end

mutual

theorem Alike.value_eq : ∀ {e e' : Expr}, e.Alike e' → e.value I ρ = e'.value I ρ
  | .literal .., .literal .., ⟨q, first, second⟩ => by
    rw [value, value, Decimal.toRat_of_toRat? first, Decimal.toRat_of_toRat? second]
  | .var _, .var _, rfl => rfl
  | .unary .., .unary .., ⟨rfl, alike⟩ => by rw [value, value, alike.value_eq]
  | .binary .., .binary .., ⟨rfl, rfl, left, right⟩ => by
    rw [value, value, left.value_eq, right.value_eq]
  | .call .., .call .., ⟨rfl, alike⟩ => by rw [value, value, alike.values_eq]

theorem AllAlike.values_eq : ∀ {es es' : List Expr}, AllAlike es es' →
    values I ρ es = values I ρ es'
  | [], [], _ => rfl
  | _ :: _, _ :: _, ⟨first, others⟩ => by rw [values, values, first.value_eq, others.values_eq]

end

/-- With every product sign written, the text says what the tree is worth. -/
theorem value_eq_of_explicit_text_eq {e e' : Expr} (scalar : e.IsScalar) (scalar' : e'.IsScalar)
    (same : e.explicit.text = e'.explicit.text) : e.value I ρ = e'.value I ρ := by
  obtain ⟨f, form⟩ := exists_form scalar.explicit
  obtain ⟨g, form'⟩ := exists_form scalar'.explicit
  -- both trees are read back from the one text
  have chars : f.chars = g.chars := by rw [form.text, form'.text, same]
  have read := Form.parse_chars form.wellFormed
  rw [chars, Form.parse_chars form'.wellFormed] at read
  have alike := form.alike
  rw [← Except.ok.inj read] at alike
  rw [← value_explicit I ρ e, ← value_explicit I ρ e', alike.value_eq, form'.alike.value_eq]

end Value

end Expr

/-! ## Like monomials -/

/-- Elements that are paired off by their images have the same product. -/
theorem prod_map_eq_of_perm {α β M : Type} [CommMonoid M] {f : α → β} {g : α → M} :
    ∀ {xs ys : List α}, (xs.map f).Perm (ys.map f) →
      (∀ x ∈ xs, ∀ y ∈ ys, f x = f y → g x = g y) → (xs.map g).prod = (ys.map g).prod
  | [], ys, perm, _ => by
    rw [List.map_nil, List.nil_perm, List.map_eq_nil_iff] at perm
    rw [perm]
  | x :: xs, ys, perm, agree => by
    obtain ⟨y, member, image⟩ := List.mem_map.1 (perm.subset List.mem_cons_self)
    obtain ⟨before, after, rfl⟩ := List.append_of_mem member
    have moved : (before ++ y :: after).Perm (y :: (before ++ after)) := List.perm_middle
    have rest : (xs.map f).Perm ((before ++ after).map f) := by
      have whole := perm.trans (moved.map f)
      rw [List.map_cons, List.map_cons, image] at whole
      exact whole.cons_inv
    have others := prod_map_eq_of_perm rest fun x inside y inside' =>
      agree x (.tail _ inside) y (moved.mem_iff.2 (.tail _ inside'))
    rw [(moved.map g).prod_eq, List.map_cons, List.map_cons, List.prod_cons, List.prod_cons,
      agree x List.mem_cons_self y member image.symm, others]

/-- Decimals that count as equal exponents have the same value. -/
theorem Decimal.toRat_eq_of_same {a b : Decimal} (same : (a == b || a.same b) = true) :
    a.toRat = b.toRat := by
  rcases Bool.or_eq_true_iff.1 same with equal | equal
  · rw [eq_of_beq equal]
  · cases a with
    | finite s c e =>
      cases b with
      | finite t d f =>
        exact congrArg (·.getD 0) (congrArg some ((same_iff rfl rfl).1 equal))
      | infinity t => cases t <;> cases equal
      | nan t q p => cases equal
    | infinity s =>
      cases b with
      | finite t d f => cases s <;> cases equal
      | infinity t => rfl
      | nan t q p => cases equal
    | nan s q p => cases equal

namespace Monomial

section Value

variable {K : Type} [CommRing K] [Algebra ℚ K] (I : Interpretation K) (ρ : String → K)

/-- The value of a power of a variable. -/
def powerValue (p : String × Decimal) : K :=
  I.power (ρ p.1) (algebraMap ℚ K p.2.toRat)

/-- The product of the powers and the other factors. -/
def monicValue (m : Monomial) : K :=
  (m.powers.map (powerValue I ρ)).prod * (m.others.map (Expr.value I ρ)).prod

variable {I} {ρ}

/-- Powers that are one can be left out. -/
theorem prod_powers_filter (one : ∀ a, I.power a 0 = 1) (powers : List (String × Decimal)) :
    ((powers.filter fun (_, n) => !n.isZero).map (powerValue I ρ)).prod =
      (powers.map (powerValue I ρ)).prod := by
  induction powers with
  | nil => rfl
  | cons p powers ih =>
    cases zero : p.2.isZero with
    | false =>
      rw [List.filter_cons_of_pos (by simp [zero]), List.map_cons, List.map_cons, List.prod_cons,
        List.prod_cons, ih]
    | true =>
      have vanishes : p.2.toRat = 0 := by
        obtain ⟨name, n⟩ := p
        cases n with
        | finite s c e => exact (Decimal.isZero_iff rfl).1 zero
        | infinity s => cases zero
        | nan s q payload => cases zero
      have unit : powerValue I ρ p = 1 := by rw [powerValue, vanishes, map_zero, one]
      rw [List.filter_cons_of_neg (by simp [zero]), List.map_cons, List.prod_cons, ih, unit,
        one_mul]

/-- Sorted powers that agree one by one have the same product. -/
theorem prod_powers_zip : ∀ {powers powers' : List (String × Decimal)},
    powers.length = powers'.length →
    (powers.zip powers').all (fun ((m, a), (n, b)) => m == n && (a == b || a.same b)) = true →
    (powers.map (powerValue I ρ)).prod = (powers'.map (powerValue I ρ)).prod
  | [], [], _, _ => rfl
  | (m, a) :: powers, (n, b) :: powers', length, same => by
    rw [List.zip_cons_cons, List.all_cons, Bool.and_eq_true] at same
    obtain ⟨here, rest⟩ := same
    obtain ⟨sameName, sameExponent⟩ := Bool.and_eq_true_iff.1 here
    have power : powerValue I ρ (m, a) = powerValue I ρ (n, b) := by
      rw [powerValue, powerValue, Decimal.toRat_eq_of_same sameExponent, eq_of_beq sameName]
    rw [List.map_cons, List.map_cons, List.prod_cons, List.prod_cons, power,
      prod_powers_zip (Nat.succ.inj length) rest]

/-- Like monomials are equal but for their coefficients if like factors are equal. -/
theorem monicValue_eq {a b : Monomial} (one : ∀ x, I.power x 0 = 1)
    (same : a.key.same b.key = true)
    (factors : ∀ e ∈ a.others, ∀ e' ∈ b.others, e.text = e'.text → e.value I ρ = e'.value I ρ) :
    a.monicValue I ρ = b.monicValue I ρ := by
  rw [Key.same, Bool.and_eq_true, Bool.and_eq_true] at same
  obtain ⟨⟨length, powers⟩, others⟩ := same
  -- a key has the powers in the order of their names and without those that are one
  have sorted : ∀ m : Monomial, (m.key.powers.map (powerValue I ρ)).prod =
      (m.powers.map (powerValue I ρ)).prod := by
    intro m
    have perm : m.key.powers.Perm (m.powers.filter fun (_, n) => !n.isZero) :=
      List.mergeSort_perm _ _
    rw [(perm.map _).prod_eq, prod_powers_filter one]
  have texts : (a.others.map Expr.text).Perm (b.others.map Expr.text) := by
    have first : a.key.others.Perm (a.others.map Expr.text) := List.mergeSort_perm _ _
    have second : b.key.others.Perm (b.others.map Expr.text) := List.mergeSort_perm _ _
    rw [eq_of_beq others] at first
    exact first.symm.trans second
  rw [monicValue, monicValue, ← sorted a, ← sorted b, prod_powers_zip (eq_of_beq length) powers,
    prod_map_eq_of_perm texts factors]

end Value

end Monomial

/-! ## The monomial of a tree -/

namespace Expr

open Calc Context

theorem monomial_call (name : String) (args : List Expr) (ctx : Context) :
    ((Expr.call name args).monomial ctx).1 = .ok (.ofFactor (.call name args)) :=
  rfl

end Expr

namespace Monomial

open Calc Context

/-- Like monomials of scalar trees are equal but for their coefficients, unless factors of theirs
are written alike for the want of a product sign. -/
theorem monicValue_eq_of_like {K : Type} [CommRing K] [Algebra ℚ K] {I : Interpretation K}
    (one : ∀ x, I.power x 0 = 1) (ρ : String → K) {ctx ctx' : Context} {e e' : Expr}
    {m m' : Monomial} (scalar : e.IsScalar) (scalar' : e'.IsScalar)
    (built : (e.monomial ctx).1 = .ok m) (built' : (e'.monomial ctx').1 = .ok m')
    (like : m.key.same m'.key = true)
    (signed : ∀ f ∈ m.others, ∀ f' ∈ m'.others, f.text = f'.text →
      f.explicit.text = f'.explicit.text) :
    m.monicValue I ρ = m'.monicValue I ρ := by
  -- the factors of a monomial are parts of the tree
  have handsDown : Expr.HandsDown Expr.IsScalar :=
    ⟨fun operand => operand, fun operands => operands⟩
  have factors : ∀ {ctx : Context} {e : Expr} {m : Monomial}, e.IsScalar →
      (e.monomial ctx).1 = .ok m → ∀ f ∈ m.others, f.IsScalar := by
    intro ctx e m scalar built
    have ensured := Expr.ensures_monomial (I := fun _ => True) (R := Context.Advances) handsDown e
      scalar
    exact ((ensured ctx trivial).2 m built).2
  refine monicValue_eq one like fun f member f' member' same => ?_
  exact Expr.value_eq_of_explicit_text_eq I ρ (factors scalar built f member)
    (factors scalar' built' f' member') (signed f member f' member' same)

/-- Both trees are monomials with the same key, and their factors are written alike with every
product sign. -/
def areLike (e e' : Expr) (ctx : Context) : Bool :=
  match (e.monomial ctx).1, (e'.monomial ctx).1 with
  | .ok m, .ok m' =>
    m.key.same m'.key && m.others.all fun f => m'.others.all fun f' =>
      f.text != f'.text || f.explicit.text == f'.explicit.text
  | _, _ => false

theorem exists_of_areLike {e e' : Expr} {ctx : Context} (like : areLike e e' ctx = true) :
    ∃ m m', (e.monomial ctx).1 = .ok m ∧ (e'.monomial ctx).1 = .ok m' ∧
      m.key.same m'.key = true ∧
      ∀ f ∈ m.others, ∀ f' ∈ m'.others, f.text = f'.text → f.explicit.text = f'.explicit.text := by
  unfold areLike at like
  split at like
  next m m' built built' =>
    rw [Bool.and_eq_true, List.all_eq_true] at like
    refine ⟨m, m', built, built', like.1, fun f member f' member' same => ?_⟩
    have alike := List.all_eq_true.1 (like.2 f member) f' member'
    simpa [same] using alike
  next => cases like

/-- `2xcos(xy)`. -/
def scaledCosine : Expr :=
  .juxtaposed (.number 2)
    (.juxtaposed (.var "x") (.call "cos" [.juxtaposed (.var "x") (.var "y")]))

/-- `-cos(xy)*x`. -/
def negatedCosine : Expr :=
  .unary .negative
    (.binary .times false (.call "cos" [.juxtaposed (.var "x") (.var "y")]) (.var "x"))

theorem monicValue_cosines :
    ∃ m m', (scaledCosine.monomial Context.initial).1 = .ok m ∧
      (negatedCosine.monomial Context.initial).1 = .ok m' ∧ m.key.same m'.key = true ∧
      m.monicValue Interpretation.rational (fun _ => 2) =
        m'.monicValue Interpretation.rational fun _ => 2 := by
  have like : areLike scaledCosine negatedCosine Context.initial = true := by decide +kernel
  obtain ⟨m, m', built, built', like, signed⟩ := exists_of_areLike like
  have x : IsName "x" := by decide +kernel
  have y : IsName "y" := by decide +kernel
  have cosine : (Expr.call "cos" [.juxtaposed (.var "x") (.var "y")]).IsScalar :=
    ⟨by decide +kernel, ⟨x, y⟩, trivial⟩
  have digits : HasDigits 1 ((2 : Nat) : ℚ) := ⟨2, 0, by norm_num, by norm_num⟩
  have two : (Expr.number 2).IsScalar :=
    ⟨_, Decimal.toRat?_ofNat 2, by norm_num, digits.mono (by decide),
      inRange_of_le (k := 1) (by norm_num) (by norm_num) (by decide)⟩
  have scalar : scaledCosine.IsScalar := ⟨two, x, cosine⟩
  have scalar' : negatedCosine.IsScalar := ⟨cosine, x⟩
  have one : ∀ a, Interpretation.rational.power a 0 = 1 := fun a => by
    have power := Interpretation.rational_power_nat a 0
    rwa [Nat.cast_zero, pow_zero] at power
  exact ⟨m, m', built, built', like,
    monicValue_eq_of_like one _ scalar scalar' built built' like signed⟩

theorem monicValue_ofFactor {K : Type} [CommRing K] [Algebra ℚ K] (I : Interpretation K)
    (ρ : String → K) (e : Expr) : (ofFactor e).monicValue I ρ = e.value I ρ := by
  simp [monicValue, ofFactor]

/-- The arc sine of `x` and the product of `a` and the sine of `x` are written alike, so the cosine
of the one cancels the cosine of the other. -/
theorem unlike_collected :
    (∃ m m', ((Expr.call "cos" [.call "asin" [.var "x"]]).monomial Context.initial).1 = .ok m ∧
      ((Expr.call "cos" [.juxtaposed (.var "a") (.call "sin" [.var "x"])]).monomial
        Context.initial).1 = .ok m' ∧
      m.key.same m'.key = true ∧
      ∃ (I : Interpretation ℚ) (ρ : String → ℚ), (∀ x, I.power x 0 = 1) ∧
        m.monicValue I ρ ≠ m'.monicValue I ρ) ∧
    (simplify "cos(asin(x))-cos(a*sin(x))" Context.initial).1.toOption.map Expr.text =
      some "0" := by
  refine ⟨⟨_, _, Expr.monomial_call _ _ _, Expr.monomial_call _ _ _, by decide +kernel,
    ⟨fun a b => a / b, fun _ _ => 1, fun _ _ _ => 0, fun _ args => args.sum⟩,
    fun name => if name = "a" then 2 else 1, fun _ => rfl, ?_⟩, by decide +kernel⟩
  rw [monicValue_ofFactor, monicValue_ofFactor]
  simp [Expr.value, Expr.values, Expr.juxtaposed, Interpretation.apply]

end Monomial

end Reckon
