import Reckon.Proofs.Expr.Spelling
import Reckon.Proofs.Simplify.Polynomial

/-!
# Monomials and their values

A monomial stands for the product of its coefficient, its powers and its other factors. Products,
changed signs and sums of like monomials have the values they should have as long as no coefficient
and no exponent is rounded, and the trees of monomials have these values again. Monomials are like
if their keys are the same: equal texts of factors mean equal values.

Results: `mul_value`, `part_eq_of_same`, `collect_value`, `sum_value`.
-/

namespace Reckon

namespace Monomial

open Reckon.Expr (rationalValue)

/-! ## Values -/

/-- The product of powers of variables. -/
def powersValue (ρ : String → ℚ) (powers : List (String × Decimal)) : ℚ :=
  (powers.map fun (name, n) => Interpretation.rational.power (ρ name) n.toRat).prod

/-- The monomial without its coefficient. -/
def part (ρ : String → ℚ) (m : Monomial) : ℚ :=
  powersValue ρ m.powers * (m.others.map (rationalValue ρ)).prod

def value (ρ : String → ℚ) (m : Monomial) : ℚ :=
  m.coefficient.toRat * m.part ρ

/-- The variables can stand in a polynomial and the exponents are natural numbers. -/
def SoundPowers (ctx : Context) (powers : List (String × Decimal)) : Prop :=
  ∀ p ∈ powers, (Expr.var p.1).Sound ctx ∧
    ∃ k : Nat, p.2.toRat? = some (k : ℚ) ∧ Compact (k : ℚ)

/-- The monomial of a polynomial: all numbers are compact. -/
structure Sound (ctx : Context) (m : Monomial) : Prop where
  coefficient : ∃ q, m.coefficient.toRat? = some q ∧ Compact q
  powers : SoundPowers ctx m.powers
  others : ∀ e ∈ m.others, e.Sound ctx

/-! ## Numbers that arise -/

/-- The exponent of a variable. -/
def exponentOf (name : String) : List (String × Decimal) → ℚ
  | [] => 0
  | (m, n) :: rest => if m == name then n.toRat else exponentOf name rest

/-- The exponents that arise where powers are multiplied by others, one after the other. -/
def powerNumbers (powers : List (String × Decimal)) : List (String × Decimal) → Set ℚ
  | [] => ∅
  | (name, n) :: rest =>
    insert (exponentOf name powers + n.toRat)
      {q | ∃ powers', addPower name n powers = .ok powers' ∧ q ∈ powerNumbers powers' rest}

/-- The coefficient and the exponents of a product. -/
def mulNumbers (a b : Monomial) : Set ℚ :=
  insert (a.coefficient.toRat * b.coefficient.toRat) (powerNumbers a.powers b.powers)

/-- The coefficients that arise where like monomials are added up, those of `terms` being there
already. -/
def collectNumbers (terms : List Monomial) : List Monomial → Set ℚ
  | [] => ∅
  | m :: ms =>
    {q | ∃ first, terms.find? (·.key.same m.key) = some first ∧
      q = first.coefficient.toRat + m.coefficient.toRat} ∪
    {q | ∃ terms', addTo m terms = .ok terms' ∧ q ∈ collectNumbers terms' ms}

/-! ## Operations without rounding -/

theorem mul_exact {a b : Monomial} {x y : ℚ} {powers : List (String × Decimal)}
    (xValue : a.coefficient.toRat? = some x) (yValue : b.coefficient.toRat? = some y)
    (multiplied : b.powers.foldlM (fun powers (name, n) => addPower name n powers) a.powers =
      .ok powers) (fits : Compact (x * y)) :
    ∃ c, a.mul b = .ok ⟨c, powers, a.others ++ b.others⟩ ∧ c.toRat? = some (x * y) := by
  obtain ⟨c, product, value⟩ := Precision.mul_exact (p := exact) xValue yValue fits.exact
  refine ⟨c, ?_, value⟩
  rw [mul, multiplied]
  change (do
    let coefficient ← exact.mul a.coefficient b.coefficient
    return { coefficient, powers, others := a.others ++ b.others } : Except Signal Monomial) = _
  rw [product]
  rfl

theorem negate_exact {m : Monomial} {x : ℚ} (value : m.coefficient.toRat? = some x)
    (fits : Compact x) :
    ∃ c, m.negate = .ok { m with coefficient := c } ∧ c.toRat? = some (-x) := by
  obtain ⟨c, negated, cValue⟩ := Precision.neg_exact (p := ambient) value fits
  refine ⟨c, ?_, cValue⟩
  rw [negate, negated]
  rfl

theorem less_eq_false {n : Decimal} {q : ℚ} (value : n.toRat? = some q) (nonnegative : 0 ≤ q) :
    n.less 0 = .ok false := by
  rw [Decimal.less_eq value Decimal.toRat?_zero]
  simpa using nonnegative

/-- A power is left out, or it is the variable alone, or it is written with its exponent. -/
theorem powerFactors_cons (name : String) {n : Decimal} {k : Nat} {rest : List (String × Decimal)}
    {factors : List Expr} (exponent : n.toRat? = some (k : ℚ))
    (done : powerFactors rest = .ok factors) :
    (k = 0 ∧ powerFactors ((name, n) :: rest) = .ok factors) ∨
    (k = 1 ∧ powerFactors ((name, n) :: rest) = .ok (.var name :: factors)) ∨
    powerFactors ((name, n) :: rest) =
      .ok (.binary .power false (.var name) (.number n) :: factors) := by
  rw [powerFactors, done]
  split
  next zero =>
    have none : k = 0 := by exact_mod_cast (Decimal.isZero_iff exponent).1 zero
    exact .inl ⟨none, rfl⟩
  split
  next one =>
    have single : k = 1 := by exact_mod_cast (Decimal.same_iff exponent Decimal.toRat?_one).1 one
    exact .inr (.inl ⟨single, rfl⟩)
  next =>
    rw [literal, less_eq_false exponent (Nat.cast_nonneg k)]
    exact .inr (.inr rfl)

/-- A product after the magnitude of the coefficient, under a minus sign if that is negative. -/
theorem toExpr_exact {m : Monomial} {x : ℚ} {factors : List Expr}
    (value : m.coefficient.toRat? = some x) (fits : Compact x)
    (done : powerFactors m.powers = .ok factors) :
    ∃ magnitude, magnitude.toRat? = some |x| ∧
      m.toExpr = .ok (if x < 0 then .unary .negative (product magnitude (factors ++ m.others))
        else product magnitude (factors ++ m.others)) := by
  obtain ⟨magnitude, absolute, magnitudeValue⟩ := Precision.abs_exact (p := ambient) value fits
  have steps : m.toExpr = (do
      if ← m.coefficient.less 0 then
        return .unary .negative (product magnitude (factors ++ m.others))
      else return product magnitude (factors ++ m.others) : Except Signal Expr) := by
    rw [toExpr, done]
    change (do
      let magnitude ← ambient.abs m.coefficient
      let e := product magnitude (factors ++ m.others)
      if ← m.coefficient.less 0 then return Expr.unary .negative e else return e) = _
    rw [absolute]
    rfl
  refine ⟨magnitude, magnitudeValue, ?_⟩
  rw [steps, Decimal.less_eq value Decimal.toRat?_zero]
  by_cases negative : x < 0
  · rw [decide_eq_true negative, if_pos negative]
    rfl
  · rw [decide_eq_false negative, if_neg negative]
    rfl

/-! ## Products -/

variable {ctx : Context} {ρ : String → ℚ}

theorem power_add (a : ℚ) (j k : Nat) : Interpretation.rational.power a (j + k : Nat) =
    Interpretation.rational.power a j * Interpretation.rational.power a k := by
  rw [Interpretation.rational_power_nat, Interpretation.rational_power_nat,
    Interpretation.rational_power_nat, pow_add]

theorem powersValue_cons (p : String × Decimal) (powers : List (String × Decimal)) :
    powersValue ρ (p :: powers) =
      Interpretation.rational.power (ρ p.1) p.2.toRat * powersValue ρ powers := by
  rw [powersValue, List.map_cons, List.prod_cons]
  rfl

theorem add_exponents {m n : Decimal} {j k : Nat} (first : m.toRat? = some (j : ℚ))
    (second : n.toRat? = some (k : ℚ)) (compact : Compact (m.toRat + n.toRat)) :
    ∃ s, ambient.add m n = .ok s ∧ s.toRat? = some ((j + k : Nat) : ℚ) ∧
      Compact ((j + k : Nat) : ℚ) := by
  rw [Decimal.toRat_of_toRat? first, Decimal.toRat_of_toRat? second] at compact
  obtain ⟨s, added, value⟩ := Precision.add_exact (p := ambient) first second compact
  rw [← Nat.cast_add] at value compact
  exact ⟨s, added, value, compact⟩

/-- An exponent is added to that of its variable. -/
theorem addPower_value {name : String} {n : Decimal} {k : Nat}
    (letter : (Expr.var name).Sound ctx) (exponent : n.toRat? = some (k : ℚ)) :
    ∀ {powers : List (String × Decimal)}, SoundPowers ctx powers →
      Compact (exponentOf name powers + n.toRat) →
      ∃ powers', addPower name n powers = .ok powers' ∧ SoundPowers ctx powers' ∧
        powersValue ρ powers' =
          powersValue ρ powers * Interpretation.rational.power (ρ name) n.toRat
  | [], _, compact => by
    have zero : (0 : Decimal).toRat? = some ((0 : Nat) : ℚ) := Decimal.toRat?_ofNat 0
    have compact : Compact ((0 : Decimal).toRat + n.toRat) := by
      rwa [Decimal.toRat_of_toRat? zero, Nat.cast_zero]
    obtain ⟨s, added, value, fits⟩ := add_exponents zero exponent compact
    refine ⟨[(name, s)], by rw [addPower, added]; rfl, ?_, ?_⟩
    · intro p member
      obtain rfl := List.mem_singleton.1 member
      exact ⟨letter, _, value, fits⟩
    · rw [powersValue_cons, Decimal.toRat_of_toRat? value, Decimal.toRat_of_toRat? exponent,
        zero_add, mul_comm]
  | (m, old) :: rest, sound, compact => by
    obtain ⟨⟨oldLetter, j, oldExponent, oldFits⟩, others⟩ := List.forall_mem_cons.1 sound
    rw [exponentOf] at compact
    rw [addPower]
    split at compact
    next same =>
      obtain rfl := eq_of_beq same
      obtain ⟨s, added, value, fits⟩ := add_exponents oldExponent exponent compact
      refine ⟨(m, s) :: rest, by rw [if_pos same, added]; rfl, ?_, ?_⟩
      · exact List.forall_mem_cons.2 ⟨⟨letter, _, value, fits⟩, others⟩
      · rw [powersValue_cons, powersValue_cons, Decimal.toRat_of_toRat? value,
          Decimal.toRat_of_toRat? exponent, Decimal.toRat_of_toRat? oldExponent, power_add]
        ring
    next other =>
      obtain ⟨powers', added, sound', value⟩ := addPower_value letter exponent others compact
      refine ⟨(m, old) :: powers', by rw [if_neg other, added]; rfl, ?_, ?_⟩
      · exact List.forall_mem_cons.2 ⟨⟨oldLetter, j, oldExponent, oldFits⟩, sound'⟩
      · rw [powersValue_cons, powersValue_cons, value, mul_assoc]

/-- Powers are multiplied one after the other. -/
theorem addPowers_value : ∀ {others powers : List (String × Decimal)}, SoundPowers ctx powers →
    SoundPowers ctx others → AllCompact (powerNumbers powers others) →
    ∃ powers', others.foldlM (fun powers (name, n) => addPower name n powers) powers = .ok powers' ∧
      SoundPowers ctx powers' ∧
      powersValue ρ powers' = powersValue ρ powers * powersValue ρ others
  | [], powers, sound, _, _ => ⟨powers, rfl, sound, by simp [powersValue]⟩
  | (name, n) :: rest, powers, sound, soundOthers, compact => by
    obtain ⟨⟨letter, k, exponent, -⟩, soundRest⟩ := List.forall_mem_cons.1 soundOthers
    rw [powerNumbers, allCompact_insert] at compact
    obtain ⟨here, later⟩ := compact
    obtain ⟨middle, added, soundMiddle, middleValue⟩ :=
      addPower_value (ρ := ρ) letter exponent sound here
    obtain ⟨powers', done, sound', value⟩ := addPowers_value soundMiddle soundRest
      fun q member => later q ⟨middle, added, member⟩
    refine ⟨powers', ?_, sound', ?_⟩
    · rw [List.foldlM_cons]
      change (addPower name n powers >>= _) = _
      rw [show addPower name n powers = _ from added]
      exact done
    · rw [value, middleValue, powersValue_cons, mul_assoc]

/-- The product of two monomials. -/
theorem mul_value {a b : Monomial} (first : a.Sound ctx) (second : b.Sound ctx)
    (compact : AllCompact (mulNumbers a b)) :
    ∃ m, a.mul b = .ok m ∧ m.Sound ctx ∧ m.value ρ = a.value ρ * b.value ρ := by
  rw [mulNumbers, allCompact_insert] at compact
  obtain ⟨x, xValue, -⟩ := first.coefficient
  obtain ⟨y, yValue, -⟩ := second.coefficient
  obtain ⟨fits, exponents⟩ := compact
  rw [Decimal.toRat_of_toRat? xValue, Decimal.toRat_of_toRat? yValue] at fits
  obtain ⟨powers, multiplied, sound, powersProduct⟩ :=
    addPowers_value (ρ := ρ) first.powers second.powers exponents
  obtain ⟨c, product, cValue⟩ := mul_exact xValue yValue multiplied fits
  refine ⟨_, product, ⟨⟨x * y, cValue, fits⟩, sound, ?_⟩, ?_⟩
  · intro e member
    rcases List.mem_append.1 member with left | right
    · exact first.others e left
    · exact second.others e right
  · simp only [value, part, powersProduct, List.map_append, List.prod_append,
      Decimal.toRat_of_toRat? cValue, Decimal.toRat_of_toRat? xValue,
      Decimal.toRat_of_toRat? yValue]
    ring

theorem withSign_value {m : Monomial} (sound : m.Sound ctx) (sign : Sign) :
    ∃ m', m.withSign sign = .ok m' ∧ m'.Sound ctx ∧ m'.value ρ = Expr.signed sign (m.value ρ) := by
  cases sign with
  | positive => exact ⟨m, rfl, sound, rfl⟩
  | negative =>
    obtain ⟨x, xValue, fits⟩ := sound.coefficient
    obtain ⟨c, negated, cValue⟩ := negate_exact xValue fits
    refine ⟨_, negated, ⟨⟨-x, cValue, fits.neg⟩, sound.powers, sound.others⟩, ?_⟩
    change c.toRat * m.part ρ = -(m.coefficient.toRat * m.part ρ)
    rw [Decimal.toRat_of_toRat? cValue, Decimal.toRat_of_toRat? xValue, neg_mul]

/-! ## Like monomials -/

/-- A polynomial is determined by its text. -/
theorem isSpelled_of_sound {e : Expr} (polynomial : e.Sound ctx) : e.IsSpelled := by
  induction polynomial with
  | literal value nonnegative fits => exact ⟨_, value, nonnegative, fits.exact⟩
  | var shape letter _ => exact ⟨_, shape, letter⟩
  | unary _ ih => exact ih
  | plus _ _ left right => exact ⟨left, right⟩
  | minus _ _ left right => exact ⟨left, right⟩
  | times _ _ left right => exact ⟨left, right⟩
  | power _ value fits ih => exact ⟨ih, _, value, Nat.cast_nonneg _, fits.exact⟩

open Classical in
/-- The value of the polynomials with this text. -/
noncomputable def textValue (ctx : Context) (ρ : String → ℚ) (text : String) : ℚ :=
  if written : ∃ e : Expr, e.Sound ctx ∧ e.text = text then
    written.choose.rationalValue ρ
  else 0

theorem textValue_eq {e : Expr} (polynomial : e.Sound ctx) :
    textValue ctx ρ e.text = e.rationalValue ρ := by
  have written : ∃ e' : Expr, e'.Sound ctx ∧ e'.text = e.text := ⟨e, polynomial, rfl⟩
  rw [textValue, dif_pos written]
  exact Expr.value_eq_of_text_eq (isSpelled_of_sound written.choose_spec.1)
    (isSpelled_of_sound polynomial) written.choose_spec.2

theorem prod_others {es : List Expr} (polynomials : ∀ e ∈ es, e.Sound ctx) :
    (es.map (rationalValue ρ)).prod = ((es.map Expr.text).map (textValue ctx ρ)).prod := by
  rw [List.map_map]
  congr 1
  refine List.map_congr_left fun e member => ?_
  exact (textValue_eq (polynomials e member)).symm

/-- Powers that are one can be left out. -/
theorem powersValue_filter {powers : List (String × Decimal)} (sound : SoundPowers ctx powers) :
    powersValue ρ (powers.filter fun (_, n) => !n.isZero) = powersValue ρ powers := by
  induction powers with
  | nil => rfl
  | cons p powers ih =>
    obtain ⟨name, n⟩ := p
    obtain ⟨⟨-, k, exponent, -⟩, others⟩ := List.forall_mem_cons.1 sound
    have exponent : n.toRat? = some (k : ℚ) := exponent
    cases zero : n.isZero with
    | false =>
      rw [List.filter_cons_of_pos (by simp [zero]), powersValue_cons, powersValue_cons, ih others]
    | true =>
      rw [(Decimal.isZero_iff exponent).1 zero] at exponent
      have one : Interpretation.rational.power (ρ name) n.toRat = 1 := by
        rw [Decimal.toRat_of_toRat? exponent, ← Nat.cast_zero, Interpretation.rational_power_nat,
          pow_zero]
      rw [List.filter_cons_of_neg (by simp [zero]), ih others, powersValue_cons, one, one_mul]

theorem powersValue_perm {powers powers' : List (String × Decimal)} (perm : powers.Perm powers') :
    powersValue ρ powers = powersValue ρ powers' :=
  (perm.map _).prod_eq

/-- Sorted powers that agree one by one have the same product. -/
theorem powersValue_zip : ∀ {powers powers' : List (String × Decimal)}, SoundPowers ctx powers →
    SoundPowers ctx powers' → powers.length = powers'.length →
    (powers.zip powers').all (fun ((m, a), (n, b)) => m == n && (a == b || a.same b)) = true →
    powersValue ρ powers = powersValue ρ powers'
  | [], [], _, _, _, _ => rfl
  | (m, a) :: powers, (n, b) :: powers', sound, sound', length, same => by
    obtain ⟨⟨-, j, aValue, -⟩, others⟩ := List.forall_mem_cons.1 sound
    obtain ⟨⟨-, k, bValue, -⟩, others'⟩ := List.forall_mem_cons.1 sound'
    rw [List.zip_cons_cons, List.all_cons, Bool.and_eq_true] at same
    obtain ⟨here, rest⟩ := same
    obtain ⟨sameName, sameExponent⟩ := Bool.and_eq_true_iff.1 here
    obtain rfl := eq_of_beq sameName
    have value : a.toRat = b.toRat := by
      rcases Bool.or_eq_true_iff.1 sameExponent with equal | equal
      · rw [eq_of_beq equal]
      · rw [Decimal.toRat_of_toRat? aValue, Decimal.toRat_of_toRat? bValue]
        exact (Decimal.same_iff aValue bValue).1 equal
    rw [powersValue_cons, powersValue_cons, value,
      powersValue_zip others others' (Nat.succ.inj length) rest]

/-- Like monomials differ in their coefficients only. -/
theorem part_eq_of_same {a b : Monomial} (first : a.Sound ctx) (second : b.Sound ctx)
    (same : a.key.same b.key = true) : a.part ρ = b.part ρ := by
  rw [Key.same, Bool.and_eq_true, Bool.and_eq_true] at same
  obtain ⟨⟨length, powers⟩, others⟩ := same
  have sortedPowers : ∀ {m : Monomial}, m.Sound ctx →
      m.key.powers.Perm (m.powers.filter fun (_, n) => !n.isZero) :=
    fun _ => List.mergeSort_perm _ _
  have soundKey : ∀ {m : Monomial}, m.Sound ctx → SoundPowers ctx m.key.powers := by
    intro m sound p member
    exact sound.powers p (List.mem_of_mem_filter ((sortedPowers sound).mem_iff.1 member))
  have powersPart : ∀ {m : Monomial}, m.Sound ctx →
      powersValue ρ m.key.powers = powersValue ρ m.powers := by
    intro m sound
    rw [powersValue_perm (sortedPowers sound), powersValue_filter sound.powers]
  have othersPart : ∀ {m : Monomial}, m.Sound ctx →
      (m.key.others.map (textValue ctx ρ)).prod = (m.others.map (rationalValue ρ)).prod := by
    intro m sound
    have perm : m.key.others.Perm (m.others.map Expr.text) := List.mergeSort_perm _ _
    rw [prod_others sound.others, (perm.map (textValue ctx ρ)).prod_eq]
  rw [part, part, ← powersPart first, ← powersPart second, ← othersPart first, ← othersPart second,
    powersValue_zip (soundKey first) (soundKey second) (eq_of_beq length) powers,
    eq_of_beq others]

/-! ## Sums -/

/-- The value of a sum of monomials. -/
def total (ρ : String → ℚ) (ms : List Monomial) : ℚ :=
  (ms.map (value ρ)).sum

theorem total_cons (m : Monomial) (ms : List Monomial) :
    total ρ (m :: ms) = m.value ρ + total ρ ms := by
  rw [total, List.map_cons, List.sum_cons]
  rfl

theorem total_append (ms ms' : List Monomial) :
    total ρ (ms ++ ms') = total ρ ms + total ρ ms' := by
  rw [total, List.map_append, List.sum_append]
  rfl

theorem total_perm {ms ms' : List Monomial} (perm : ms.Perm ms') : total ρ ms = total ρ ms' :=
  (perm.map _).sum_eq

/-- A monomial is added to the first like one. -/
theorem addTo_value {m : Monomial} (sound : m.Sound ctx) : ∀ {terms : List Monomial},
    (∀ t ∈ terms, t.Sound ctx) →
    (∀ first, terms.find? (·.key.same m.key) = some first →
      Compact (first.coefficient.toRat + m.coefficient.toRat)) →
    ∃ terms', addTo m terms = .ok terms' ∧ (∀ t ∈ terms', t.Sound ctx) ∧
      total ρ terms' = total ρ terms + m.value ρ
  | [], _, _ => ⟨[m], rfl, by simpa using sound, by simp [total]⟩
  | first :: rest, sounds, compact => by
    obtain ⟨head, others⟩ := List.forall_mem_cons.1 sounds
    rw [addTo]
    cases same : first.key.same m.key with
    | true =>
      obtain ⟨x, xValue, -⟩ := head.coefficient
      obtain ⟨y, yValue, -⟩ := sound.coefficient
      have fits := compact first (List.find?_cons_of_pos (by exact same))
      rw [Decimal.toRat_of_toRat? xValue, Decimal.toRat_of_toRat? yValue] at fits
      obtain ⟨c, added, cValue⟩ := Precision.add_exact (p := exact) xValue yValue fits.exact
      refine ⟨{ first with coefficient := c } :: rest, by rw [if_pos rfl, added]; rfl, ?_, ?_⟩
      · exact List.forall_mem_cons.2 ⟨⟨⟨x + y, cValue, fits⟩, head.powers, head.others⟩, others⟩
      · have like : first.part ρ = m.part ρ := part_eq_of_same head sound same
        rw [total_cons, total_cons]
        change c.toRat * first.part ρ + _ =
          first.coefficient.toRat * first.part ρ + _ + m.coefficient.toRat * m.part ρ
        rw [Decimal.toRat_of_toRat? cValue, Decimal.toRat_of_toRat? xValue,
          Decimal.toRat_of_toRat? yValue, ← like]
        ring
    | false =>
      obtain ⟨terms', added, sounds', value⟩ := addTo_value sound others fun found later =>
        compact found (by rw [List.find?_cons_of_neg (by simp [same]), later])
      refine ⟨first :: terms', by rw [if_neg Bool.false_ne_true, added]; rfl, ?_, ?_⟩
      · exact List.forall_mem_cons.2 ⟨head, sounds'⟩
      · rw [total_cons, total_cons, value, add_assoc]

theorem addAll_value : ∀ {ms terms : List Monomial}, (∀ t ∈ terms, t.Sound ctx) →
    (∀ m ∈ ms, m.Sound ctx) → AllCompact (collectNumbers terms ms) →
    ∃ terms', ms.foldlM (fun terms m => addTo m terms) terms = .ok terms' ∧
      (∀ t ∈ terms', t.Sound ctx) ∧ total ρ terms' = total ρ terms + total ρ ms
  | [], terms, sounds, _, _ => ⟨terms, rfl, sounds, by simp [total]⟩
  | m :: ms, terms, sounds, sounds', compact => by
    obtain ⟨head, others⟩ := List.forall_mem_cons.1 sounds'
    rw [collectNumbers, allCompact_union] at compact
    obtain ⟨here, later⟩ := compact
    obtain ⟨middle, added, soundMiddle, middleValue⟩ := addTo_value (ρ := ρ) head sounds
      fun first found => here _ ⟨first, found, rfl⟩
    obtain ⟨terms', done, soundTerms, value⟩ := addAll_value soundMiddle others
      fun q member => later q ⟨middle, added, member⟩
    refine ⟨terms', ?_, soundTerms, ?_⟩
    · rw [List.foldlM_cons, added]
      exact done
    · rw [value, middleValue, total_cons, add_assoc]

theorem total_filter {ms : List Monomial} (sounds : ∀ m ∈ ms, m.Sound ctx) :
    total ρ (ms.filter (!·.coefficient.isZero)) = total ρ ms := by
  induction ms with
  | nil => rfl
  | cons m ms ih =>
    obtain ⟨head, others⟩ := List.forall_mem_cons.1 sounds
    cases zero : m.coefficient.isZero with
    | false =>
      rw [List.filter_cons_of_pos (by simp [zero]), total_cons, total_cons, ih others]
    | true =>
      obtain ⟨x, xValue, -⟩ := head.coefficient
      have none : m.value ρ = 0 := by
        rw [Monomial.value, Decimal.toRat_of_toRat? xValue, (Decimal.isZero_iff xValue).1 zero,
          zero_mul]
      rw [List.filter_cons_of_neg (by simp [zero]), ih others, total_cons, none, zero_add]

/-- Adding up like monomials keeps the value of their sum. -/
theorem collect_value {ms : List Monomial} (sounds : ∀ m ∈ ms, m.Sound ctx)
    (compact : AllCompact (collectNumbers [] ms)) :
    ∃ terms, collect ms = .ok terms ∧ (∀ t ∈ terms, t.Sound ctx) ∧
      total ρ terms = total ρ ms := by
  obtain ⟨terms, added, soundTerms, value⟩ :=
    addAll_value (ρ := ρ) (List.forall_mem_nil _) sounds compact
  set kept := terms.filter (!·.coefficient.isZero) with kept_def
  have perm : (kept.filter (!·.isConstant) ++ kept.filter (·.isConstant)).Perm kept :=
    List.perm_append_comm.trans (List.filter_append_perm (·.isConstant) kept)
  refine ⟨kept.filter (!·.isConstant) ++ kept.filter (·.isConstant),
    by rw [collect, added]; rfl, ?_, ?_⟩
  · intro t member
    exact soundTerms t (List.mem_of_mem_filter (perm.mem_iff.1 member))
  · rw [total_perm perm, kept_def, total_filter soundTerms, value]
    simp [total]

/-! ## Trees -/

/-- The trees of powers of variables. -/
theorem powerFactors_value : ∀ {powers : List (String × Decimal)}, SoundPowers ctx powers →
    ∃ factors, powerFactors powers = .ok factors ∧ (∀ e ∈ factors, e.Sound ctx) ∧
      (factors.map (rationalValue ρ)).prod = powersValue ρ powers
  | [], _ => ⟨[], rfl, by simp, rfl⟩
  | (name, n) :: rest, sound => by
    obtain ⟨⟨letter, k, exponent, fits⟩, others⟩ := List.forall_mem_cons.1 sound
    obtain ⟨factors, done, polynomials, value⟩ := powerFactors_value others
    have exponent : n.toRat? = some (k : ℚ) := exponent
    have power : Interpretation.rational.power (ρ name) n.toRat = ρ name ^ k := by
      rw [Decimal.toRat_of_toRat? exponent, Interpretation.rational_power_nat]
    rw [powersValue_cons, power]
    rcases powerFactors_cons name exponent done with ⟨none, tree⟩ | ⟨single, tree⟩ | tree
    · exact ⟨factors, tree, polynomials, by rw [value, none, pow_zero, one_mul]⟩
    · refine ⟨_, tree, List.forall_mem_cons.2 ⟨letter, polynomials⟩, ?_⟩
      rw [List.map_cons, List.prod_cons, value, single, pow_one]
      rfl
    · refine ⟨_, tree, List.forall_mem_cons.2 ⟨.power letter exponent fits, polynomials⟩, ?_⟩
      rw [List.map_cons, List.prod_cons, value, Expr.number, Expr.rationalValue_power exponent]
      rfl

theorem juxtaposed_value : ∀ {factors : List Expr} {e : Expr}, e.Sound ctx →
    (∀ factor ∈ factors, factor.Sound ctx) →
    (factors.foldl Expr.juxtaposed e).Sound ctx ∧
      (factors.foldl Expr.juxtaposed e).rationalValue ρ =
        e.rationalValue ρ * (factors.map (rationalValue ρ)).prod
  | [], e, polynomial, _ => ⟨polynomial, by simp⟩
  | factor :: factors, e, polynomial, polynomials => by
    obtain ⟨head, others⟩ := List.forall_mem_cons.1 polynomials
    obtain ⟨polynomial', value⟩ := juxtaposed_value (.times polynomial head) others
    refine ⟨polynomial', value.trans ?_⟩
    rw [List.map_cons, List.prod_cons, ← mul_assoc]
    rfl

/-- A product with a coefficient that is not negative. -/
theorem product_value {magnitude : Decimal} {x : ℚ} {factors : List Expr}
    (coefficient : magnitude.toRat? = some x) (nonnegative : 0 ≤ x) (fits : Compact x)
    (polynomials : ∀ factor ∈ factors, factor.Sound ctx) :
    (product magnitude factors).Sound ctx ∧
      (product magnitude factors).rationalValue ρ = x * (factors.map (rationalValue ρ)).prod := by
  have number : (Expr.number magnitude).Sound ctx := .literal coefficient nonnegative fits
  have numberValue : (Expr.number magnitude).rationalValue ρ = x :=
    Expr.rationalValue_literal coefficient
  cases factors with
  | nil => exact ⟨number, by simpa [product] using numberValue⟩
  | cons factor factors =>
    obtain ⟨head, others⟩ := List.forall_mem_cons.1 polynomials
    obtain ⟨polynomial, value⟩ := juxtaposed_value (ρ := ρ) head others
    rw [List.map_cons, List.prod_cons, ← value, product]
    split
    next one =>
      rw [(Decimal.same_iff coefficient Decimal.toRat?_one).1 one, one_mul]
      exact ⟨polynomial, rfl⟩
    next => exact ⟨.times number polynomial, congrArg (· * _) numberValue⟩

/-- The tree of a monomial has its value. -/
theorem toExpr_value {m : Monomial} (sound : m.Sound ctx) :
    ∃ e, m.toExpr = .ok e ∧ e.Sound ctx ∧ e.rationalValue ρ = m.value ρ := by
  obtain ⟨x, xValue, fits⟩ := sound.coefficient
  obtain ⟨factors, done, polynomials, value⟩ := powerFactors_value (ρ := ρ) sound.powers
  obtain ⟨magnitude, magnitudeValue, tree⟩ := toExpr_exact xValue fits done
  have all : ∀ factor ∈ factors ++ m.others, factor.Sound ctx := by
    intro factor member
    rcases List.mem_append.1 member with left | right
    · exact polynomials factor left
    · exact sound.others factor right
  obtain ⟨polynomial, productValue⟩ :=
    product_value (ρ := ρ) magnitudeValue (abs_nonneg x) fits.abs all
  have part : ((factors ++ m.others).map (rationalValue ρ)).prod = m.part ρ := by
    rw [List.map_append, List.prod_append, value]
    rfl
  rw [part] at productValue
  rw [Monomial.value, Decimal.toRat_of_toRat? xValue]
  by_cases negative : x < 0
  · rw [if_pos negative] at tree
    refine ⟨_, tree, .unary polynomial, ?_⟩
    change -(product magnitude _).rationalValue ρ = _
    rw [productValue, abs_of_neg negative, neg_mul, neg_neg]
  · rw [if_neg negative] at tree
    refine ⟨_, tree, polynomial, ?_⟩
    rw [productValue, abs_of_nonneg (not_lt.1 negative)]

/-- A monomial is added to a tree or, if it is negative, its negation is taken away. -/
theorem addTerm_value {e : Expr} {m : Monomial} (polynomial : e.Sound ctx)
    (sound : m.Sound ctx) :
    ∃ e', (do
        if ← m.coefficient.less 0 then
          return Expr.binary .minus false e (← (← m.negate).toExpr)
        else return Expr.binary .plus false e (← m.toExpr) : Except Signal Expr) = .ok e' ∧
      e'.Sound ctx ∧ e'.rationalValue ρ = e.rationalValue ρ + m.value ρ := by
  obtain ⟨x, xValue, -⟩ := sound.coefficient
  rw [Decimal.less_eq xValue Decimal.toRat?_zero]
  by_cases negative : x < 0
  · obtain ⟨m', negated, sound', value⟩ := withSign_value (ρ := ρ) sound .negative
    obtain ⟨t, done, term, termValue⟩ := toExpr_value (ρ := ρ) sound'
    refine ⟨.binary .minus false e t, ?_, .minus polynomial term, ?_⟩
    · rw [decide_eq_true negative, show m.negate = _ from negated]
      change (do return Expr.binary .minus false e (← m'.toExpr)) = _
      rw [done]
      rfl
    · change e.rationalValue ρ - t.rationalValue ρ = _
      rw [termValue, value, Expr.signed, sub_neg_eq_add]
  · obtain ⟨t, done, term, termValue⟩ := toExpr_value (ρ := ρ) sound
    refine ⟨.binary .plus false e t, ?_, .plus polynomial term, ?_⟩
    · rw [decide_eq_false negative, done]
      rfl
    · change e.rationalValue ρ + t.rationalValue ρ = _
      rw [termValue]

theorem addTerms_value : ∀ {ms : List Monomial} {e : Expr}, e.Sound ctx →
    (∀ m ∈ ms, m.Sound ctx) →
    ∃ e', ms.foldlM (fun e m => do
        if ← m.coefficient.less 0 then
          return Expr.binary .minus false e (← (← m.negate).toExpr)
        else return Expr.binary .plus false e (← m.toExpr)) e = .ok e' ∧ e'.Sound ctx ∧
      e'.rationalValue ρ = e.rationalValue ρ + total ρ ms
  | [], e, polynomial, _ => ⟨e, rfl, polynomial, by simp [total]⟩
  | m :: ms, e, polynomial, sounds => by
    obtain ⟨head, others⟩ := List.forall_mem_cons.1 sounds
    obtain ⟨middle, added, polynomial', middleValue⟩ := addTerm_value (ρ := ρ) polynomial head
    obtain ⟨e', done, polynomial'', value⟩ := addTerms_value polynomial' others
    refine ⟨e', ?_, polynomial'', ?_⟩
    · rw [List.foldlM_cons, added]
      exact done
    · rw [value, middleValue, total_cons, add_assoc]

/-- The tree of a sum of monomials has its value. -/
theorem sum_value {ms : List Monomial} (sounds : ∀ m ∈ ms, m.Sound ctx) :
    ∃ e, sum ms = .ok e ∧ e.Sound ctx ∧ e.rationalValue ρ = total ρ ms := by
  cases ms with
  | nil =>
    refine ⟨.number 0, rfl, .literal Decimal.toRat?_zero le_rfl (representable_zero _), ?_⟩
    exact Expr.rationalValue_literal Decimal.toRat?_zero
  | cons first rest =>
    obtain ⟨head, others⟩ := List.forall_mem_cons.1 sounds
    obtain ⟨e, done, polynomial, value⟩ := toExpr_value (ρ := ρ) head
    obtain ⟨e', summed, polynomial', value'⟩ := addTerms_value (ρ := ρ) polynomial others
    refine ⟨e', ?_, polynomial', ?_⟩
    · rw [sum, done]
      exact summed
    · rw [value', value, total_cons]

end Monomial

end Reckon
