import Mathlib.Algebra.BigOperators.Fin
import Reckon.Linear.Solve
import Reckon.Proofs.Binary64.Text
import Reckon.Proofs.Expr.Meaning
import Reckon.Proofs.Form.Read

/-!
# The text of a polynomial is read as the polynomial

The text of a polynomial is made in one loop, without parentheses: a coefficient of one is left out
in front of a power, a product has no operator, and a first term that is negative begins with its
sign. Each term is the text of a form (`Form.termOf`) that binds like a product at least. The loop
keeps `IsSum`: what is written so far is read as the sum of the terms so far
(`IsSum.polynomialFrom`).

The decimals of finite doubles are shown as they are, so the text that is made of the coefficients
that belong to a matrix is read as the sum over those that are not below the tolerance.

Results: `exists_parse_polynomialText`, `Linear.value_parse_polynomialText`.
-/

namespace Reckon

variable {v : Vocabulary} {name : String} {ρ : String → ℚ}

/-! ## The form of a term -/

namespace Form

/-- The form behind a minus sign, if it is negative. -/
def withSign (negative : Bool) (f : Form) : Form :=
  if negative then .signed .negative f else f

/-- The power of a variable; the variable alone if the degree is one. -/
def powerOf (name : String) (degree : Nat) : Form :=
  if degree = 1 then .word name
  else .binary .power false (.word name) (.number (Decimal.numeral degree))

/-- A term of a polynomial: the sign binds to the coefficient, or to the power if the coefficient
is left out. -/
def termOf (negative : Bool) (name : String) (degree : Nat) (n : Numeral) : Form :=
  if degree = 0 then withSign negative (.number n)
  else if n.chars = ['1'] then withSign negative (powerOf name degree)
  else .binary .times true (withSign negative (.number n)) (powerOf name degree)

theorem chars_withSign (negative : Bool) (f : Form) :
    (withSign negative f).chars = Decimal.sign negative ++ f.chars := by
  cases negative <;> rfl

theorem wellFormed_withSign (negative : Bool) {f : Form} (wellFormed : f.WellFormed v)
    (tight : Binding.unary ≤ f.binding) :
    (withSign negative f).WellFormed v ∧ Binding.unary ≤ (withSign negative f).binding := by
  cases negative with
  | false => exact ⟨wellFormed, tight⟩
  | true => exact ⟨⟨wellFormed, tight⟩, le_rfl⟩

theorem value_withSign (negative : Bool) (f : Form) :
    (withSign negative f).tree.value .rational ρ =
      if negative then -f.tree.value .rational ρ else f.tree.value .rational ρ := by
  cases negative <;> rfl

theorem chars_powerOf (name : String) (degree : Nat) :
    (powerOf name degree).chars =
      name.toList ++ (if degree = 1 then "" else "^" ++ toString degree).toList := by
  unfold powerOf
  split
  next => simp [chars]
  next =>
    simp [chars, Numeral.chars, Decimal.numeral]
    rfl

theorem wellFormed_powerOf (word : (Form.word name).WellFormed v) (degree : Nat) :
    (powerOf name degree).WellFormed v ∧ Binding.unary ≤ (powerOf name degree).binding := by
  have tight : Binding.unary ≤ Operator.power.binding := by decide
  unfold powerOf
  split
  · exact ⟨word, tight.trans (lt_atom .power).le⟩
  · exact ⟨⟨word, trivial, leftBinding_le_of_lt (lt_atom .power),
      rightBinding_le_of_lt (lt_atom .power), nofun⟩, tight⟩

theorem first_powerOf (name : String) (degree : Nat) : (powerOf name degree).first = .name := by
  unfold powerOf
  split <;> rfl

theorem value_powerOf (name : String) (degree : Nat) :
    (powerOf name degree).tree.value .rational ρ = ρ name ^ degree := by
  unfold powerOf
  split
  next one =>
    rw [one, pow_one]
    rfl
  next =>
    have exponent : (Decimal.numeral degree).decimal.toRat = degree := by
      rw [Decimal.decimal_numeral, Decimal.toRat_of_toRat? (Decimal.toRat?_nat degree)]
    change Interpretation.rational.power (ρ name) (Decimal.numeral degree).decimal.toRat = _
    rw [exponent, Interpretation.rational_power_nat]

/-- A coefficient that is written as a one is one. -/
theorem toRat_of_chars_one {n : Numeral} (one : n.chars = ['1']) : n.decimal.toRat = 1 := by
  have read : Decimal.readNumeral? n.chars = some n.decimal := n.spells.read
  have single : Decimal.readNumeral? ['1'] = some (.finite false 1 0) := by rfl
  rw [one, single, Option.some.injEq] at read
  rw [← read, Decimal.toRat_of_toRat? (Decimal.toRat?_nat 1), Nat.cast_one]

variable {n : Numeral}

theorem chars_termOf (negative : Bool) (name : String) (degree : Nat) {c : Decimal}
    (plain : c.plain = String.ofList n.chars) :
    (termOf negative name degree n).chars =
      Decimal.sign negative ++ (powerTerm name degree c).toList := by
  have one : String.ofList n.chars = "1" ↔ n.chars = ['1'] := by
    rw [← String.toList_inj, String.toList_ofList]
    rfl
  unfold termOf powerTerm
  dsimp only
  rw [plain]
  split
  next => rw [chars_withSign, chars, String.toList_ofList]
  next =>
    split
    next omitted =>
      have left_out : (String.ofList n.chars == "1") = true := beq_iff_eq.2 (one.2 omitted)
      simp [chars_withSign, chars_powerOf, left_out]
    next written =>
      have kept : (String.ofList n.chars == "1") = false :=
        beq_eq_false_iff_ne.2 fun same => written (one.1 same)
      simp [chars, chars_withSign, chars_powerOf, kept]

theorem wellFormed_termOf (negative : Bool) (word : (Form.word name).WellFormed v) (degree : Nat)
    (n : Numeral) : (termOf negative name degree n).WellFormed v ∧
      Operator.times.binding ≤ (termOf negative name degree n).binding := by
  have number := wellFormed_withSign (v := v) (f := .number n) negative trivial
    (by change Binding.unary ≤ Binding.atom; decide)
  have power := wellFormed_powerOf word degree
  have signed := wellFormed_withSign negative power.1 power.2
  have tight : Operator.times.binding ≤ Binding.unary := by decide
  unfold termOf
  split
  · exact ⟨number.1, tight.trans number.2⟩
  split
  · exact ⟨signed.1, tight.trans signed.2⟩
  · refine ⟨⟨number.1, power.1, tight.trans number.2, power.2, fun _ => ⟨rfl, ?_⟩⟩, le_rfl⟩
    rw [first_powerOf]
    cases negative <;> rfl

theorem value_termOf (negative : Bool) (name : String) (degree : Nat) (n : Numeral) :
    (termOf negative name degree n).tree.value .rational ρ =
      (if negative then -n.decimal.toRat else n.decimal.toRat) * ρ name ^ degree := by
  have number : (Form.number n).tree.value .rational ρ = n.decimal.toRat := rfl
  unfold termOf
  split
  next constant => rw [value_withSign, number, constant, pow_zero, mul_one]
  split
  next omitted =>
    rw [value_withSign, value_powerOf, toRat_of_chars_one omitted]
    cases negative <;> simp
  next =>
    change Expr.value .rational ρ (withSign negative _).tree * Expr.value .rational ρ _ = _
    rw [value_withSign, value_powerOf, number]

end Form

/-! ## The form of a polynomial -/

/-- The decimal is a number that its text does not round. -/
def Decimal.IsShown (c : Decimal) : Prop :=
  ∃ q, c.toRat? = some q ∧ Representable Decimal.exactDigits q

/-- The magnitude of a coefficient is shown as a numeral. -/
theorem Decimal.IsShown.exists_numeral {c : Decimal} (shown : c.IsShown) : ∃ n : Numeral,
    (if c.isNegative then c.flip else c).plain = String.ofList n.chars ∧
      (if c.isNegative then -n.decimal.toRat else n.decimal.toRat) = c.toRat := by
  obtain ⟨q, value, fits⟩ := shown
  rw [toRat_of_toRat? value]
  by_cases negative : c.isNegative = true
  · have below := (isNegative_iff value).1 negative
    obtain ⟨n, magnitude, plain⟩ := Decimal.exists_numeral (toRat?_flip value) fits.neg
    rw [abs_neg, abs_of_neg below] at magnitude
    rw [if_neg (by linarith)] at plain
    exact ⟨n, by rw [if_pos negative, plain],
      by rw [if_pos negative, toRat_of_toRat? magnitude, neg_neg]⟩
  · have above : 0 ≤ q := not_lt.1 fun below => negative ((isNegative_iff value).2 below)
    obtain ⟨n, magnitude, plain⟩ := Decimal.exists_numeral value fits
    rw [abs_of_nonneg above] at magnitude
    rw [if_neg above.not_gt] at plain
    exact ⟨n, by rw [if_neg negative, plain], by rw [if_neg negative, toRat_of_toRat? magnitude]⟩

/-- The text is that of a form to which terms can be added, and this is its value. -/
def IsSum (v : Vocabulary) (ρ : String → ℚ) (text : String) (q : ℚ) : Prop :=
  ∃ f : Form, text = String.ofList f.chars ∧ f.WellFormed v ∧ Binding.additive ≤ f.binding ∧
    f.tree.value .rational ρ = q

variable {text : String} {y : ℚ} {c : Decimal} {terms : List (Nat × Decimal)}

theorem IsSum.exists_parse (sum : IsSum v ρ text y) :
    ∃ e, parse v text = .ok e ∧ e.value .rational ρ = y := by
  obtain ⟨f, rfl, wellFormed, -, value⟩ := sum
  exact ⟨f.tree, Form.parse_chars wellFormed, value⟩

theorem IsSum.isEmpty (sum : IsSum v ρ text y) : text.isEmpty = false := by
  obtain ⟨f, rfl, wellFormed, -⟩ := sum
  obtain ⟨c, cs, shape, -⟩ := Form.exists_chars wellFormed.readable
  rw [shape, Bool.eq_false_iff, Ne, String.isEmpty_iff, ← String.toList_inj, String.toList_ofList]
  exact List.cons_ne_nil c cs

/-- The first term has a sign only if it is negative. -/
theorem isSum_term (word : (Form.word name).WellFormed v) (degree : Nat) (shown : c.IsShown) :
    IsSum v ρ ((if c.isNegative then "-" else "") ++
      powerTerm name degree (if c.isNegative then c.flip else c)) (c.toRat * ρ name ^ degree) := by
  obtain ⟨n, plain, value⟩ := shown.exists_numeral
  obtain ⟨wellFormed, tight⟩ := Form.wellFormed_termOf c.isNegative word degree n
  refine ⟨.termOf c.isNegative name degree n, ?_, wellFormed,
    (by decide : Binding.additive ≤ Operator.times.binding).trans tight, ?_⟩
  · rw [Form.chars_termOf _ name degree plain, ← String.toList_inj, String.toList_ofList,
      String.toList_append]
    cases c.isNegative <;> rfl
  · rw [Form.value_termOf, value]

/-- A form that binds like a product can be added to a sum or taken away from it. -/
theorem IsSum.append (sum : IsSum v ρ text y) (negative : Bool) {f : Form}
    (wellFormed : f.WellFormed v) (tight : Operator.times.binding ≤ f.binding) :
    IsSum v ρ (text ++ (if negative then "-" else "+") ++ String.ofList f.chars)
      (y + if negative then -f.tree.value .rational ρ else f.tree.value .rational ρ) := by
  obtain ⟨g, rfl, before, loose, rfl⟩ := sum
  cases negative with
  | true =>
    refine ⟨.binary .minus false g f, ?_, ⟨before, wellFormed, loose, tight, nofun⟩, le_rfl,
      sub_eq_add_neg _ _⟩
    simp [Form.chars, ← String.toList_inj, Operator.symbol]
  | false =>
    refine ⟨.binary .plus false g f, ?_, ⟨before, wellFormed, loose, tight, nofun⟩, le_rfl, rfl⟩
    simp [Form.chars, ← String.toList_inj, Operator.symbol]

/-- A further term has a sign in front of its magnitude. -/
theorem IsSum.append_term (sum : IsSum v ρ text y) (word : (Form.word name).WellFormed v)
    (degree : Nat) (shown : c.IsShown) :
    IsSum v ρ (text ++ (if c.isNegative then "-" else "+") ++
      powerTerm name degree (if c.isNegative then c.flip else c))
      (y + c.toRat * ρ name ^ degree) := by
  obtain ⟨n, plain, value⟩ := shown.exists_numeral
  obtain ⟨wellFormed, tight⟩ := Form.wellFormed_termOf false word degree n
  have appended := sum.append c.isNegative wellFormed tight
  rw [Form.chars_termOf false name degree plain, Form.value_termOf] at appended
  rw [← value]
  convert appended using 1
  · simp [Decimal.sign]
  · cases c.isNegative <;> simp

/-- The loop keeps the sum. -/
theorem IsSum.polynomialFrom (word : (Form.word name).WellFormed v) :
    ∀ {terms : List (Nat × Decimal)} {text : String} {y : ℚ}, IsSum v ρ text y →
      (∀ t ∈ terms, t.2.IsShown) → IsSum v ρ (polynomialFrom name text terms)
        (y + (terms.map fun (k, c) => c.toRat * ρ name ^ k).sum)
  | [], text, y, sum, _ => by
    rw [List.map_nil, List.sum_nil, add_zero]
    exact sum
  | (degree, c) :: rest, text, y, sum, shown => by
    have first := sum.append_term word degree (shown _ (.head _))
    have others := IsSum.polynomialFrom word first fun t member => shown t (.tail _ member)
    rw [List.map_cons, List.sum_cons, ← add_assoc]
    convert others using 1
    rw [Reckon.polynomialFrom, sum.isEmpty]
    split <;> rfl

/-- The text of a polynomial is read as the sum of its terms, whatever their order and their degrees
are. -/
theorem exists_parse_polynomialText (word : (Form.word name).WellFormed v)
    (shown : ∀ t ∈ terms, t.2.IsShown) :
    ∃ e, parse v (polynomialText name terms) = .ok e ∧
      e.value .rational ρ = (terms.map fun (k, c) => c.toRat * ρ name ^ k).sum := by
  cases terms with
  | nil =>
    have zero : IsSum v ρ "0" 0 := by
      refine ⟨.number (Decimal.numeral 0), by rfl, trivial, by decide, ?_⟩
      change (Decimal.numeral 0).decimal.toRat = 0
      rw [Decimal.decimal_numeral, Decimal.toRat_of_toRat? (Decimal.toRat?_nat 0), Nat.cast_zero]
    exact zero.exists_parse
  | cons t rest =>
    obtain ⟨degree, c⟩ := t
    obtain ⟨first, others⟩ := List.forall_mem_cons.1 shown
    have sum := (isSum_term (ρ := ρ) word degree first).polynomialFrom word others
    have same : polynomialFrom name "" ((degree, c) :: rest) = polynomialFrom name
        ((if c.isNegative then "-" else "") ++
          powerTerm name degree (if c.isNegative then c.flip else c)) rest := by
      rw [polynomialFrom]
      split <;> simp
    rw [polynomialText, same]
    dsimp only
    rw [sum.isEmpty]
    exact sum.exists_parse

/-! ## The coefficients that are shown -/

namespace Linear

variable {p : Params} {cs rounded : List Float}

theorem mapM_eq_ok {ε α β : Type} {f : α → Except ε β} {xs : List α} {ys : List β}
    (each : List.Forall₂ (fun x y => f x = .ok y) xs ys) : xs.mapM f = .ok ys := by
  induction each with
  | nil => rfl
  | cons first _ ih =>
    rw [List.mapM_cons, first, ih]
    rfl

/-- The degrees and the coefficients, the leading one first. -/
theorem zipIdx_reverse (cs : List Float) :
    cs.reverse.zipIdx.map (fun (c, i) => (cs.length - 1 - i, c)) =
      (List.ofFn fun k : Fin cs.length => ((k : Nat), cs.get k)).reverse := by
  refine List.ext_getElem (by simp) fun i first second => ?_
  simp

/-- The terms that are not left out. -/
def shownTerms (p : Params) (cs : List Float) : List (Nat × Decimal) :=
  ((List.ofFn fun k : Fin cs.length => ((k : Nat), cs.get k)).reverse.filter
    fun (_, c) => !negligible p.matrixEpsilon c).map
      fun (k, c) => (k, if c == 0 then 0 else Binary64.toDecimal c)

theorem shownCoefficients_reverse
    (round : List.Forall₂ (fun c r => roundEntry p.displayPlaces c = .ok r) cs rounded) :
    shownCoefficients p cs.reverse = .ok (shownTerms p rounded) := by
  have length : cs.reverse.length = rounded.length := by
    rw [List.length_reverse, round.length_eq]
  have all := mapM_eq_ok (List.rel_reverse round)
  unfold shownCoefficients shownTerms
  rw [all, length, ← zipIdx_reverse]
  rfl

/-- Zero is shown without its sign, which does not change its value. -/
theorem toRat_shown {c : Float} (isFinite : c.isFinite = true) :
    (if c == 0 then 0 else Binary64.toDecimal c : Decimal).toRat =
      (Binary64.toDecimal c).toRat := by
  obtain ⟨q, value, -, -, zero⟩ := Binary64.exists_toDecimal isFinite
  split
  next equal =>
    rw [Decimal.toRat_of_toRat? value, zero equal, Decimal.toRat_of_toRat? Decimal.toRat?_zero]
  next => rfl

theorem isShown_shownTerms (finite : ∀ c ∈ cs, c.isFinite = true) :
    ∀ t ∈ shownTerms p cs, t.2.IsShown := by
  intro t member
  obtain ⟨⟨k, c⟩, kept, rfl⟩ := List.mem_map.1 member
  have inside := List.mem_reverse.1 (List.mem_filter.1 kept).1
  obtain ⟨i, same⟩ := List.mem_ofFn.1 inside
  obtain ⟨-, rfl⟩ := Prod.mk.inj same
  obtain ⟨q, value, fits, -⟩ := Binary64.exists_toDecimal (finite _ (List.getElem_mem i.isLt))
  dsimp only
  split
  · exact ⟨0, Decimal.toRat?_zero, representable_zero _⟩
  · exact ⟨q, value, fits⟩

theorem sum_filter {α : Type} (keep : α → Bool) (f : α → ℚ) (xs : List α) :
    ((xs.filter keep).map f).sum = (xs.map fun a => if keep a then f a else 0).sum := by
  simpa using (List.sum_map_ite (fun a => keep a = true) f (fun _ => 0) xs).symm

theorem sum_shownTerms (finite : ∀ c ∈ cs, c.isFinite = true) (x : ℚ) :
    ((shownTerms p cs).map fun (k, c) => c.toRat * x ^ k).sum =
      ∑ k : Fin cs.length, if (cs.get k).abs < p.matrixEpsilon then 0
        else (Binary64.toDecimal (cs.get k)).toRat * x ^ (k : ℕ) := by
  rw [shownTerms, List.map_map, sum_filter, List.map_reverse, List.sum_reverse, List.map_ofFn,
    List.sum_ofFn]
  refine Finset.sum_congr rfl fun k _ => ?_
  simp only [Function.comp_apply, negligible, Bool.not_eq_true', decide_eq_false_iff_not, ite_not]
  split
  · rfl
  · exact congrArg (· * x ^ (k : ℕ)) (toRat_shown (finite _ (List.getElem_mem k.isLt)))

/-- The decimal of a coefficient stands for it. -/
theorem withinHalfUnit_toDecimal {c : Float} (isFinite : c.isFinite = true) :
    Binary64.WithinHalfUnit c (Binary64.toDecimal c).toRat := by
  obtain ⟨q, value, -, close, -⟩ := Binary64.exists_toDecimal isFinite
  rwa [Decimal.toRat_of_toRat? value]

/-- The coefficients `cs` of a polynomial, the constant one first, are rounded to the places that
are shown; those that are rounded already are not changed by that. Each of them has a decimal that
stands for it. If the variable is a letter that is no function, the text is read as a tree whose
value at every point is the sum of the terms with a coefficient that is not below the tolerance. -/
theorem value_parse_polynomialText {letter : Char} (isName : isNameChar letter = true)
    (noFunction : v.isFunction letter.toString = false)
    (round : List.Forall₂ (fun c r => roundEntry p.displayPlaces c = .ok r) cs rounded)
    (finite : ∀ c ∈ rounded, c.isFinite = true) (ρ : String → ℚ) :
    (∀ c ∈ rounded, Binary64.WithinHalfUnit c (Binary64.toDecimal c).toRat) ∧
      ∃ terms e, shownCoefficients p cs.reverse = .ok terms ∧
        parse v (polynomialText letter.toString terms) = .ok e ∧
        e.value .rational ρ = ∑ k : Fin rounded.length,
          if (rounded.get k).abs < p.matrixEpsilon then 0
          else (Binary64.toDecimal (rounded.get k)).toRat * ρ letter.toString ^ (k : ℕ) := by
  have word : (Form.word letter.toString).WellFormed v := by
    refine ⟨⟨by simp, ?_⟩, .inr (by simp), fun isFunction => ?_⟩
    · simpa using isName
    · rw [noFunction] at isFunction
      cases isFunction
  obtain ⟨e, read, value⟩ :=
    exists_parse_polynomialText (ρ := ρ) word (isShown_shownTerms (p := p) finite)
  exact ⟨fun c member => withinHalfUnit_toDecimal (finite c member), _, e,
    shownCoefficients_reverse round, read, value.trans (sum_shownTerms finite _)⟩

/-- The polynomial `-3x^3+x-2.5`, in which a coefficient is rounded to zero, at two. -/
theorem value_parse_polynomialText_cubic :
    List.Forall₂ (fun c r => roundEntry ({} : Params).displayPlaces c = .ok r)
        [-2.5, 1, 0.000004, -3] [-2.5, 1, 0, -3] ∧
      ∃ terms e, shownCoefficients {} [-3, 0.000004, 1, -2.5] = .ok terms ∧
        parse Context.initial.vocabulary (polynomialText "x" terms) = .ok e ∧
        e.value .rational (fun _ => 2) = -24.5 := by
  have round : List.Forall₂ (fun c r => roundEntry ({} : Params).displayPlaces c = .ok r)
      [-2.5, 1, 0.000004, -3] [-2.5, 1, 0, -3] :=
    .cons rfl (.cons rfl (.cons rfl (.cons rfl .nil)))
  have finite : ∀ c ∈ ([-2.5, 1, 0, -3] : List Float), c.isFinite = true :=
    List.all_eq_true.1 (by decide +kernel)
  obtain ⟨-, terms, e, shown, read, value⟩ :=
    value_parse_polynomialText (v := Context.initial.vocabulary)
      (by decide : isNameChar 'x' = true) (by decide +kernel) round finite fun _ => 2
  refine ⟨round, terms, e, shown, read, value.trans ?_⟩
  have constant : Binary64.toDecimal (-2.5) = .finite true 25 (-1) := by decide +kernel
  have linear : Binary64.toDecimal 1 = .finite false 10 (-1) := by decide +kernel
  have cubic : Binary64.toDecimal (-3) = .finite true 30 (-1) := by decide +kernel
  change ∑ k : Fin 4, _ = _
  rw [Fin.sum_univ_four, if_neg (by decide +kernel), if_neg (by decide +kernel),
    if_pos (by decide +kernel), if_neg (by decide +kernel)]
  change (Binary64.toDecimal (-2.5)).toRat * _ + (Binary64.toDecimal 1).toRat * _ + 0 +
    (Binary64.toDecimal (-3)).toRat * _ = _
  rw [constant, linear, cubic]
  norm_num [Decimal.toRat, Decimal.toRat?]

example : (shownCoefficients {} [-3, 0.000004, 1, -2.5]).toOption.map (polynomialText "x") =
    some "-3x^3+x-2.5" := by
  decide +kernel

end Linear

end Reckon
