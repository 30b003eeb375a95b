import Reckon.Proofs.Request.Answer
import Reckon.Proofs.Request.Supply

/-!
# Values that are given later

A polynomial can be evaluated to a text first and the text be evaluated where its letters have
values, or the polynomial can be evaluated there at once. The answers are the same as long as no
number is rounded, unless the text without its parentheses is taken for a number
(`evaluate_text_supplied`). That can happen: `(2E+5)` becomes `2E+5`, which is also a way to write
two hundred thousand (`evaluate_text_misread`).
-/

namespace Reckon

open Calc Context

/-- Every variable of the tree gets a finite number, and only letters get one. -/
structure Assigns (ρ : List (String × Decimal)) (e : Expr) : Prop where
  covers : ∀ name, e.Occurs name → name ∈ ρ.map Prod.fst
  letters : ∀ name ∈ ρ.map Prod.fst, name.toList.length = 1
  finite : ∀ entry ∈ ρ, ∃ q, entry.2.toRat? = some q

theorem assigns_single {name : String} {n : Decimal} {q : ℚ} {e : Expr}
    (letter : name.toList.length = 1) (value : n.toRat? = some q)
    (only : ∀ x, e.Occurs x → x = name) : Assigns [(name, n)] e where
  covers x occurs := by
    rw [only x occurs]
    exact .head _
  letters x member := by rwa [List.mem_singleton.1 member]
  finite entry member := by
    rw [List.mem_singleton.1 member]
    exact ⟨q, value⟩

theorem Assigns.isSupplied {ctx : Context} {ρ : List (String × Decimal)} {e e' : Expr}
    (assigns : Assigns ρ e) (default : ctx.IsDefault)
    (names : ∀ name, e'.Occurs name → e.Occurs name) : e'.IsSupplied (ctx.supply ρ) := by
  intro name occurs
  refine ⟨isBound_supply (assigns.covers name (names name occurs)), fun t found => ?_⟩
  obtain ⟨n, member, rfl⟩ := mem_of_lookupVariable_supply default found
  obtain ⟨q, value⟩ := assigns.finite (name, n) member
  exact ⟨n, q, rfl, value⟩

/-- A request with values for the letters of a polynomial is answered by the value. -/
theorem exists_evaluateWith {ctx : Context} {ρ : List (String × Decimal)} {source : String}
    {e : Expr} (default : ctx.IsDefault) (settings : ctx.params = {})
    (letters : ∀ name ∈ ρ.map Prod.fst, name.toList.length = 1)
    (read : ctx.read source [] = .ok e) (polynomial : e.IsPolynomial)
    (given : e.IsSupplied (ctx.supply ρ)) (exact : e.ExactAnswer (ctx.supply ρ)) :
    Compact (e.rationalValue (ctx.supply ρ).valuation) ∧
      ∃ n, (evaluateWith (supplied ρ) source ctx).1 = .ok (.numeric n) ∧
        n.toRat? = some (settled (e.rationalValue (ctx.supply ρ).valuation)) := by
  rw [← params_supply ctx ρ] at settings
  obtain ⟨fits, n, answer, value⟩ := exact.exists_answer polynomial settings given
  refine ⟨fits, n, ?_, value⟩
  have read' := read_supply default letters read polynomial.isArithmetic
  rw [evaluateWith_supplied, Expr.evaluate_of_read read', answer]

/-- Evaluating a polynomial and then its text with values for the letters gives what evaluating it
with these values gives. -/
theorem evaluate_text_supplied {ctx : Context} {ρ : List (String × Decimal)} {source : String}
    {e : Expr} {t : Term} (default : ctx.IsDefault) (settings : ctx.params = {})
    (read : ctx.read source [] = .ok e) (polynomial : e.IsPolynomial) (letters : e.HasLetters)
    (assigns : Assigns ρ e) (done : (evaluate source ctx).1 = .ok t)
    (exactText : e.ExactText ctx) (kept : e.KeepsText ctx)
    (exact : e.ExactAnswer (ctx.supply ρ))
    (exactAgain : ∀ e', ctx.read t.text [] = .ok e' → e'.ExactAnswer (ctx.supply ρ)) :
    ∃ a b, (evaluateWith (supplied ρ) t.text ctx).1 = .ok a ∧
      (evaluateWith (supplied ρ) source ctx).1 = .ok b ∧ a.same b = true := by
  obtain ⟨fits, n, atOnce, nValue⟩ := exists_evaluateWith default settings assigns.letters read
    polynomial (assigns.isSupplied default fun _ occurs => occurs) exact
  rw [Expr.evaluate_of_read read] at done
  -- the text is read as another polynomial, which has the same value
  obtain ⟨e', read', polynomial', names, same⟩ :=
    exactText.exists_read kept polynomial letters default settings done fits
  obtain ⟨-, m, later, mValue⟩ := exists_evaluateWith default settings assigns.letters read'
    polynomial' (assigns.isSupplied default names) (exactAgain e' read')
  rw [same] at mValue
  exact ⟨_, _, later, atOnce, (Decimal.same_iff mValue nValue).2 rfl⟩

theorem read_form {f : Form} (wellFormed : f.WellFormed Context.initial.vocabulary) :
    Context.initial.read (String.ofList f.chars) [] = .ok f.tree :=
  read_eq_ok.2 (Form.parse_chars wellFormed)

/-- A numeral of one digit. -/
def Numeral.digit (c : Char) (isDigit : c.isDigit = true) : Numeral where
  whole := [c]
  fraction := []
  nonempty := List.cons_ne_nil _ _
  wholeDigits := List.forall_mem_singleton.2 isDigit
  fractionDigits _ member := absurd member List.not_mem_nil

/-! ## The square of a letter -/

namespace Expr

/-- `x*x` -/
def letterSquare : Expr :=
  .binary .times false (.var "x") (.var "x")

/-- `x^2`, as it is written or as a result. -/
def secondPower (written : Bool) : Expr :=
  .binary .power false (.var "x") (.literal 2 written)

/-- The context where `x` is 3. -/
def threeContext : Context :=
  Context.initial.supply [("x", 3)]

theorem wellFormed_x : (Form.word "x").WellFormed Context.initial.vocabulary :=
  wellFormed_letter (c := 'x') rfl (Text.isLetter_of_isAlpha rfl)

theorem read_letterSquare : Context.initial.read "x*x" [] = .ok letterSquare :=
  read_form (f := .binary .times false (.word "x") (.word "x"))
    ⟨wellFormed_x, wellFormed_x, by decide, by decide, nofun⟩

theorem read_secondPower : Context.initial.read "x^2" [] = .ok (secondPower true) :=
  read_form (f := .binary .power false (.word "x") (.number (.digit '2' rfl)))
    ⟨wellFormed_x, trivial, by decide, by decide, nofun⟩

theorem simplify_letterSquare :
    letterSquare.simplify Context.initial = (.ok (secondPower false), Context.initial) := by
  with_unfolding_all rfl

theorem rationalValue_x : (Expr.var "x").rationalValue threeContext.valuation = (3 : Nat) := by
  have found : threeContext.lookupVariable "x" = some (.numeric 3) := by with_unfolding_all rfl
  rw [rationalValue, Expr.value, Context.valuation_of_numeric found,
    Decimal.toRat_of_toRat? (Decimal.toRat?_ofNat 3)]

theorem rationalValue_two (written : Bool) {ρ : String → ℚ} :
    (Expr.literal 2 written).rationalValue ρ = (2 : Nat) :=
  rationalValue_literal (Decimal.toRat?_ofNat 2)

theorem rationalValue_secondPower (written : Bool) :
    (secondPower written).rationalValue threeContext.valuation = (9 : Nat) := by
  rw [secondPower, rationalValue_power (Decimal.toRat?_ofNat 2), rationalValue_x]
  norm_num

/-- Only the letter and its product with itself arise. -/
theorem compact_letterSquare {ctx : Context} {m p : Monomial}
    (letter : ((Expr.var "x").monomial ctx).1 = .ok m)
    (multiplied : (products [(.positive, .var "x")] [(.positive, .var "x")] ctx).1 = .ok [p])
    (single : AllCompact ((Expr.var "x").monomialNumbers ctx))
    (product : AllCompact (m.mulNumbers m)) : AllCompact (letterSquare.expandNumbers ctx) := by
  rintro q ((none | none) | ⟨l, r, left, right, inProduct⟩)
  · cases none
  · cases none
  obtain rfl := Except.ok.inj left
  obtain rfl := Except.ok.inj right
  exact compact_productNumbers_var letter multiplied single product q inProduct

theorem exactText_letterSquare : letterSquare.ExactText Context.initial where
  simplifying := by
    have letter : ((Expr.var "x").monomial Context.initial).1 = .ok (.ofPower "x" 1) := by
      with_unfolding_all rfl
    have multiplied : (products [(.positive, .var "x")] [(.positive, .var "x")]
        Context.initial).1 = .ok [⟨1, [("x", 2)], []⟩] := by with_unfolding_all rfl
    have isOpen : (Expr.var "x").isClosed Context.initial = false := by with_unfolding_all rfl
    rw [simplifyNumbers, allCompact_union, allCompact_union]
    refine ⟨⟨?_, compact_letterSquare letter multiplied ?_ (compact_mulNumbers_var "x")⟩, ?_⟩
    · rintro q (none | none) <;> cases none
    · intro q none
      simp [monomialNumbers, isOpen] at none
    · rintro q ⟨e, done, none⟩
      have expanded : (letterSquare.expand Context.initial).1 = .ok (secondPower false) := by
        with_unfolding_all rfl
      obtain rfl := Except.ok.inj (expanded.symm.trans done)
      rcases none with none | none <;> cases none
  evaluating e ctx done := by
    obtain ⟨same, rfl⟩ := Prod.mk.inj (simplify_letterSquare.symm.trans done)
    obtain rfl := Except.ok.inj same
    have visited : ∀ s c, Visits (secondPower false) Context.initial s c →
        s.ExactIn Interpretation.rational c ∧ s.WritableIn c := by
      intro s c visits
      cases visits with
      | itself =>
        have result : ((secondPower false).eval Context.initial).1 =
            .ok (.symbolic "x^2" (some Binding.exponent)) := by decide +kernel
        exact ⟨exactIn_symbolic result, writableIn_symbolic result⟩
      | left visits =>
        cases visits with
        | itself =>
          have result : ((Expr.var "x").eval Context.initial).1 = .ok (.symbolic "x" none) := by
            decide +kernel
          exact ⟨exactIn_symbolic result, writableIn_symbolic result⟩
      | right visits =>
        cases visits with
        | itself =>
          have result : ∀ ctx, ((Expr.literal 2 false).eval ctx).1 = .ok (.numeric 2) :=
            fun _ => rfl
          have short : HasDigits 1 ((2 : Nat) : ℚ) := hasDigits_nat (by decide)
          exact ⟨exactIn_numeric (result _) (Decimal.toRat?_ofNat 2) trivial
            (show 1 ≤ 10 by decide) short,
            writableIn_numeric (result _) (Decimal.toRat?_ofNat 2)
              (Compact.exact (compact_nat (by decide)))⟩
    exact ⟨fun s c visits => (visited s c visits).1, fun s c visits => (visited s c visits).2⟩

theorem keepsText_letterSquare : letterSquare.KeepsText Context.initial := by
  intro e t ctx ctx' simplified evaluated
  obtain ⟨same, rfl⟩ := Prod.mk.inj (simplify_letterSquare.symm.trans simplified)
  obtain rfl := Except.ok.inj same
  have result : ((secondPower false).eval Context.initial).1 =
      .ok (.symbolic "x^2" (some Binding.exponent)) := by decide +kernel
  rw [evaluated] at result
  obtain rfl := Except.ok.inj result
  decide +kernel

theorem hasDigits_nine : HasDigits threeContext.params.precision ((9 : Nat) : ℚ) :=
  hasDigits_nat (by decide)

theorem exactAnswer_letterSquare : letterSquare.ExactAnswer threeContext where
  simplifying := by
    have letter : ((Expr.var "x").monomial threeContext).1 = .ok (.ofNumber 3) := by
      with_unfolding_all rfl
    have multiplied : (products [(.positive, .var "x")] [(.positive, .var "x")]
        threeContext).1 = .ok [.ofNumber 9] := by with_unfolding_all rfl
    have three : (3 : Decimal).toRat = (3 : Nat) :=
      Decimal.toRat_of_toRat? (Decimal.toRat?_ofNat 3)
    rw [simplifyNumbers, allCompact_union, allCompact_union]
    refine ⟨⟨?_, compact_letterSquare letter multiplied ?_ ?_⟩, ?_⟩
    · rintro q (none | none) <;> cases none
    · intro q member
      rw [monomialNumbers_closed (by with_unfolding_all rfl)] at member
      obtain rfl := Set.mem_singleton_iff.1 member
      rw [rationalValue_x]
      exact compact_nat (by decide)
    · rintro q (rfl | none)
      · change Compact ((3 : Decimal).toRat * (3 : Decimal).toRat)
        rw [three, ← Nat.cast_mul]
        exact compact_nat (by decide)
      · cases none
    · rintro q ⟨e, done, none⟩
      have expanded : (letterSquare.expand threeContext).1 = .ok (.number 9) := by
        with_unfolding_all rfl
      obtain rfl := Except.ok.inj (expanded.symm.trans done)
      cases none
  evaluating e done := by
    have simplified : (letterSquare.simplify threeContext).1 = .ok (.number 9) := by
      with_unfolding_all rfl
    obtain rfl := Except.ok.inj (simplified.symm.trans done)
    rintro q rfl
    rw [number, rationalValue_literal (Decimal.toRat?_ofNat 9)]
    exact compact_nat (by decide)
  rounding := by
    have value : letterSquare.rationalValue threeContext.valuation = (9 : Nat) := by
      change (Expr.var "x").rationalValue _ * (Expr.var "x").rationalValue _ = _
      rw [rationalValue_x]
      norm_num
    rw [value]
    exact hasDigits_nine

theorem exactAnswer_secondPower : (secondPower true).ExactAnswer threeContext where
  simplifying := by
    rw [simplifyNumbers, allCompact_union, allCompact_union]
    refine ⟨⟨?_, ?_⟩, ?_⟩
    · rintro q (none | rfl)
      · cases none
      · rw [Decimal.toRat_of_toRat? (Decimal.toRat?_ofNat 2)]
        exact compact_nat (by decide)
    · rintro q (none | none) <;> cases none
    · rintro q ⟨e, done, none⟩
      have expanded : ((secondPower true).expand threeContext).1 = .ok (secondPower true) := by
        with_unfolding_all rfl
      obtain rfl := Except.ok.inj (expanded.symm.trans done)
      rcases none with none | none <;> cases none
  evaluating e done := by
    have simplified : ((secondPower true).simplify threeContext).1 = .ok (secondPower true) := by
      with_unfolding_all rfl
    obtain rfl := Except.ok.inj (simplified.symm.trans done)
    rintro q (rfl | rfl | rfl)
    · rw [show Expr.binary .power false (.var "x") (.literal 2 true) = secondPower true from rfl,
        rationalValue_secondPower]
      exact compact_nat (by decide)
    · rw [rationalValue_x]
      exact compact_nat (by decide)
    · rw [rationalValue_two]
      exact compact_nat (by decide)
  rounding := by
    rw [rationalValue_secondPower]
    exact hasDigits_nine

/-- The square of a letter is the same, whether the letter is 3 from the start or later. -/
theorem evaluate_square_supplied :
    letterSquare.IsPolynomial ∧ (evaluate "x*x" Context.initial).1 =
      .ok (.symbolic "x^2" (some Binding.exponent)) ∧
    ∃ a b, (evaluateWith (supplied [("x", 3)]) "x^2" Context.initial).1 = .ok a ∧
      (evaluateWith (supplied [("x", 3)]) "x*x" Context.initial).1 = .ok b ∧ a.same b = true := by
  have letter : (Expr.var "x").IsPolynomial := .var (c := 'x') rfl (isNameChar_of_isAlpha rfl)
  have polynomial : letterSquare.IsPolynomial := letter.times letter
  have letters : letterSquare.HasLetters := by
    rintro name (rfl | rfl) <;> exact ⟨'x', rfl, Text.isLetter_of_isAlpha rfl⟩
  have assigns : Assigns [("x", 3)] letterSquare := by
    refine assigns_single rfl (Decimal.toRat?_ofNat 3) ?_
    rintro name (rfl | rfl) <;> rfl
  have done : (evaluate "x*x" Context.initial).1 =
      .ok (.symbolic "x^2" (some Binding.exponent)) := by decide +kernel
  refine ⟨polynomial, done, ?_⟩
  refine evaluate_text_supplied (t := .symbolic "x^2" (some Binding.exponent)) ⟨rfl, rfl⟩ rfl
    read_letterSquare polynomial letters assigns done exactText_letterSquare keepsText_letterSquare
    exactAnswer_letterSquare fun e read => ?_
  obtain rfl := Except.ok.inj (read_secondPower.symm.trans read)
  exact exactAnswer_secondPower

end Expr

/-! ## A text that is taken for a number -/

namespace Form

/-- The form with zeros added to it. -/
def padded (f : Form) : (zeros : Nat) → Form
  | 0 => f
  | n + 1 => .binary .plus false (f.padded n) (.number (.digit '0' rfl))

theorem wellFormed_padded {v : Vocabulary} {f : Form} (wellFormed : f.WellFormed v)
    (tight : Binding.additive ≤ f.binding) (zeros : Nat) :
    (f.padded zeros).WellFormed v ∧ Binding.additive ≤ (f.padded zeros).binding := by
  induction zeros with
  | zero => exact ⟨wellFormed, tight⟩
  | succ n ih => exact ⟨⟨ih.1, trivial, ih.2, by decide, nofun⟩, le_rfl⟩

theorem isPolynomial_padded {f : Form} (polynomial : f.tree.IsPolynomial) (zeros : Nat) :
    (f.padded zeros).tree.IsPolynomial := by
  induction zeros with
  | zero => exact polynomial
  | succ n ih => exact ih.plus (.literal (Decimal.toRat?_ofNat 0) (Nat.cast_nonneg 0))

/-- `-1` -/
def minusOne : Form :=
  .signed .negative (.number (.digit '1' rfl))

/-- `E+E+5` -/
def linear : Form :=
  .binary .plus false (.binary .plus false (.word "E") (.word "E")) (.number (.digit '5' rfl))

/-- `-1` times `E+E+5`, with zeros added to the factors -/
def opposite : Form :=
  .binary .times true (.paren (minusOne.padded 16)) (.paren (linear.padded 13))

/-- `-1` times `-1` times `E+E+5`; because of the zeros no product is multiplied out. -/
def misread : Form :=
  .binary .times true (.paren (minusOne.padded 16)) (.paren (opposite.padded 15))

theorem wellFormed_misread : misread.WellFormed Context.initial.vocabulary := by
  have letter : (Form.word "E").WellFormed Context.initial.vocabulary :=
    Expr.wellFormed_letter (c := 'E') rfl (Text.isLetter_of_isAlpha rfl)
  have one : minusOne.WellFormed Context.initial.vocabulary := ⟨trivial, by decide⟩
  have sum : linear.WellFormed Context.initial.vocabulary :=
    ⟨⟨letter, letter, by decide, by decide, nofun⟩, trivial, by decide, by decide, nofun⟩
  have padded := (wellFormed_padded one (by decide) 16).1
  have product : opposite.WellFormed Context.initial.vocabulary :=
    ⟨padded, (wellFormed_padded sum (by decide) 13).1, by decide, by decide,
      fun _ => ⟨rfl, rfl⟩⟩
  exact ⟨padded, (wellFormed_padded product (by decide) 15).1, by decide, by decide,
    fun _ => ⟨rfl, rfl⟩⟩

theorem isPolynomial_misread : misread.tree.IsPolynomial := by
  have letter : (Expr.var "E").IsPolynomial := .var (c := 'E') rfl (isNameChar_of_isAlpha rfl)
  have one : minusOne.tree.IsPolynomial :=
    .unary (.literal (Decimal.toRat?_ofNat 1) (Nat.cast_nonneg 1))
  have sum : linear.tree.IsPolynomial :=
    (letter.plus letter).plus (.literal (Decimal.toRat?_ofNat 5) (Nat.cast_nonneg 5))
  have product : opposite.tree.IsPolynomial :=
    (isPolynomial_padded one 16).times (isPolynomial_padded sum 13)
  exact (isPolynomial_padded one 16).times (isPolynomial_padded product 15)

/-- Twice `E` and five is taken for two hundred thousand, but if `E` is 3 from the start it is
eleven. -/
theorem evaluate_text_misread :
    Context.initial.read (String.ofList misread.chars) [] = .ok misread.tree ∧
    misread.tree.IsPolynomial ∧ Assigns [("E", 3)] misread.tree ∧
    (evaluate (String.ofList misread.chars) Context.initial).1 =
      .ok (.numeric (.finite false 2 5)) ∧
    (evaluateWith (supplied [("E", 3)]) (Term.numeric (.finite false 2 5)).text
      Context.initial).1 = .ok (.numeric 200000) ∧
    (evaluateWith (supplied [("E", 3)]) (String.ofList misread.chars) Context.initial).1 =
      .ok (.numeric 11) ∧
    (Term.numeric 200000).same (.numeric 11) = false := by
  have read := read_form wellFormed_misread
  have polynomial := isPolynomial_misread
  have names : misread.tree.names = ["E"] := by decide +kernel
  have assigns : Assigns [("E", 3)] misread.tree := by
    refine assigns_single rfl (Decimal.toRat?_ofNat 3) fun name occurs => ?_
    rw [← Expr.mem_names, names] at occurs
    exact List.mem_singleton.1 occurs
  refine ⟨read, polynomial, assigns, ?_, by decide +kernel, ?_, by decide +kernel⟩
  -- the text is long, so the tree that is read is known before anything is computed
  · rw [Expr.evaluate_of_read read]
    decide +kernel
  · have read' : (Context.initial.supply [("E", 3)]).read (String.ofList misread.chars) [] =
        .ok misread.tree := read_supply ⟨rfl, rfl⟩ assigns.letters read polynomial.isArithmetic
    rw [evaluateWith_supplied, Expr.evaluate_of_read read']
    decide +kernel

end Form

end Reckon
