import Reckon.Native.Apply
import Reckon.Proofs.Calc
import Reckon.Proofs.Decimal.Numeral
import Reckon.Proofs.Term.Shape

/-!
# Terms that bind as they look

A text that an operation has built carries the binding of the operation, and later operations trust
it. `Term.Faithful` says that they may: outside of parentheses nothing is looser than the binding
that is carried. A number may have a sign in front of it, so a binding tighter than that of a sign
only stands for this one.

Results: `faithful_combine`, `faithful_negate`, `Native.faithful_apply`.
-/

namespace Reckon

/-! ## Numbers -/

namespace Decimal

theorem round_isNaN {p : Precision} {a r : Decimal} (done : p.round a = .ok r) :
    r.isNaN = a.isNaN := by
  cases a with
  | finite s c e =>
    -- wherever the rounding ends, the result is finite
    rw [Precision.round, Precision.finish] at done
    dsimp only at done
    repeat' split at done
    all_goals cases done
    all_goals rfl
  | infinity s =>
    cases done
    rfl
  | nan s q payload =>
    have done : usable (.nan s q payload) = .ok r := done
    unfold usable at done
    split at done <;> cases done
    rfl

theorem isNaN_of_less {a b : Decimal} {holds : Bool} (done : a.less b = .ok holds) :
    a.isNaN = false := by
  cases a with
  | nan s q payload =>
    cases b <;> cases done
  | _ => rfl

/-- A number that is shown as it is gives its sign and digits, its sign and a word, or no number's
text. -/
theorem exists_shown (r : Decimal) : ∃ body, (match r with
    | .finite s c e => if c = 0 then String.ofList (sign s ++ ['0']) else
      String.ofList (sign s ++ positional (Precision.stripZeros c e 0).1
        (Precision.stripZeros c e 0).2)
    | .infinity s => String.ofList (sign s ++ "Infinity".toList)
    | .nan s q p => String.ofList (sign s ++ nanText q p)).toList = sign r.signed ++ body ∧
      ((∃ n : Numeral, body = n.chars) ∨ body = "Infinity".toList ∨
        r.isNaN = true ∧ ∃ signaling payload, body = nanText signaling payload) := by
  cases r with
  | finite s c e =>
    obtain ⟨n, text⟩ := exists_numeral_shown s c e
    exact ⟨n.chars, text, .inl ⟨n, rfl⟩⟩
  | infinity s => exact ⟨_, String.toList_ofList, .inr (.inl rfl)⟩
  | nan s q p => exact ⟨_, String.toList_ofList, .inr (.inr ⟨rfl, q, p, rfl⟩)⟩

/-- So does the plain text of a number, with the sign of what it is rounded to. -/
theorem exists_plain_of_round {a r : Decimal}
    (rounded : (Precision.halfEven exactDigits).round a = .ok r) :
    ∃ body, a.plain.toList = sign r.signed ++ body ∧
      ((∃ n : Numeral, body = n.chars) ∨ body = "Infinity".toList ∨
        a.isNaN = true ∧ ∃ signaling payload, body = nanText signaling payload) := by
  simp only [plain, rounded]
  rw [← round_isNaN rounded]
  exact exists_shown r

theorem exists_plain (a : Decimal) : ∃ s body, a.plain.toList = sign s ++ body ∧
    ((∃ n : Numeral, body = n.chars) ∨ body = "Infinity".toList ∨
      a.isNaN = true ∧ ∃ signaling payload, body = nanText signaling payload) := by
  cases rounded : (Precision.halfEven exactDigits).round a with
  | ok r => exact ⟨r.signed, exists_plain_of_round rounded⟩
  | error signal =>
    simp only [plain, rounded]
    exact ⟨a.signed, exists_shown a⟩

/-- A number that is not below zero has no sign once it is rounded. -/
theorem signed_of_round {p : Precision} {a r : Decimal}
    (unsigned : a.signed = false ∨ a.isZero = true) (done : p.round a = .ok r) :
    r.signed = false := by
  cases a with
  | finite s c e =>
    have sign : (s && c != 0) = false := by
      rcases unsigned with plus | zero
      · rw [show s = false from plus, Bool.false_and]
      · rw [show c = 0 from eq_of_beq zero, bne_self_eq_false, Bool.and_false]
    rw [Precision.round, sign, Precision.finish] at done
    dsimp only at done
    repeat' split at done
    all_goals cases done
    all_goals rfl
  | infinity s =>
    cases done
    simpa [isZero] using unsigned
  | nan s q payload =>
    have done : usable (.nan s q payload) = .ok r := done
    unfold usable at done
    split at done <;> cases done
    simpa [isZero] using unsigned

theorem unsigned_of_less {a : Decimal} (done : a.less 0 = .ok false) :
    a.signed = false ∨ a.isZero = true := by
  cases a with
  | finite s c e =>
    rw [less_eq (a := .finite s c e) rfl toRat?_zero, Except.ok.injEq, decide_eq_false_iff_not]
      at done
    cases s with
    | false => exact .inl rfl
    | true =>
      refine .inr (beq_iff_eq.2 (by_contra fun nonzero => done ?_))
      have positive : (0 : ℚ) < c * 10 ^ e :=
        mul_pos (by exact_mod_cast Nat.pos_of_ne_zero nonzero) (ten_zpow_pos e)
      rw [signedCoefficient_true]
      push_cast
      linarith
  | infinity s => cases s <;> [exact .inl rfl; cases done]
  | nan s q payload => cases done

end Decimal

namespace Numeral

theorem asTight (n : Numeral) : AsTight Binding.atom n.chars := by
  refine ⟨Form.balanced_numeral n, ?_⟩
  obtain ⟨c, cs, shape, digit⟩ := n.exists_chars
  have all : ∀ d ∈ c :: cs, (d.isDigit || d == '.') = true := by
    intro d member
    rcases n.digit_or_point (shape ▸ member) with digit | rfl
    · rw [digit, Bool.true_or]
    · decide
  have numeral : ∀ {d : Char}, (d.isDigit || d == '.') = true → d.isDigit = true ∨ d = '.' :=
    fun holds => by simpa using holds
  have whole := loosenessFrom_solid (p := fun d => d.isDigit || d == '.')
    (fun d holds => by
      constructor <;> rintro rfl <;> exact absurd holds (by decide))
    (fun d e first second => Form.bindingAt_numeral (numeral first) (numeral second))
    all none []
  rw [List.append_nil] at whole
  rw [shape, whole, bindingAt_operand _ (isOperatorChar_of_ascii digit)]
  exact le_refl _

end Numeral

theorem balanced_sign (negative : Bool) : Balanced (Decimal.sign negative) := by
  cases negative with
  | false => exact .nil
  | true => exact .plain (by decide) (by decide) .nil

theorem balanced_nanText (signaling : Bool) (payload : Nat) :
    Balanced (Decimal.nanText signaling payload) := by
  have word : Balanced (if signaling then "sNaN" else "NaN").toList :=
    balanced_of_forall (List.all_iff_forall_prop.1 (by cases signaling <;> decide))
  refine word.append ?_
  split
  next => exact .nil
  next =>
    refine balanced_of_forall fun c member => ?_
    have digit := Decimal.isDigit_of_mem_digits member
    constructor <;> rintro rfl <;> exact absurd digit (by decide)

theorem Decimal.balanced_plain (n : Decimal) : Balanced n.plain.toList := by
  obtain ⟨s, body, shape, ⟨m, rfl⟩ | rfl | ⟨-, signaling, payload, rfl⟩⟩ := n.exists_plain <;>
    rw [shape]
  · exact (balanced_sign s).append m.asTight.balanced
  · exact (balanced_sign s).append (balanced_of_forall (List.all_iff_forall_prop.1 (by decide)))
  · exact (balanced_sign s).append (balanced_nanText signaling payload)

/-- The text of a number is as tight as a sign, whatever sign it has. -/
theorem Decimal.asTight_plain {n : Decimal} (isNumber : n.isNaN = false) :
    AsTight Binding.unary n.plain.toList := by
  have signed : ∀ (s : Bool) {body : List Char}, AsTight Binding.atom body →
      AsTight Binding.unary (sign s ++ body) := by
    intro s body tight
    have tight := tight.mono (by decide : Binding.unary ≤ Binding.atom)
    cases s with
    | false => exact tight
    | true => exact tight.signed
  obtain ⟨s, body, shape, ⟨m, rfl⟩ | rfl | ⟨notNumber, -⟩⟩ := n.exists_plain
  · rw [shape]
    exact signed s m.asTight
  · rw [shape]
    exact signed s ⟨balanced_of_forall (List.all_iff_forall_prop.1 (by decide)), by decide +kernel⟩
  · rw [isNumber] at notNumber
    cases notNumber

/-! ## Terms -/

namespace Term

/-- A text whose parentheses have their partners, and which is as tight as the binding that it
carries, or as a sign. -/
def Faithful : Term → Prop
  | numeric _ => True
  | symbolic s b => AsTight (min (b.getD (looseness s)) Binding.unary) s.toList

variable {a b t : Term} {s : String} {bound : Binding}

theorem faithful_ofName (balanced : Balanced s.toList) : (ofName s).Faithful :=
  ⟨balanced, min_le_left _ _⟩

/-- A text that is built with a binding. -/
theorem faithful_symbolic (tight : AsTight bound s.toList) : (symbolic s (some bound)).Faithful :=
  tight.mono (min_le_left _ _)

theorem faithful_ofText (balanced : Balanced s.toList) : (ofText s).Faithful := by
  unfold ofText
  split
  · trivial
  · exact faithful_ofName balanced

theorem Faithful.balanced (faithful : t.Faithful) : Balanced t.text.toList := by
  cases t with
  | numeric n => exact n.balanced_plain
  | symbolic s b => exact AsTight.balanced faithful

/-! ## Signs -/

theorem faithful_negateText {binding : Binding}
    (tight : AsTight (min binding Binding.unary) s.toList) : (negateText s binding).Faithful := by
  have signed : ∀ cs : List Char, AsTight Binding.unary cs →
      (symbolic ("-" ++ String.ofList cs) (some Binding.unary)).Faithful := by
    intro cs tight
    have text : ("-" ++ String.ofList cs).toList = '-' :: cs := by simp
    apply faithful_symbolic
    rw [text]
    exact tight.signed
  have wrapped : (symbolic ("-(" ++ s ++ ")") (some Binding.unary)).Faithful := by
    have group := signed _ ((AsTight.wrapped tight.balanced).mono
      (by decide : Binding.unary ≤ Binding.atom))
    have shape : "-" ++ String.ofList ('(' :: (s.toList ++ [')'])) = "-(" ++ s ++ ")" := by
      rw [← String.toList_inj]
      simp
    rwa [shape] at group
  have bare : ¬ binding < Binding.unary →
      (symbolic ("-" ++ s) (some Binding.unary)).Faithful := by
    intro notLoose
    rw [min_eq_right (Nat.not_lt.1 notLoose)] at tight
    have group := signed _ tight
    rwa [String.ofList_toList] at group
  unfold negateText
  split
  next cs shape =>
    split
    next =>
      -- the sign is taken away
      apply faithful_ofText
      rw [String.toList_ofList]
      have balanced := tight.balanced
      rw [shape] at balanced
      cases balanced with
      | plain _ _ rest => exact rest
    next =>
      split
      next => exact wrapped
      next notLoose => exact bare notLoose
  next =>
    split
    next => exact wrapped
    next notLoose => exact bare notLoose

theorem faithful_negate {digits : Nat} (faithful : a.Faithful) (done : a.negate digits = .ok t) :
    t.Faithful := by
  cases a with
  | numeric n =>
    obtain ⟨r, -, rest⟩ := exists_of_ok_bind done
    cases rest
    trivial
  | symbolic s b =>
    cases done
    exact faithful_negateText faithful

/-! ## Operands -/

/-- A number is shown as some number, without a sign if it is not below zero. -/
theorem exists_of_render {n : Decimal} {precision : Option Nat}
    (done : (numeric n).render precision = .ok s) :
    ∃ r shown : Decimal, r.isNaN = n.isNaN ∧ s = r.plain ∧
      (Precision.halfEven Decimal.exactDigits).round r = .ok shown ∧
      (n.signed = false ∨ n.isZero = true → shown.signed = false) := by
  cases precision with
  | none =>
    obtain ⟨r, same, rest⟩ := exists_of_ok_bind done
    obtain ⟨shown, again, rest⟩ := exists_of_ok_bind rest
    cases same
    cases rest
    have again := liftSignal_eq_ok.1 again
    exact ⟨n, shown, rfl, rfl, again, fun unsigned => Decimal.signed_of_round unsigned again⟩
  | some digits =>
    obtain ⟨r, rounded, rest⟩ := exists_of_ok_bind done
    obtain ⟨shown, again, rest⟩ := exists_of_ok_bind rest
    cases rest
    have again := liftSignal_eq_ok.1 again
    have rounded : roundDigits n digits = .ok r := rounded
    unfold roundDigits at rounded
    split at rounded
    next => cases rounded
    next =>
      have rounded := liftSignal_eq_ok.1 rounded
      exact ⟨r, shown, Decimal.round_isNaN rounded, rfl, again, fun unsigned =>
        Decimal.signed_of_round (.inl (Decimal.signed_of_round unsigned rounded)) again⟩

/-- What stands next to an operator is as tight as the operator, or as a sign. -/
theorem asTight_operandText {op : Operator} {precision : Option Nat} {side : Side}
    (faithful : t.Faithful) (done : t.operandText op precision side = .ok s) :
    AsTight (min op.binding Binding.unary) s.toList := by
  obtain ⟨shown, rendered, rest⟩ := exists_of_ok_bind done
  obtain ⟨binding, known, rest⟩ := exists_of_ok_bind rest
  have known := liftSignal_eq_ok.1 known
  have tight : AsTight (min binding Binding.unary) shown.toList := by
    cases t with
    | symbolic r b =>
      cases rendered
      cases known
      exact faithful
    | numeric n =>
      obtain ⟨r, -, isNaN, rfl, -, -⟩ := exists_of_render rendered
      obtain ⟨negative, compared, -⟩ := exists_of_ok_bind known
      refine (Decimal.asTight_plain ?_).mono (min_le_right _ _)
      rw [isNaN, Decimal.isNaN_of_less compared]
  have enclosed : min op.binding Binding.unary ≤ Binding.atom :=
    (min_le_right _ _).trans (by decide)
  change Except.ok (if _ then _ else _) = Except.ok s at rest
  split at rest
  next =>
    cases rest
    have wrapped := (AsTight.wrapped tight.balanced).mono enclosed
    have text : ("(" ++ shown ++ ")").toList = '(' :: (shown.toList ++ [')']) := by simp
    rwa [text]
  next bare =>
    cases rest
    rw [Bool.and_eq_true, not_and_or] at bare
    rcases bare with tightly | alreadyWrapped
    · refine tight.mono (min_le_min_right _ (not_lt.1 fun looser => tightly ?_))
      rw [needsParens, if_pos looser]
    · rw [Bool.not_eq_true', Bool.not_eq_false] at alreadyWrapped
      exact ⟨tight.balanced,
        enclosed.trans (tight.balanced.looseness_of_isWrapped alreadyWrapped).ge⟩

/-! ## Operations -/

/-- Numbers are computed; otherwise the operands are written around the operator. -/
theorem operation_cases {op : Operator} {precision : Option Nat}
    (done : operation op precision a b = .ok t) :
    (∃ n, t = numeric n) ∨ ∃ left right, a.operandText op precision .left = .ok left ∧
      b.operandText op precision .right = .ok right ∧
      t = symbolic (left ++ op.symbol ++ right) (some op.binding) := by
  have joined : ∀ {r : Term}, (do
      let left ← a.operandText op precision .left
      let right ← b.operandText op precision .right
      return symbolic (left ++ op.symbol ++ right) (some op.binding)) = .ok r →
      ∃ left right, a.operandText op precision .left = .ok left ∧
        b.operandText op precision .right = .ok right ∧
        r = symbolic (left ++ op.symbol ++ right) (some op.binding) := by
    intro r done
    obtain ⟨left, leftDone, rest⟩ := exists_of_ok_bind done
    obtain ⟨right, rightDone, rest⟩ := exists_of_ok_bind rest
    cases rest
    exact ⟨left, right, leftDone, rightDone, rfl⟩
  cases a with
  | symbolic r c => exact .inr (joined done)
  | numeric m =>
    cases b with
    | symbolic r c => exact .inr (joined done)
    | numeric n =>
      obtain ⟨value, -, rest⟩ := exists_of_ok_bind done
      cases rest
      exact .inl ⟨value, rfl⟩

/-- Factors are written side by side where they can be, and around a product sign elsewhere. -/
theorem productText_cases {precision : Option Nat} (done : productText precision a b = .ok t) :
    ∃ left right, a.operandText .times precision .left = .ok left ∧
      b.operandText .times precision .right = .ok right ∧
      ((∃ l r, left.toList.getLast? = some l ∧ right.toList.head? = some r ∧ adjoin l r = true ∧
          t = symbolic (left ++ right) (some Binding.multiplicative)) ∨
        t = symbolic (left ++ "*" ++ right) (some Binding.multiplicative)) := by
  obtain ⟨left, leftDone, rest⟩ := exists_of_ok_bind done
  obtain ⟨right, rightDone, rest⟩ := exists_of_ok_bind rest
  refine ⟨left, right, leftDone, rightDone, ?_⟩
  split at rest
  next l r last head =>
    cases rest
    split
    next beside => exact .inl ⟨l, r, last, head, beside, rfl⟩
    next => exact .inr rfl
  next => cases rest

/-- A product with a coefficient of zero, one or minus one is none. -/
theorem product_cases {digits : Nat} {precision : Option Nat}
    (done : product digits precision a b = .ok t) : ∃ x y, (x = a ∧ y = b ∨ x = b ∧ y = a) ∧
      (t = numeric 0 ∨ t = y ∨ y.negate digits = .ok t ∨ productText precision x y = .ok t) := by
  have ordered : ∀ {x y : Term}, (match x with
      | numeric n =>
        if n.isZero then .ok (.numeric 0)
        else if n.same 1 then .ok y
        else if n.same (.ofInt (-1)) then y.negate digits
        else productText precision x y
      | symbolic .. => productText precision x y) = Except.ok t →
      t = numeric 0 ∨ t = y ∨ y.negate digits = .ok t ∨ productText precision x y = .ok t := by
    intro x y done
    cases x with
    | symbolic s c => exact .inr (.inr (.inr done))
    | numeric n =>
      dsimp only at done
      split at done
      next => exact .inl (Except.ok.inj done).symm
      split at done
      next => exact .inr (.inl (Except.ok.inj done).symm)
      split at done
      next => exact .inr (.inr (.inl done))
      next => exact .inr (.inr (.inr done))
  unfold product at done
  cases swapped : b.isNumeric && !a.isNumeric with
  | true =>
    rw [swapped] at done
    exact ⟨b, a, .inr ⟨rfl, rfl⟩, ordered done⟩
  | false =>
    rw [swapped] at done
    exact ⟨a, b, .inl ⟨rfl, rfl⟩, ordered done⟩

/-- A product is written as one where there is a name in it. -/
theorem combine_cases {digits : Nat} {op : Operator} {precision : Option Nat}
    (done : combine digits op precision a b = .ok t) :
    product digits precision a b = .ok t ∨ operation op precision a b = .ok t := by
  unfold combine at done
  split at done
  next =>
    obtain ⟨named, -, rest⟩ := exists_of_ok_bind done
    cases named with
    | true => exact .inl rest
    | false => exact .inr rest
  next => exact .inr done

theorem faithful_joined (op : Operator) {left right : String}
    (first : AsTight (min op.binding Binding.unary) left.toList)
    (second : AsTight (min op.binding Binding.unary) right.toList) :
    (symbolic (left ++ op.symbol ++ right) (some op.binding)).Faithful := by
  have text : (left ++ op.symbol ++ right).toList =
      left.toList ++ (op.symbol.toList ++ right.toList) := by simp
  change AsTight _ (left ++ op.symbol ++ right).toList
  rw [text]
  exact first.operator second (min_le_left _ _)

theorem faithful_operation {op : Operator} {precision : Option Nat} (left : a.Faithful)
    (right : b.Faithful) (done : operation op precision a b = .ok t) : t.Faithful := by
  obtain ⟨n, rfl⟩ | ⟨first, second, firstDone, secondDone, rfl⟩ := operation_cases done
  · trivial
  · exact faithful_joined _ (asTight_operandText left firstDone)
      (asTight_operandText right secondDone)

theorem faithful_productText {precision : Option Nat} (left : a.Faithful) (right : b.Faithful)
    (done : productText precision a b = .ok t) : t.Faithful := by
  obtain ⟨first, second, firstDone, secondDone, ⟨l, r, -, head, beside, rfl⟩ | rfl⟩ :=
    productText_cases done
  · have firstTight := asTight_operandText left firstDone
    have secondTight := asTight_operandText right secondDone
    obtain ⟨cs, shape⟩ := List.head?_eq_some_iff.1 head
    rw [shape] at secondTight
    have operand : isOperatorChar r = false := by
      rcases Bool.or_eq_true_iff.1 (Bool.and_eq_true_iff.1 beside).2 with letter | opening
      · exact isOperatorChar_of_isNameChar (isNameChar_of_isLetter letter)
      · rw [eq_of_beq opening]
        decide
    apply AsTight.mono _ (le_refl _)
    rw [String.toList_append, shape]
    exact firstTight.adjoined secondTight operand (min_le_left _ _)
  · exact faithful_joined .times (asTight_operandText left firstDone)
      (asTight_operandText right secondDone)

theorem faithful_product {digits : Nat} {precision : Option Nat} (left : a.Faithful)
    (right : b.Faithful) (done : product digits precision a b = .ok t) : t.Faithful := by
  obtain ⟨x, y, order, result⟩ := product_cases done
  have faithful : x.Faithful ∧ y.Faithful := by
    rcases order with ⟨rfl, rfl⟩ | ⟨rfl, rfl⟩
    · exact ⟨left, right⟩
    · exact ⟨right, left⟩
  rcases result with rfl | rfl | negated | written
  · trivial
  · exact faithful.2
  · exact faithful_negate faithful.2 negated
  · exact faithful_productText faithful.1 faithful.2 written

/-- Whatever two terms are combined to, its binding can be trusted if those of the terms can. -/
theorem faithful_combine {digits : Nat} {op : Operator} {precision : Option Nat} (left : a.Faithful)
    (right : b.Faithful) (done : combine digits op precision a b = .ok t) : t.Faithful := by
  rcases combine_cases done with multiplied | joined
  · exact faithful_product left right multiplied
  · exact faithful_operation left right joined

end Term

/-! ## Names with arguments -/

theorem balanced_intercalate {texts : List String} (balanced : ∀ s ∈ texts, Balanced s.toList) :
    Balanced (", ".intercalate texts).toList := by
  have separator : Balanced ", ".toList :=
    balanced_of_forall (List.all_iff_forall_prop.1 (by decide))
  rw [String.toList_intercalate]
  induction texts with
  | nil => exact .nil
  | cons s texts ih =>
    obtain ⟨here, others⟩ := List.forall_mem_cons.1 balanced
    cases texts with
    | nil => simpa using here
    | cons t texts =>
      rw [List.map_cons, List.map_cons, List.intercalate_cons_cons, ← List.map_cons,
        List.append_assoc]
      exact here.append (separator.append (ih others))

theorem balanced_called {name : String} {texts : List String} (isName : IsName name)
    (balanced : ∀ s ∈ texts, Balanced s.toList) :
    Balanced (name ++ "(" ++ ", ".intercalate texts ++ ")").toList := by
  have group : Balanced (name.toList ++ '(' :: ((", ".intercalate texts).toList ++ [')'])) :=
    (Form.balanced_name isName).append (.group (balanced_intercalate balanced) .nil)
  have text : (name ++ "(" ++ ", ".intercalate texts ++ ")").toList =
      name.toList ++ '(' :: ((", ".intercalate texts).toList ++ [')']) := by simp
  rwa [text]

theorem faithful_signatureText {name : String} {params : List String} (isName : IsName name)
    (names : ∀ x ∈ params, IsName x) : (Term.ofName (signatureText name params)).Faithful :=
  Term.faithful_ofName (balanced_called isName fun x member => Form.balanced_name (names x member))

/-- A native function computes a number or is written with its arguments. -/
theorem Native.apply_cases {n : Native} {precision : Nat} {unit : AngleUnit} {inputs : List Term}
    {t : Term} (done : n.apply precision unit inputs = .ok t) : (∃ value, t = .numeric value) ∨
      t = .ofName (n.name ++ "(" ++ ", ".intercalate (inputs.map Term.text) ++ ")") := by
  obtain ⟨_, -, rest⟩ := exists_of_ok_bind done
  dsimp only at rest
  split at rest
  next =>
    obtain ⟨value, -, rest⟩ := exists_of_ok_bind rest
    cases rest
    exact .inl ⟨value, rfl⟩
  next =>
    obtain ⟨texts, rendered, rest⟩ := exists_of_ok_bind rest
    cases rest
    exact .inr (by rw [Term.eq_map_text_of_render rendered])

theorem Native.faithful_apply {n : Native} {precision : Nat} {unit : AngleUnit}
    {inputs : List Term} {t : Term} (isName : IsName n.name) (faithful : ∀ a ∈ inputs, a.Faithful)
    (done : n.apply precision unit inputs = .ok t) : t.Faithful := by
  obtain ⟨value, rfl⟩ | rfl := Native.apply_cases done
  · trivial
  · refine Term.faithful_ofName (balanced_called isName fun s member => ?_)
    obtain ⟨a, inside, rfl⟩ := List.mem_map.1 member
    exact (faithful a inside).balanced

end Reckon
