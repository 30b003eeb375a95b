import Reckon.Proofs.Term.Faithful

/-!
# Terms that bind exactly as they look

The binding of a text is known to the operation that builds it, and a text without one is looked
through character by character. Both give the same (`Term.Accurate`), because every text that
arises is an operand, or an operand behind one minus: it begins and ends away from operators, so
that what is joined to it does not run into it, and a minus is seen as the sign that it is.

Results: `IsSignable.looseness_joined`, `accurate_combine`, `accurate_negate`,
`Native.accurate_apply`.
-/

namespace Reckon

/-! ## Operands -/

/-- A text with partners for its parentheses that begins and ends with no operator. -/
structure IsOperand (cs : List Char) : Prop where
  balanced : Balanced cs
  begins : ∃ c, cs.head? = some c ∧ isOperatorChar c = false
  ends : ∃ c, cs.getLast? = some c ∧ isOperatorChar c = false

/-- An operand, or one with a minus in front of it. -/
def IsSignable (cs : List Char) : Prop :=
  IsOperand cs ∨ ∃ ds, cs = '-' :: ds ∧ IsOperand ds

variable {cs left right : List Char}

namespace IsOperand

theorem isSignable (operand : IsOperand cs) : IsSignable cs :=
  .inl operand

theorem exists_cons (operand : IsOperand cs) :
    ∃ c ds, cs = c :: ds ∧ isOperatorChar c = false := by
  obtain ⟨c, first, operator⟩ := operand.begins
  obtain ⟨ds, shape⟩ := List.head?_eq_some_iff.1 first
  exact ⟨c, ds, shape, operator⟩

theorem ne_minus (operand : IsOperand cs) (ds : List Char) : cs ≠ '-' :: ds := by
  rintro rfl
  obtain ⟨c, ds', shape, operator⟩ := operand.exists_cons
  obtain ⟨rfl, -⟩ := List.cons.inj shape
  exact absurd operator (by decide)

theorem of_isSignable (signable : IsSignable cs) (bare : cs.head? ≠ some '-') : IsOperand cs := by
  rcases signable with operand | ⟨ds, rfl, -⟩
  · exact operand
  · exact absurd rfl bare

theorem group {inner : List Char} (balanced : Balanced inner) :
    IsOperand ('(' :: (inner ++ [')'])) where
  balanced := .group balanced .nil
  begins := ⟨'(', rfl, by decide⟩
  ends := ⟨')', by rw [← List.cons_append, List.getLast?_concat], by decide⟩

/-- What begins and ends with an operand and is balanced. -/
theorem append {between : List Char} (first : IsOperand left) (second : IsOperand right)
    (balanced : Balanced between) : IsOperand (left ++ (between ++ right)) where
  balanced := first.balanced.append (balanced.append second.balanced)
  begins := by
    obtain ⟨c, ds, rfl, operator⟩ := first.exists_cons
    exact ⟨c, rfl, operator⟩
  ends := by
    obtain ⟨c, last, operator⟩ := second.ends
    refine ⟨c, ?_, operator⟩
    rw [← List.append_assoc, List.getLast?_append, last]
    rfl

/-- Right after an operator an operand binds as it does alone. -/
theorem loosenessFrom_operator (operand : IsOperand cs) {p : Char}
    (operator : isOperatorChar p = true) :
    loosenessFrom 0 (some p) cs = loosenessFrom 0 none cs := by
  obtain ⟨c, ds, rfl, first⟩ := operand.exists_cons
  rw [loosenessFrom, loosenessFrom, bindingAt_operand _ first, bindingAt_operand _ first,
    Option.any_some, adjoinAsProduct_operator operator]
  rfl

/-- A sign in front of an operand is the loosest operation or the operand has a looser one. -/
theorem looseness_signed (operand : IsOperand cs) :
    loosenessFrom 0 none ('-' :: cs) = min Binding.unary (loosenessFrom 0 none cs) := by
  rw [loosenessFrom_cons _ (by decide) (by decide), operand.loosenessFrom_operator (by decide)]
  rfl

end IsOperand

namespace IsSignable

theorem balanced (signable : IsSignable cs) : Balanced cs := by
  rcases signable with operand | ⟨ds, rfl, operand⟩
  · exact operand.balanced
  · exact .plain (by decide) (by decide) operand.balanced

theorem ends (signable : IsSignable cs) :
    ∃ c, cs.getLast? = some c ∧ isOperatorChar c = false := by
  rcases signable with operand | ⟨ds, rfl, operand⟩
  · exact operand.ends
  · obtain ⟨c, last, operator⟩ := operand.ends
    refine ⟨c, ?_, operator⟩
    rw [List.getLast?_cons, last]
    rfl

theorem append {between : List Char} (first : IsSignable left) (second : IsOperand right)
    (balanced : Balanced between) : IsSignable (left ++ (between ++ right)) := by
  rcases first with operand | ⟨ds, rfl, operand⟩
  · exact .inl (operand.append second balanced)
  · exact .inr ⟨_, rfl, operand.append second balanced⟩

/-- A text with a sign is no tighter than the sign. -/
theorem looseness_le_unary (signable : IsSignable cs) (sign : cs.head? = some '-') :
    loosenessFrom 0 none cs ≤ Binding.unary := by
  obtain ⟨ds, rfl⟩ := List.head?_eq_some_iff.1 sign
  obtain operand | ⟨ds', same, operand⟩ := signable
  · exact absurd rfl (operand.ne_minus ds)
  · obtain ⟨-, rfl⟩ := List.cons.inj same
    rw [operand.looseness_signed]
    exact min_le_left _ _

/-- A text in parentheses is an operand. -/
theorem isOperand_of_isWrapped (signable : IsSignable cs) (wrapped : isWrapped cs = true) :
    IsOperand cs := by
  refine .of_isSignable signable fun sign => ?_
  obtain ⟨ds, rfl⟩ := List.head?_eq_some_iff.1 sign
  cases wrapped

/-- Two operands with an operator between them: the loosest of the three. -/
theorem looseness_joined (op : Operator) (first : IsSignable left) (second : IsOperand right) :
    loosenessFrom 0 none (left ++ (op.symbol.toList ++ right)) =
      min (loosenessFrom 0 none left) (min op.binding (loosenessFrom 0 none right)) := by
  obtain ⟨c, last, operator⟩ := first.ends
  rw [Form.getLast?_eq_lastOf] at last
  obtain ⟨p, symbolLast, symbolOperator⟩ := Form.exists_lastOf_symbol op
  rw [first.balanced.loosenessFrom_zero, last, loosenessFrom_symbol op operator, symbolLast,
    second.loosenessFrom_operator symbolOperator]

/-- Two operands side by side are a product where they are seen as factors. -/
theorem looseness_adjoined {l r : Char} (first : IsSignable left) (second : IsOperand right)
    (last : left.getLast? = some l) (head : right.head? = some r)
    (product : adjoinAsProduct l r = true) :
    loosenessFrom 0 none (left ++ right) =
      min (loosenessFrom 0 none left)
        (min Binding.multiplicative (loosenessFrom 0 none right)) := by
  rw [Form.getLast?_eq_lastOf] at last
  obtain ⟨c, ds, rfl, operator⟩ := second.exists_cons
  obtain rfl : c = r := Option.some.inj head
  rw [first.balanced.loosenessFrom_zero, last, loosenessFrom, loosenessFrom, if_pos rfl, if_pos rfl,
    bindingAt_operand _ operator, bindingAt_operand _ operator, Option.any_some, product,
    if_pos rfl,
    Option.any_none, if_neg Bool.false_ne_true, min_eq_right (loosenessFrom_le _ _ _)]

end IsSignable

/-! ## Numbers and names -/

theorem isOperand_numeral (n : Numeral) : IsOperand n.chars where
  balanced := Form.balanced_numeral n
  begins := by
    obtain ⟨c, ds, shape, digit⟩ := n.exists_chars
    exact ⟨c, by rw [shape, List.head?_cons], isOperatorChar_of_ascii digit⟩
  ends := by
    obtain ⟨c, last, digit⟩ := Form.lastOf_numeral n none
    exact ⟨c, by rw [Form.getLast?_eq_lastOf, last], isOperatorChar_of_ascii digit⟩

theorem isOperand_name {name : String} (isName : IsName name) : IsOperand name.toList where
  balanced := Form.balanced_name isName
  begins := by
    obtain ⟨c, ds, shape⟩ := List.exists_cons_of_ne_nil isName.1
    exact ⟨c, by rw [shape, List.head?_cons],
      isOperatorChar_of_isNameChar (isName.2 c (by simp [shape]))⟩
  ends := ⟨_, List.getLast?_eq_some_getLast isName.1,
    isOperatorChar_of_isNameChar (isName.2 _ (List.getLast_mem isName.1))⟩

/-- A number in plain notation is an operand behind its sign, and it is an atom without one. -/
theorem Decimal.exists_operand_plain {a r : Decimal} (isNumber : a.isNaN = false)
    (rounded : (Precision.halfEven exactDigits).round a = .ok r) :
    ∃ body, a.plain.toList = sign r.signed ++ body ∧ IsOperand body ∧
      loosenessFrom 0 none body = Binding.atom := by
  obtain ⟨body, text, ⟨n, rfl⟩ | rfl | ⟨notNumber, -⟩⟩ := exists_plain_of_round rounded
  · exact ⟨_, text, isOperand_numeral n, le_antisymm (loosenessFrom_le _ _ _) n.asTight.le⟩
  · refine ⟨_, text, ⟨balanced_of_forall (List.all_iff_forall_prop.1 (by decide)), ?_, ?_⟩, ?_⟩
    · exact ⟨'I', rfl, by decide⟩
    · exact ⟨'y', rfl, by decide⟩
    · decide +kernel
  · rw [isNumber] at notNumber
    cases notNumber

namespace Term

/-! ## Operands of operations -/

/-- The binding that a text carries is the one that its characters show. -/
def Accurate : Term → Prop
  | numeric _ => True
  | symbolic s b => IsSignable s.toList ∧ b.getD (looseness s) = looseness s

variable {a b t : Term} {s : String}

theorem accurate_ofName (signable : IsSignable s.toList) : (ofName s).Accurate :=
  ⟨signable, rfl⟩

theorem accurate_ofText (signable : IsSignable s.toList) : (ofText s).Accurate := by
  unfold ofText
  split
  · trivial
  · exact accurate_ofName signable

theorem Accurate.balanced (accurate : t.Accurate) : Balanced t.text.toList := by
  cases t with
  | numeric n => exact n.balanced_plain
  | symbolic s b => exact accurate.1.balanced

/-- A term in a text is no looser there than its binding says; only a number may be tighter, as it
may lose its sign where it is rounded to zero. -/
theorem Accurate.rendered {precision : Option Nat} {binding : Binding} (accurate : t.Accurate)
    (rendered : t.render precision = .ok s) (known : t.binding = .ok binding) :
    IsSignable s.toList ∧ binding ≤ looseness s := by
  cases t with
  | symbolic r b =>
    cases rendered
    cases known
    exact ⟨accurate.1, accurate.2.le⟩
  | numeric n =>
    obtain ⟨r, shown, isNaN, rfl, rounded, unsigned⟩ := exists_of_render rendered
    obtain ⟨negative, compared, known⟩ := exists_of_ok_bind known
    obtain ⟨body, text, operand, atom⟩ :=
      Decimal.exists_operand_plain (isNaN.trans (Decimal.isNaN_of_less compared)) rounded
    rw [looseness, text]
    cases sign : shown.signed with
    | false =>
      refine ⟨operand.isSignable, ?_⟩
      change binding ≤ loosenessFrom 0 none body
      rw [atom]
      cases known
      split <;> decide
    | true =>
      have signed : Decimal.sign true ++ body = '-' :: body := rfl
      refine ⟨.inr ⟨body, rfl, operand⟩, ?_⟩
      rw [signed, operand.looseness_signed, atom]
      cases negative with
      | true =>
        cases known
        exact le_refl _
      | false =>
        rw [unsigned (Decimal.unsigned_of_less compared)] at sign
        cases sign

/-- What stands next to an operator is no looser than the operator, and on its right there is no
sign. -/
theorem Accurate.operandText {op : Operator} {precision : Option Nat} {side : Side}
    (accurate : t.Accurate) (done : t.operandText op precision side = .ok s) :
    IsSignable s.toList ∧ op.binding ≤ looseness s ∧ (side = .right → IsOperand s.toList) := by
  obtain ⟨shown, rendered, rest⟩ := exists_of_ok_bind done
  obtain ⟨binding, known, rest⟩ := exists_of_ok_bind rest
  obtain ⟨signable, tight⟩ := accurate.rendered rendered (liftSignal_eq_ok.1 known)
  change Except.ok (if _ then _ else _) = Except.ok s at rest
  have atom : op.binding ≤ Binding.atom := by cases op <;> decide
  split at rest
  next =>
    cases rest
    have text : ("(" ++ shown ++ ")").toList = '(' :: (shown.toList ++ [')']) := by simp
    have operand := IsOperand.group signable.balanced
    rw [← text] at operand
    refine ⟨operand.isSignable, ?_, fun _ => operand⟩
    rw [looseness, text, looseness_wrapped signable.balanced none rfl]
    exact atom
  next bare =>
    cases rest
    rw [Bool.and_eq_true, not_and_or] at bare
    rcases bare with tightly | wrapped
    · refine ⟨signable, (not_lt.1 fun looser => tightly ?_).trans tight, ?_⟩
      · rw [needsParens, if_pos looser]
      rintro rfl
      refine .of_isSignable signable fun sign => tightly ?_
      obtain ⟨ds, shape⟩ := List.head?_eq_some_iff.1 sign
      have starts : shown.startsWith "-" = true := by
        rw [String.startsWith_string_iff, shape]
        exact List.cons_prefix_cons.2 ⟨rfl, List.nil_prefix⟩
      have loose := tight.trans (signable.looseness_le_unary sign)
      unfold needsParens
      split
      next => rfl
      next =>
        split
        next same =>
          -- only a power may be followed by an operand that binds like it, and that has no sign
          rw [same] at loose
          cases op <;> first | rfl | exact absurd loose (by decide)
        next => rw [starts]; rfl
    · rw [Bool.not_eq_true', Bool.not_eq_false] at wrapped
      refine ⟨signable, ?_, fun _ => signable.isOperand_of_isWrapped wrapped⟩
      rw [looseness, signable.balanced.looseness_of_isWrapped wrapped]
      exact atom

/-! ## Operations -/

theorem accurate_joined (op : Operator) {left right : String} (first : IsSignable left.toList)
    (second : IsOperand right.toList) (leftTight : op.binding ≤ looseness left)
    (rightTight : op.binding ≤ looseness right) :
    (symbolic (left ++ op.symbol ++ right) (some op.binding)).Accurate := by
  have text : (left ++ op.symbol ++ right).toList =
      left.toList ++ (op.symbol.toList ++ right.toList) := by simp
  refine ⟨?_, ?_⟩
  · rw [text]
    exact first.append second (Form.balanced_symbol op)
  · rw [looseness] at leftTight rightTight
    rw [looseness, text, first.looseness_joined op second, min_eq_left rightTight,
      min_eq_right leftTight]
    rfl

theorem accurate_operation {op : Operator} {precision : Option Nat} (left : a.Accurate)
    (right : b.Accurate) (done : operation op precision a b = .ok t) : t.Accurate := by
  obtain ⟨n, rfl⟩ | ⟨first, second, firstDone, secondDone, rfl⟩ := operation_cases done
  · trivial
  · obtain ⟨signable, leftTight, -⟩ := left.operandText firstDone
    obtain ⟨-, rightTight, operand⟩ := right.operandText secondDone
    exact accurate_joined _ signable (operand rfl) leftTight rightTight

/-- What is written side by side is seen as a product. -/
theorem adjoinAsProduct_of_adjoin {l r : Char} (beside : adjoin l r = true) :
    adjoinAsProduct l r = true := by
  rw [adjoin, Bool.and_eq_true, Bool.or_eq_true, Bool.or_eq_true] at beside
  obtain ⟨ends, starts⟩ := beside
  have noLetter : Text.isLetter l = false := by
    rw [Bool.eq_false_iff]
    intro letter
    rcases ends with digit | closing
    · rw [isDigit_of_isNameChar (isNameChar_of_isLetter letter)] at digit
      cases digit
    · rw [eq_of_beq closing] at letter
      exact absurd letter (by decide +kernel)
  have noNumeral : (Text.isDigit r || r == '.') = false := by
    rcases starts with letter | opening
    · have name := isNameChar_of_isLetter letter
      rw [isDigit_of_isNameChar name, Bool.false_or, beq_eq_false_iff_ne]
      exact ne_of_isNameChar name (by decide)
    · rw [eq_of_beq opening]
      decide +kernel
  rcases ends with digit | closing <;> rcases starts with letter | opening <;>
    simp_all [adjoinAsProduct]

theorem accurate_productText {precision : Option Nat} (left : a.Accurate) (right : b.Accurate)
    (done : productText precision a b = .ok t) : t.Accurate := by
  obtain ⟨first, second, firstDone, secondDone, written⟩ := productText_cases done
  obtain ⟨signable, leftTight, -⟩ := left.operandText firstDone
  obtain ⟨-, rightTight, operand⟩ := right.operandText secondDone
  rcases written with ⟨l, r, last, head, beside, rfl⟩ | rfl
  · have product := adjoinAsProduct_of_adjoin beside
    change Binding.multiplicative ≤ _ at leftTight rightTight
    rw [looseness] at leftTight rightTight
    refine ⟨?_, ?_⟩
    · rw [String.toList_append]
      exact signable.append (operand rfl) .nil
    · rw [looseness, String.toList_append,
        signable.looseness_adjoined (operand rfl) last head product, min_eq_left rightTight,
        min_eq_right leftTight]
      rfl
  · exact accurate_joined .times signable (operand rfl) leftTight rightTight

/-- A sign in front of an operand that is no looser than one. -/
theorem accurate_signed {cs : List Char} (operand : IsOperand cs)
    (tight : Binding.unary ≤ loosenessFrom 0 none cs) (text : s.toList = '-' :: cs) :
    (symbolic s (some Binding.unary)).Accurate := by
  refine ⟨.inr ⟨cs, text, operand⟩, ?_⟩
  rw [looseness, text, operand.looseness_signed, min_eq_left tight]
  rfl

theorem accurate_negateText (signable : IsSignable s.toList) :
    (negateText s (looseness s)).Accurate := by
  have wrapped : (symbolic ("-(" ++ s ++ ")") (some Binding.unary)).Accurate := by
    refine accurate_signed (.group signable.balanced) ?_ (by simp)
    rw [looseness_wrapped signable.balanced none rfl]
    decide
  unfold negateText
  split
  next cs shape =>
    have sign : s.toList.head? = some '-' := by rw [shape, List.head?_cons]
    split
    next =>
      -- the sign is taken away
      apply accurate_ofText
      rw [String.toList_ofList]
      obtain operand | ⟨ds, same, operand⟩ := signable
      · exact absurd shape (operand.ne_minus cs)
      · rw [shape] at same
        obtain ⟨-, rfl⟩ := List.cons.inj same
        exact operand.isSignable
    next other =>
      have loose : looseness s < Binding.unary :=
        lt_of_le_of_ne (signable.looseness_le_unary sign) other
      rw [if_pos loose]
      exact wrapped
  next bare =>
    split
    next => exact wrapped
    next notLoose =>
      refine accurate_signed (.of_isSignable signable fun sign => ?_) (not_lt.1 notLoose) (by simp)
      obtain ⟨ds, shape⟩ := List.head?_eq_some_iff.1 sign
      exact bare ds shape

theorem accurate_negate {digits : Nat} (accurate : a.Accurate) (done : a.negate digits = .ok t) :
    t.Accurate := by
  cases a with
  | numeric n =>
    obtain ⟨r, -, rest⟩ := exists_of_ok_bind done
    cases rest
    trivial
  | symbolic s b =>
    cases done
    rw [accurate.2]
    exact accurate_negateText accurate.1

theorem accurate_product {digits : Nat} {precision : Option Nat} (left : a.Accurate)
    (right : b.Accurate) (done : product digits precision a b = .ok t) : t.Accurate := by
  obtain ⟨x, y, order, result⟩ := product_cases done
  have accurate : x.Accurate ∧ y.Accurate := by
    rcases order with ⟨rfl, rfl⟩ | ⟨rfl, rfl⟩
    · exact ⟨left, right⟩
    · exact ⟨right, left⟩
  rcases result with rfl | rfl | negated | written
  · trivial
  · exact accurate.2
  · exact accurate_negate accurate.2 negated
  · exact accurate_productText accurate.1 accurate.2 written

theorem accurate_combine {digits : Nat} {op : Operator} {precision : Option Nat} (left : a.Accurate)
    (right : b.Accurate) (done : combine digits op precision a b = .ok t) : t.Accurate := by
  rcases combine_cases done with multiplied | joined
  · exact accurate_product left right multiplied
  · exact accurate_operation left right joined

end Term

/-! ## Names with arguments -/

theorem isOperand_called {name : String} {texts : List String} (isName : IsName name)
    (balanced : ∀ s ∈ texts, Balanced s.toList) :
    IsOperand (name ++ "(" ++ ", ".intercalate texts ++ ")").toList := by
  have text : (name ++ "(" ++ ", ".intercalate texts ++ ")").toList =
      name.toList ++ ([] ++ '(' :: ((", ".intercalate texts).toList ++ [')'])) := by simp
  rw [text]
  exact (isOperand_name isName).append (.group (balanced_intercalate balanced)) .nil

theorem Native.accurate_apply {n : Native} {precision : Nat} {unit : AngleUnit}
    {inputs : List Term} {t : Term} (isName : IsName n.name) (accurate : ∀ a ∈ inputs, a.Accurate)
    (done : n.apply precision unit inputs = .ok t) : t.Accurate := by
  obtain ⟨value, rfl⟩ | rfl := Native.apply_cases done
  · trivial
  · refine Term.accurate_ofName (isOperand_called isName fun s member => ?_).isSignable
    obtain ⟨a, inside, rfl⟩ := List.mem_map.1 member
    exact (accurate a inside).balanced

end Reckon
