import Reckon.Context
import Reckon.Expr.Printer
import Reckon.Proofs.Expr.Meaning
import Reckon.Proofs.Form.Read

/-!
# Reading back what was written

The printer and the reader agree on parentheses: an operand that the printer leaves bare binds
tightly enough for the reader (`unary_le_of_bare`, `leftBinding_le_of_bare`,
`rightBinding_le_of_bare`). So the text of a tree without attached products is the text of a
well-formed form with the same tree.

Results: `exists_form`, `parse_text_alike`.
-/

namespace Reckon

namespace Expr

/-! ## Operands without parentheses -/

/-- Trees that bind like an operator are grouped like it. -/
theorem associativity_of_binding {e : Expr} (op : Operator) (same : e.binding = op.binding) :
    e.associativity = op.associativity := by
  have ne_atom : op.binding ≠ Binding.atom := by cases op <;> decide
  have ne_unary : op.binding ≠ Binding.unary := by cases op <;> decide
  have ne_zero : op.binding ≠ 0 := by cases op <;> decide
  cases e with
  | literal n written =>
    change (if n.isNegative then Binding.unary else Binding.atom) = _ at same
    split at same
    next => exact absurd same.symm ne_unary
    next => exact absurd same.symm ne_atom
  | unary sign e => exact absurd same.symm ne_unary
  | binary op' attached l r =>
    change op'.binding = _ at same
    change op'.associativity = _
    cases op <;> cases op' <;> first | rfl | exact absurd same (by decide)
  | definition name params body source => exact absurd same.symm ne_zero
  | _ => exact absurd same.symm ne_atom

theorem unary_le_of_bare {sign : Sign} {e : Expr}
    (bare : wrapsOperand (.unary sign e) e = false) : Binding.unary ≤ e.binding := by
  by_cases atom : e.binding = Binding.atom
  · rw [atom]
    decide
  simp only [wrapsOperand, ne_eq, atom, not_false_eq_true, decide_true, Bool.true_and] at bare
  unfold bindsBefore at bare
  split at bare
  next => exact not_lt.1 (of_decide_eq_false bare)
  next same => exact (not_not.1 same).le

theorem leftBinding_le_of_bare {op : Operator} {attached : Bool} {l r : Expr}
    (bare : wrapsLeft (.binary op attached l r) l = false) :
    Parser.leftBinding op ≤ l.binding := by
  have below := Form.lt_atom op
  by_cases atom : l.binding = Binding.atom
  · rw [atom]
    exact Form.leftBinding_le_of_lt below
  simp only [wrapsLeft, ne_eq, atom, not_false_eq_true, decide_true, Bool.true_and,
    Bool.not_eq_false'] at bare
  unfold bindsBefore at bare
  split at bare
  next other => exact Form.leftBinding_le_of_lt (of_decide_eq_true bare)
  next same =>
    have grouped := associativity_of_binding op (not_not.1 same)
    rw [if_pos (show _ = (binary op attached l r).associativity from grouped), decide_eq_true_eq,
      grouped] at bare
    rw [Parser.leftBinding, bare]
    exact (not_not.1 same).ge

theorem wrapsOperand_of_wrapsRight {parent child : Expr} (bare : wrapsRight parent child = false) :
    wrapsOperand parent child = false := by
  cases child with
  | unary sign e => cases bare
  | literal n written => exact (Bool.or_eq_false_iff.1 bare).2
  | _ => exact bare

theorem rightBinding_le_of_bare {op : Operator} {attached : Bool} {l r : Expr}
    (bare : wrapsOperand (.binary op attached l r) r = false) :
    Parser.rightBinding op ≤ r.binding := by
  by_cases atom : r.binding = Binding.atom
  · rw [atom]
    exact Form.rightBinding_le_of_lt (Form.lt_atom op)
  simp only [wrapsOperand, ne_eq, atom, not_false_eq_true, decide_true, Bool.true_and] at bare
  unfold bindsBefore at bare
  change (if op.binding ≠ r.binding then _ else _) = _ at bare
  split at bare
  next other =>
    exact Form.rightBinding_le_of_lt (lt_of_le_of_ne (not_lt.1 (of_decide_eq_false bare)) other)
  next same =>
    have grouped := associativity_of_binding op (not_not.1 same).symm
    rw [if_pos (show (binary op attached l r).associativity = _ from grouped.symm),
      decide_eq_false_iff_not] at bare
    have direction : op.associativity = .rightToLeft := by
      change ¬ op.associativity = _ at bare
      cases shape : op.associativity with
      | leftToRight => exact absurd shape bare
      | rightToLeft => rfl
    rw [Parser.rightBinding, direction]
    exact (not_not.1 same).le

/-! ## Trees and their texts -/

mutual

/-- The trees have the same shape, operators and names, and literals that are equal as numbers. -/
def Alike : Expr → Expr → Prop
  | .literal m _, .literal n _ => ∃ q, m.toRat? = some q ∧ n.toRat? = some q
  | .var x, .var y => x = y
  | .unary s e, .unary t e' => s = t ∧ e.Alike e'
  | .binary op a l r, .binary op' a' l' r' => op = op' ∧ a = a' ∧ l.Alike l' ∧ r.Alike r'
  | .call f args, .call g args' => f = g ∧ AllAlike args args'
  | _, _ => False

/-- The lists have the same length, and their trees are alike one by one. -/
def AllAlike : List Expr → List Expr → Prop
  | [], [] => True
  | e :: es, e' :: es' => e.Alike e' ∧ AllAlike es es'
  | _, _ => False

end

mutual

/-- Every product is written, and every literal and name of the tree is read as a whole. -/
def IsExplicit (v : Vocabulary) : Expr → Prop
  | .literal n _ => ∃ q, n.toRat? = some q ∧ 0 ≤ q ∧ Representable Decimal.exactDigits q
  | .var name =>
    IsName name ∧
      (name.toList.length = 1 ∧ v.isFunction name = false ∨ v.isKnown name = true)
  | .unary _ e => e.IsExplicit v
  | .binary _ attached l r => attached = false ∧ l.IsExplicit v ∧ r.IsExplicit v
  | .call name args => IsName name ∧ v.isFunction name = true ∧ AllExplicit v args
  | _ => False

/-- All of several trees are explicit. -/
def AllExplicit (v : Vocabulary) : List Expr → Prop
  | [] => True
  | e :: es => e.IsExplicit v ∧ AllExplicit v es

end

/-- A form in parentheses where they are asked for. -/
def wrapped (wrap : Bool) (f : Form) : Form :=
  if wrap then .paren f else f

theorem chars_wrapped {wrap : Bool} {f : Form} {s : String} (text : f.chars = s.toList) :
    (wrapped wrap f).chars = (parens wrap s).toList := by
  cases wrap with
  | false => exact text
  | true => simp [wrapped, Form.chars, parens, text]

theorem tree_wrapped (wrap : Bool) (f : Form) : (wrapped wrap f).tree = f.tree := by
  cases wrap <;> rfl

theorem wellFormed_wrapped {v : Vocabulary} (wrap : Bool) {f : Form} (wellFormed : f.WellFormed v) :
    (wrapped wrap f).WellFormed v := by
  cases wrap <;> exact wellFormed

/-- In parentheses a form binds as tightly as can be. -/
theorem le_binding_wrapped {wrap : Bool} {f : Form} {least : Binding} (le : least ≤ Binding.atom)
    (bare : wrap = false → least ≤ f.binding) : least ≤ (wrapped wrap f).binding := by
  cases wrap with
  | false => exact bare rfl
  | true => exact le

/-- The form is written like the tree and is read as a tree like it. -/
structure Writes (v : Vocabulary) (f : Form) (e : Expr) : Prop where
  wellFormed : f.WellFormed v
  text : f.chars = e.text.toList
  binding : f.binding = e.binding
  alike : e.Alike f.tree

mutual

/-- The text of an explicit tree is that of a form. -/
theorem exists_form {v : Vocabulary} : ∀ {e : Expr}, e.IsExplicit v → ∃ f, Writes v f e
  | .literal n written, ⟨q, value, nonnegative, fits⟩ => by
    obtain ⟨m, mValue, text⟩ := Decimal.exists_numeral value fits
    rw [if_neg (not_lt.2 nonnegative)] at text
    rw [abs_of_nonneg nonnegative] at mValue
    have positive : n.isNegative = false := by
      rw [Bool.eq_false_iff, Ne, Decimal.isNegative_iff value]
      exact not_lt.2 nonnegative
    exact ⟨.number m, trivial, by simp [Form.chars, Expr.text, text], by simp [Form.binding,
      Expr.binding, positive], q, value, mValue⟩
  | .var name, ⟨isName, whole⟩ => by
    refine ⟨.word name, ⟨isName, ?_, ?_⟩, rfl, rfl, rfl⟩
    · exact whole.elim (fun single => Or.inr single.1) Or.inl
    · intro isFunction
      exact whole.resolve_left fun single => by simp [single.2] at isFunction
  | .unary sign e, explicit => by
    obtain ⟨f, form⟩ := exists_form (e := e) explicit
    set wrap := wrapsOperand (.unary sign e) e with wrap_def
    refine ⟨.signed sign (wrapped wrap f), ⟨wellFormed_wrapped wrap form.wellFormed, ?_⟩, ?_, rfl,
      rfl, ?_⟩
    · refine le_binding_wrapped (by decide) fun bare => ?_
      rw [form.binding]
      exact unary_le_of_bare bare
    · simp [Form.chars, Expr.text, chars_wrapped form.text, wrap_def]
    · rw [tree_wrapped]
      exact form.alike
  | .binary op attached l r, ⟨written, left, right⟩ => by
    subst written
    obtain ⟨f, leftForm⟩ := exists_form left
    obtain ⟨g, rightForm⟩ := exists_form right
    set wrapLeft := wrapsLeft (.binary op false l r) l with wrapLeft_def
    set wrapRight := wrapsRight (.binary op false l r) r with wrapRight_def
    refine ⟨.binary op false (wrapped wrapLeft f) (wrapped wrapRight g),
      ⟨wellFormed_wrapped _ leftForm.wellFormed, wellFormed_wrapped _ rightForm.wellFormed, ?_, ?_,
        by simp⟩, ?_, rfl, rfl, rfl, ?_, ?_⟩
    · refine le_binding_wrapped (Form.leftBinding_le_of_lt (Form.lt_atom op)) fun bare => ?_
      rw [leftForm.binding]
      exact leftBinding_le_of_bare bare
    · refine le_binding_wrapped (by cases op <;> decide) fun bare => ?_
      rw [rightForm.binding]
      exact rightBinding_le_of_bare (wrapsOperand_of_wrapsRight bare)
    · simp [Form.chars, Expr.text, joined, chars_wrapped leftForm.text,
        chars_wrapped rightForm.text, wrapLeft_def, wrapRight_def]
    · rw [tree_wrapped]
      exact leftForm.alike
    · rw [tree_wrapped]
      exact rightForm.alike
  | .call name args, ⟨isName, isFunction, all⟩ => by
    obtain ⟨fs, wellFormed, written, alike⟩ := exists_forms all
    refine ⟨.call name fs, ⟨isName, isFunction, wellFormed⟩, ?_, rfl, rfl, alike⟩
    simp [Form.chars, Expr.text, Form.listed_eq_intercalate written]

/-- The texts of several explicit trees. -/
theorem exists_forms {v : Vocabulary} : ∀ {es : List Expr}, AllExplicit v es →
    ∃ fs, Form.AllWellFormed v fs ∧
      List.Forall₂ (fun f text => Form.chars f = String.toList text) fs (texts es) ∧
      AllAlike es (Form.trees fs)
  | [], _ => ⟨[], trivial, .nil, trivial⟩
  | e :: es, ⟨head, all⟩ => by
    obtain ⟨f, form⟩ := exists_form head
    obtain ⟨fs, wellFormed, written, alike⟩ := exists_forms all
    exact ⟨f :: fs, ⟨form.wellFormed, wellFormed⟩, .cons form.text written, form.alike, alike⟩

end

/-- The text of an explicit tree is read as a tree like it. -/
theorem parse_text_alike {v : Vocabulary} {e : Expr} (explicit : e.IsExplicit v) :
    ∃ e', parse v e.text = .ok e' ∧ e.Alike e' := by
  obtain ⟨f, form⟩ := exists_form explicit
  refine ⟨f.tree, ?_, form.alike⟩
  rw [← Form.parse_chars form.wellFormed, form.text, String.ofList_toList]

/-- `x-(-2.5)^sqrt(pi)`. -/
def signedPower : Expr :=
  .binary .minus false (.var "x")
    (.binary .power false (.unary .negative (.literal (.finite false 250 (-2)) true))
      (.call "sqrt" [.var "pi"]))

theorem parse_signedPower :
    signedPower.IsExplicit Context.initial.vocabulary ∧
      ∃ e', parse Context.initial.vocabulary signedPower.text = .ok e' ∧ signedPower.Alike e' := by
  have value : (Decimal.finite false 250 (-2)).toRat? = some (5 / 2) := by
    norm_num [Decimal.toRat?]
  have digits : HasDigits 2 (5 / 2) := ⟨25, -1, by norm_num, by norm_num⟩
  have fits : Representable Decimal.exactDigits (5 / 2) :=
    ⟨digits.mono (by decide), inRange_of_le (k := 1) (by norm_num) (by norm_num) (by decide)⟩
  have base : (Expr.unary .negative (.literal (.finite false 250 (-2)) true)).IsExplicit
      Context.initial.vocabulary := ⟨_, value, by norm_num, fits⟩
  have exponent : (Expr.call "sqrt" [.var "pi"]).IsExplicit Context.initial.vocabulary :=
    ⟨by decide +kernel, by decide, ⟨by decide +kernel, Or.inr (by decide)⟩, trivial⟩
  have explicit : signedPower.IsExplicit Context.initial.vocabulary :=
    ⟨rfl, ⟨by decide +kernel, Or.inl ⟨by decide, by decide⟩⟩, rfl, base, exponent⟩
  exact ⟨explicit, parse_text_alike explicit⟩

end Expr

end Reckon
