import Reckon.Proofs.Calc
import Reckon.Proofs.Decimal.Text
import Reckon.Proofs.Expr.Meaning
import Reckon.Proofs.Form.Shape
import Reckon.Term.Combine

/-!
# What the text of a term means

A symbolic term is a text. `Term.Denotes` says that the text is that of a tidy form whose tree means
a given number, so that every operation on texts can be checked against the number that it should
mean. Which trees mean which number is left open, as far as signs and products are what they should
be (`Meaning`).

Results: `exists_operand` (operands and their parentheses), `denotes_operation`,
`denotes_product`, `denotes_negateText`.
-/

namespace Reckon

/-- The tree of the text of a number: a literal with a sign in front if it is negative. -/
def Expr.IsNumeral (x : ℚ) (e : Expr) : Prop :=
  ∃ n : Decimal, n.toRat? = some |x| ∧
    e = if x < 0 then .unary .negative (.literal n true) else .literal n true

/-- Which trees mean which number: literals, changed signs and products are as usual. -/
structure Meaning (M : ℚ → Expr → Prop) : Prop where
  literal : ∀ {n x}, n.toRat? = some x → 0 ≤ x → M x (.literal n true)
  negative : ∀ {x e}, M x (.unary .negative e) ↔ M (-x) e
  times : ∀ {x y attached l r}, M x l → M y r → M (x * y) (.binary .times attached l r)

variable {v : Vocabulary} {M N P : ℚ → Expr → Prop} {x y z : ℚ}

theorem Meaning.numeral (meaning : Meaning M) {e : Expr} (numeral : e.IsNumeral x) : M x e := by
  obtain ⟨n, value, rfl⟩ := numeral
  split
  next negative =>
    rw [abs_of_neg negative] at value
    exact meaning.negative.2 (meaning.literal value (neg_pos.2 negative).le)
  next positive =>
    rw [abs_of_nonneg (not_lt.1 positive)] at value
    exact meaning.literal value (not_lt.1 positive)

/-- The form is read as a tree that means this number. -/
structure Form.Denotes (v : Vocabulary) (M : ℚ → Expr → Prop) (f : Form) (x : ℚ) : Prop where
  wellFormed : f.WellFormed v
  tidy : f.Tidy
  value : M x f.tree

theorem Form.Denotes.paren {f : Form} (denotes : f.Denotes v M x) :
    (Form.paren f).Denotes v M x :=
  ⟨denotes.wellFormed, trivial, denotes.value⟩

theorem Form.Denotes.negative (meaning : Meaning M) {f : Form} (denotes : f.Denotes v M x)
    (tight : Binding.unary ≤ f.binding) (unsigned : f.first ≠ .sign) :
    (Form.signed .negative f).Denotes v M (-x) :=
  ⟨⟨denotes.wellFormed, tight⟩, ⟨rfl, denotes.tidy, unsigned⟩,
    meaning.negative.2 (by rw [neg_neg]; exact denotes.value)⟩

/-- Nothing but a sign binds as tightly as a sign. -/
theorem Form.Denotes.exists_negative (meaning : Meaning M) {f : Form} (denotes : f.Denotes v M x)
    (unary : f.binding = Binding.unary) :
    ∃ g : Form, f = .signed .negative g ∧ g.Denotes v M (-x) ∧ Binding.unary ≤ g.binding ∧
      g.first ≠ .sign := by
  cases f with
  | signed sign g =>
    obtain ⟨rfl, tidy, unsigned⟩ := denotes.tidy
    exact ⟨g, rfl, ⟨denotes.wellFormed.1, tidy, meaning.negative.1 denotes.value⟩,
      denotes.wellFormed.2, unsigned⟩
  | binary op attached l r =>
    have unary : op.binding = Binding.unary := unary
    clear denotes
    cases op <;> cases unary
  | _ => cases unary

namespace Term

/-- The number has this value, needs no more digits and is written as what means it; the text is
that of a form that means this number and has a name in it. -/
def Denotes (v : Vocabulary) (M : ℚ → Expr → Prop) (digits : Nat) : Term → ℚ → Prop
  | .numeric n, x => n.toRat? = some x ∧ Representable digits x ∧ ∀ e, e.IsNumeral x → M x e
  | .symbolic s b, x =>
    ∃ f : Form, f.Denotes v M x ∧ f.chars = s.toList ∧ b.getD (looseness s) = f.binding ∧
      ∃ c ∈ s.toList, isNameChar c = true

theorem Denotes.mono {m n : Nat} {t : Term} (denotes : t.Denotes v M m x) (more : m ≤ n) :
    t.Denotes v M n x := by
  cases t with
  | numeric d => exact ⟨denotes.1, denotes.2.1.mono more, denotes.2.2⟩
  | symbolic s b => exact denotes

/-- A text with a binding that the text itself shows. -/
theorem denotes_ofName {digits : Nat} {f : Form} {s : String} (denotes : f.Denotes v M x)
    (text : f.chars = s.toList) (name : ∃ c ∈ s.toList, isNameChar c = true) :
    (Term.ofName s).Denotes v M digits x := by
  refine ⟨f, denotes, text, ?_, name⟩
  rw [Option.getD_none, ← Form.looseness_chars denotes.wellFormed denotes.tidy, text,
    String.ofList_toList]

/-! ## Numbers as forms -/

/-- The plain text of a number is that of a form. -/
theorem exists_number {n : Decimal} (value : n.toRat? = some x)
    (fits : Representable Decimal.exactDigits x) (written : ∀ e, e.IsNumeral x → M x e) :
    ∃ f : Form, f.Denotes v M x ∧ f.chars = n.plain.toList ∧
      f.binding = if x < 0 then Binding.unary else Binding.atom := by
  obtain ⟨m, mValue, text⟩ := Decimal.exists_numeral value fits
  rw [text, String.toList_ofList]
  split
  next negative =>
    have tight : Binding.unary ≤ (Form.number m).binding :=
      (by decide : Binding.unary ≤ Binding.atom)
    refine ⟨.signed .negative (.number m),
      ⟨⟨trivial, tight⟩, ⟨rfl, trivial, by simp [Form.first]⟩, ?_⟩, rfl, rfl⟩
    exact written _ ⟨_, mValue, (if_pos negative).symm⟩
  next positive =>
    refine ⟨.number m, ⟨trivial, trivial, ?_⟩, rfl, rfl⟩
    exact written _ ⟨_, mValue, (if_neg positive).symm⟩

/-- What a term is written as next to an operator, before parentheses. -/
theorem exists_rendered {t : Term} {precision : Nat} {text : String}
    (denotes : t.Denotes v M (min precision Decimal.exactDigits) x)
    (done : t.render (some precision) = .ok text) :
    ∃ f : Form, f.Denotes v M x ∧ f.chars = text.toList ∧ t.binding = .ok f.binding ∧
      (t.isNumeric = false → ∃ c ∈ text.toList, isNameChar c = true) := by
  cases t with
  | symbolic s b =>
    obtain ⟨f, form, chars, binding, name⟩ := denotes
    obtain rfl := Except.ok.inj done
    exact ⟨f, form, chars, congrArg Except.ok binding, fun _ => name⟩
  | numeric n =>
    obtain ⟨value, fits, written⟩ := denotes
    obtain ⟨r, rounded, rest⟩ := exists_of_ok_bind done
    obtain ⟨_, -, shown⟩ := exists_of_ok_bind rest
    obtain rfl := Except.ok.inj shown
    have rValue : r.toRat? = some x := by
      have rounded : roundDigits n precision = .ok r := rounded
      unfold roundDigits at rounded
      split at rounded
      next => cases rounded
      next =>
        obtain ⟨r', exact, r'Value⟩ :=
          Precision.round_exact (p := .halfUp precision) value (fits.mono (min_le_left _ _))
        rw [liftSignal_eq_ok, exact] at rounded
        rwa [← Except.ok.inj rounded]
    obtain ⟨f, form, chars, binding⟩ :=
      exists_number (v := v) rValue (fits.mono (min_le_right _ _)) written
    refine ⟨f, form, chars, ?_, by simp [isNumeric]⟩
    rw [Term.binding, Decimal.less_eq value Decimal.toRat?_zero, binding]
    by_cases negative : x < 0 <;> simp [negative, bind, Except.bind, pure, Except.pure]

/-! ## Operands -/

/-- The least binding of an operand without parentheses. -/
def Side.least (side : Side) (op : Operator) : Binding :=
  match side with
  | .left => Parser.leftBinding op
  | .right => Parser.rightBinding op

theorem Side.least_le_atom (side : Side) (op : Operator) : side.least op ≤ Binding.atom := by
  cases side <;> cases op <;> decide

/-- An operand that needs no parentheses binds tightly enough. -/
theorem Side.least_le_of_bare {side : Side} {op : Operator} {text : String} {b : Binding}
    (bare : needsParens op side text b = false) : side.least op ≤ b := by
  unfold needsParens at bare
  split at bare
  next => cases bare
  next notLess =>
    split at bare
    next same =>
      have other := of_decide_eq_false bare
      cases side with
      | left =>
        have direction : op.associativity = .leftToRight := by
          cases shape : op.associativity with
          | leftToRight => rfl
          | rightToLeft => exact absurd shape other
        rw [least, Parser.leftBinding, direction]
        exact same.ge
      | right =>
        have direction : op.associativity = .rightToLeft := by
          cases shape : op.associativity with
          | leftToRight => exact absurd shape other
          | rightToLeft => rfl
        rw [least, Parser.rightBinding, direction]
        exact same.ge
    next different =>
      have less : op.binding < b := lt_of_le_of_ne (not_lt.1 notLess) (Ne.symm different)
      cases side with
      | left => exact Form.leftBinding_le_of_lt less
      | right => exact Form.rightBinding_le_of_lt less

/-- Only loose operands and those with a sign get parentheses. -/
theorem binding_ne_atom_of_needsParens {side : Side} {op : Operator} {f : Form} {text : String}
    (denotes : f.Denotes v M x) (chars : f.chars = text.toList)
    (needed : needsParens op side text f.binding = true) : f.binding ≠ Binding.atom := by
  intro atom
  unfold needsParens at needed
  have below := Form.lt_atom op
  rw [atom, if_neg (not_lt.2 below.le), if_neg below.ne', Bool.and_eq_true] at needed
  have starts := String.startsWith_string_iff.1 needed.2
  obtain ⟨c, cs, shape, start⟩ := Form.exists_start denotes.wellFormed denotes.tidy
  rw [← chars, shape] at starts
  obtain ⟨rfl, -⟩ := List.cons_prefix_cons.1 starts
  have signed : f.first = .sign := Edge.eq_sign_of_starts start
  have loose := Form.binding_le_unary denotes.wellFormed signed
  rw [atom] at loose
  exact absurd loose (by decide)

/-- A right operand that needs no parentheses has no sign in front. -/
theorem first_ne_sign_of_bare {op : Operator} {f : Form} {text : String}
    (denotes : f.Denotes v M x) (chars : f.chars = text.toList)
    (bare : needsParens op .right text f.binding = false) : f.first ≠ .sign := by
  intro signed
  have loose := Form.binding_le_unary denotes.wellFormed signed
  obtain ⟨c, cs, shape, start⟩ := Form.exists_start denotes.wellFormed denotes.tidy
  rw [signed] at start
  have starts : text.startsWith "-" = true := by
    rw [String.startsWith_string_iff, ← chars, shape, eq_of_beq start]
    exact List.cons_prefix_cons.2 ⟨rfl, List.nil_prefix⟩
  have tight : Parser.rightBinding op ≤ f.binding := Side.least_le_of_bare bare
  unfold needsParens at bare
  split at bare
  next => cases bare
  split at bare
  next same =>
    -- Only a power may be followed by an operand that binds like it, and that has no sign.
    rw [same] at tight loose
    cases op <;> first | exact absurd tight (by decide) | exact absurd loose (by decide)
  next =>
    rw [starts] at bare
    cases bare

/-- An operand as it is written, with the parentheses that it needs. -/
theorem exists_operand {t : Term} {op : Operator} {precision : Nat} {side : Side} {text : String}
    (denotes : t.Denotes v M (min precision Decimal.exactDigits) x)
    (done : t.operandText op (some precision) side = .ok text) :
    ∃ f : Form, f.Denotes v M x ∧ f.chars = text.toList ∧ side.least op ≤ f.binding ∧
      (side = .right → f.first ≠ .sign) ∧
      (t.isNumeric = false → ∃ c ∈ text.toList, isNameChar c = true) := by
  obtain ⟨shown, rendered, rest⟩ := exists_of_ok_bind done
  obtain ⟨f, form, chars, binding, name⟩ := exists_rendered denotes rendered
  rw [binding] at rest
  have result := Except.ok.inj rest
  cases needed : needsParens op side shown f.binding with
  | true =>
    have loose := binding_ne_atom_of_needsParens form chars needed
    have bare : isWrapped shown.toList = false := by
      rw [← chars]
      exact Form.isWrapped_chars form.wellFormed loose
    rw [needed, bare] at result
    have wrapped : text.toList = '(' :: (shown.toList ++ [')']) := by
      rw [← result]
      simp
    refine ⟨.paren f, form.paren, ?_, side.least_le_atom op, by simp [Form.first], ?_⟩
    · rw [wrapped, ← chars]
      rfl
    · intro symbolic
      obtain ⟨c, member, letter⟩ := name symbolic
      exact ⟨c, by simp [wrapped, member], letter⟩
  | false =>
    rw [needed] at result
    obtain rfl : shown = text := result
    refine ⟨f, form, chars, Side.least_le_of_bare needed, ?_, name⟩
    rintro rfl
    exact first_ne_sign_of_bare form chars needed

/-! ## Operations -/

/-- Operands with an operator between them. -/
theorem denotes_written (op : Operator) {digits : Nat} {f g : Form} {left right : String}
    (first : f.Denotes v M x) (second : g.Denotes v N y) (leftText : f.chars = left.toList)
    (rightText : g.chars = right.toList) (leftTight : Parser.leftBinding op ≤ f.binding)
    (rightTight : Parser.rightBinding op ≤ g.binding) (unsigned : g.first ≠ .sign)
    (name : ∃ c ∈ left.toList ++ right.toList, isNameChar c = true)
    (joined : P z (.binary op false f.tree g.tree)) :
    (Term.symbolic (left ++ op.symbol ++ right) (some op.binding)).Denotes v P digits z := by
  refine ⟨.binary op false f g, ⟨⟨first.wellFormed, second.wellFormed, leftTight, rightTight,
    by simp⟩, ⟨first.tidy, second.tidy, unsigned⟩, joined⟩, ?_, rfl, ?_⟩
  · simp [Form.chars, leftText, rightText]
  · obtain ⟨c, member, letter⟩ := name
    refine ⟨c, ?_, letter⟩
    rcases List.mem_append.1 member with inLeft | inRight
    · simp [inLeft]
    · simp [inRight]

theorem denotes_operation {op : Operator} {digits precision : Nat} {a b t : Term}
    (left : a.Denotes v M (min precision Decimal.exactDigits) x)
    (right : b.Denotes v N (min precision Decimal.exactDigits) y)
    (symbolic : a.isNumeric = false ∨ b.isNumeric = false)
    (joins : ∀ {l r}, M x l → N y r → P z (.binary op false l r))
    (done : operation op (some precision) a b = .ok t) : t.Denotes v P digits z := by
  have texts : (do
      let left ← a.operandText op (some precision) .left
      let right ← b.operandText op (some precision) .right
      return .symbolic (left ++ op.symbol ++ right) (some op.binding) : Except Fault Term) =
        .ok t := by
    rw [← done]
    cases a with
    | symbolic s c => rfl
    | numeric m =>
      cases b with
      | symbolic s c => rfl
      | numeric n => simp [isNumeric] at symbolic
  obtain ⟨leftText, leftDone, rest⟩ := exists_of_ok_bind texts
  obtain ⟨rightText, rightDone, rest⟩ := exists_of_ok_bind rest
  obtain rfl := Except.ok.inj rest
  obtain ⟨f, form, chars, tight, -, name⟩ := exists_operand left leftDone
  obtain ⟨g, form', chars', tight', unsigned, name'⟩ := exists_operand right rightDone
  refine denotes_written op form form' chars chars' tight tight' (unsigned rfl) ?_
    (joins form.value form'.value)
  rcases symbolic with first | second
  · obtain ⟨c, member, letter⟩ := name first
    exact ⟨c, List.mem_append_left _ member, letter⟩
  · obtain ⟨c, member, letter⟩ := name' second
    exact ⟨c, List.mem_append_right _ member, letter⟩

/-! ## Products -/

/-- Where the sign of a product is left out, its factors are still read apart. -/
theorem adjoins_of_adjoin {left right : Edge} {c d : Char} (stops : left.stops c = true)
    (starts : right.starts d = true) (adjoin : Term.adjoin c d = true) :
    left.adjoins right = true := by
  obtain ⟨ends, begins⟩ := Bool.and_eq_true_iff.1 adjoin
  have factor : right = .name ∨ right = .paren := by
    cases right with
    | name => exact Or.inl rfl
    | paren => exact Or.inr rfl
    | number =>
      have letter := isLetter_of_ascii starts
      have other : (d == '(') = false := by
        rw [beq_eq_false_iff_ne]
        rintro rfl
        exact absurd starts (by decide)
      rw [letter, other] at begins
      cases begins
    | sign =>
      rw [eq_of_beq starts, isLetter_of_isMark (by decide)] at begins
      cases begins
  cases left with
  | number => rcases factor with rfl | rfl <;> rfl
  | paren => rcases factor with rfl | rfl <;> rfl
  | sign => cases stops
  | name =>
    have name := isNameChar_of_isLetter stops
    have other : (c == ')') = false := beq_eq_false_iff_ne.2 (ne_of_isNameChar name (by decide))
    rw [isDigit_of_isNameChar name, other] at ends
    cases ends

theorem denotes_productText (meaning : Meaning M) {digits precision : Nat} {a b t : Term}
    (left : a.Denotes v M (min precision Decimal.exactDigits) x)
    (right : b.Denotes v M (min precision Decimal.exactDigits) y)
    (symbolic : a.isNumeric = false ∨ b.isNumeric = false)
    (done : productText (some precision) a b = .ok t) : t.Denotes v M digits (x * y) := by
  obtain ⟨leftText, leftDone, rest⟩ := exists_of_ok_bind done
  obtain ⟨rightText, rightDone, rest⟩ := exists_of_ok_bind rest
  obtain ⟨f, form, chars, tight, -, name⟩ := exists_operand left leftDone
  obtain ⟨g, form', chars', tight', unsigned, name'⟩ := exists_operand right rightDone
  have letters : ∃ c ∈ leftText.toList ++ rightText.toList, isNameChar c = true := by
    rcases symbolic with first | second
    · obtain ⟨c, member, letter⟩ := name first
      exact ⟨c, List.mem_append_left _ member, letter⟩
    · obtain ⟨c, member, letter⟩ := name' second
      exact ⟨c, List.mem_append_right _ member, letter⟩
  obtain ⟨c, last, stops⟩ := Form.exists_stop form.wellFormed form.tidy none
  obtain ⟨d, ds, shape, starts⟩ := Form.exists_start form'.wellFormed form'.tidy
  have last : leftText.toList.getLast? = some c := by rw [← chars, Form.getLast?_eq_lastOf, last]
  have head : rightText.toList.head? = some d := by rw [← chars', shape]; rfl
  simp only [last, head] at rest
  obtain rfl := Except.ok.inj rest
  cases beside : adjoin c d with
  | false =>
    exact denotes_written .times form form' chars chars' tight tight' (unsigned rfl) letters
      (meaning.times form.value form'.value)
  | true =>
    have adjoins := adjoins_of_adjoin stops starts beside
    refine ⟨.binary .times true f g, ⟨⟨form.wellFormed, form'.wellFormed, tight, tight',
      fun _ => ⟨rfl, adjoins⟩⟩, ⟨form.tidy, form'.tidy, unsigned rfl⟩,
      meaning.times form.value form'.value⟩, ?_, rfl, ?_⟩
    · simp [Form.chars, chars, chars']
    · simpa using letters

/-! ## Negations -/

/-- What stands under a minus sign is no number if it has a name in it. -/
theorem ofText?_operand {f : Form} (denotes : f.Denotes v M x) (tight : Binding.unary ≤ f.binding)
    (unsigned : f.first ≠ .sign) (name : ∃ c ∈ f.chars, isNameChar c = true) :
    Decimal.ofText? (String.ofList f.chars) = none := by
  have barrier : ∀ c : Char, c ∈ f.chars → Decimal.isBarrier c = true →
      Decimal.ofText? (String.ofList f.chars) = none := by
    intro c member barrier
    exact Decimal.ofText?_eq_none barrier (by rwa [String.toList_ofList])
  cases f with
  | number m =>
    obtain ⟨c, member, letter⟩ := name
    rcases m.digit_or_point member with digit | rfl
    · rw [asciiDigit_of_isNameChar letter] at digit
      cases digit
    · exact absurd rfl (ne_of_isNameChar letter (by decide))
  | word w =>
    obtain ⟨c, shape, letter⟩ := denotes.tidy
    rw [Form.chars, shape]
    exact Decimal.ofText?_letter letter
  | signed sign f => exact absurd rfl unsigned
  | binary op attached l r =>
    cases attached with
    | true =>
      obtain ⟨rfl, -⟩ := denotes.wellFormed.2.2.2.2 rfl
      exact absurd (show Binding.unary ≤ Operator.times.binding from tight) (by decide)
    | false =>
      -- Only a power binds more tightly than a sign.
      have isPower : op = .power := by
        have tight : Binding.unary ≤ op.binding := tight
        clear name barrier denotes unsigned
        cases op <;> revert tight <;> decide
      rw [isPower]
      rw [isPower] at barrier
      exact barrier '^' (by simp [Form.chars, Operator.symbol]) (by decide)
  | call w args => exact barrier '(' (by simp [Form.chars]) (by decide)
  | paren f => exact barrier '(' (by simp [Form.chars]) (by decide)

theorem denotes_signed (meaning : Meaning M) {digits : Nat} {s : String} {f : Form}
    (form : f.Denotes v M x) (tight : Binding.unary ≤ f.binding) (unsigned : f.first ≠ .sign)
    (chars : f.chars = s.toList) (name : ∃ c ∈ s.toList, isNameChar c = true) :
    (Term.symbolic ("-" ++ s) (some Binding.unary)).Denotes v M digits (-x) := by
  refine ⟨.signed .negative f, form.negative meaning tight unsigned, ?_, rfl, ?_⟩
  · simp [Form.chars, Sign.symbol, chars]
  · obtain ⟨c, member, letter⟩ := name
    exact ⟨c, by simp [member], letter⟩

theorem denotes_negateText (meaning : Meaning M) {digits : Nat} {s : String} {b : Option Binding}
    (denotes : (Term.symbolic s b).Denotes v M digits x) :
    (negateText s (b.getD (looseness s))).Denotes v M digits (-x) := by
  obtain ⟨f, form, chars, binding, name⟩ := denotes
  rw [binding]
  have wrapped :
      (Term.symbolic ("-(" ++ s ++ ")") (some Binding.unary)).Denotes v M digits (-x) := by
    have text : "-(" ++ s ++ ")" = "-" ++ ("(" ++ s ++ ")") := by
      rw [← String.append_assoc, ← String.append_assoc]
      rfl
    rw [text]
    refine denotes_signed meaning form.paren (by decide : Binding.unary ≤ Binding.atom)
      (by simp [Form.first]) (by simp [Form.chars, chars]) ?_
    obtain ⟨c, member, letter⟩ := name
    exact ⟨c, by simp [member], letter⟩
  unfold negateText
  split
  next cs shape =>
    have signed : f.first = .sign := by
      obtain ⟨c, ds, start, starts⟩ := Form.exists_start form.wellFormed form.tidy
      rw [chars, shape] at start
      rw [← (List.cons.inj start).1] at starts
      exact Edge.eq_sign_of_starts starts
    split
    next unary =>
      obtain ⟨g, rfl, inner, tight, unsigned⟩ := form.exists_negative meaning unary
      rw [shape] at chars
      have text : g.chars = (String.ofList cs).toList := by
        rw [String.toList_ofList]
        exact (List.cons.inj chars).2
      have name : ∃ c ∈ (String.ofList cs).toList, isNameChar c = true := by
        obtain ⟨c, member, letter⟩ := name
        rw [shape, List.mem_cons] at member
        rcases member with rfl | member
        · exact absurd rfl (ne_of_isNameChar letter (by decide))
        · exact ⟨c, by rwa [String.toList_ofList], letter⟩
      have symbolic : Decimal.ofText? (String.ofList cs) = none := by
        rw [← String.ofList_toList (s := String.ofList cs), ← text]
        exact ofText?_operand inner tight unsigned (text ▸ name)
      rw [Term.ofText, symbolic]
      exact denotes_ofName inner text name
    next other =>
      rw [if_pos (lt_of_le_of_ne (Form.binding_le_unary form.wellFormed signed) other)]
      exact wrapped
  next other =>
    split
    next => exact wrapped
    next tight =>
      refine denotes_signed meaning form (not_lt.1 tight) (fun signed => ?_) chars name
      obtain ⟨c, cs, start, starts⟩ := Form.exists_start form.wellFormed form.tidy
      rw [signed] at starts
      rw [chars, eq_of_beq starts] at start
      exact other cs start

/-! ## Combining -/

/-- A product whose coefficient, if there is one, stands first. -/
theorem denotes_scaled (meaning : Meaning M) {digits ambient precision : Nat} {a t : Term}
    {s : String} {b : Option Binding} (left : a.Denotes v M (min precision Decimal.exactDigits) x)
    (right : (Term.symbolic s b).Denotes v M (min precision Decimal.exactDigits) y)
    (done : product ambient (some precision) a (.symbolic s b) = .ok t) :
    t.Denotes v M digits (x * y) := by
  cases a with
  | symbolic r c => exact denotes_productText meaning left right (Or.inr rfl) done
  | numeric n =>
    have value : n.toRat? = some x := left.1
    unfold product at done
    simp only [isNumeric, Bool.false_and, Bool.false_eq_true, if_false] at done
    split at done
    next zero =>
      obtain rfl := Except.ok.inj done
      rw [(Decimal.isZero_iff value).1 zero, zero_mul]
      exact ⟨Decimal.toRat?_zero, representable_zero digits, fun _ => meaning.numeral⟩
    split at done
    next one =>
      obtain rfl := Except.ok.inj done
      rw [(Decimal.same_iff value Decimal.toRat?_one).1 one, one_mul]
      exact right
    split at done
    next opposite =>
      obtain rfl := Except.ok.inj done
      rw [(Decimal.same_iff value (Decimal.toRat?_ofInt (-1))).1 opposite, Int.cast_neg,
        Int.cast_one, neg_one_mul]
      exact denotes_negateText meaning right
    next => exact denotes_productText meaning left right (Or.inr rfl) done

theorem denotes_product (meaning : Meaning M) {digits ambient precision : Nat} {a b t : Term}
    (left : a.Denotes v M (min precision Decimal.exactDigits) x)
    (right : b.Denotes v M (min precision Decimal.exactDigits) y)
    (symbolic : a.isNumeric = false ∨ b.isNumeric = false)
    (done : product ambient (some precision) a b = .ok t) : t.Denotes v M digits (x * y) := by
  cases b with
  | symbolic s c => exact denotes_scaled meaning left right done
  | numeric n =>
    cases a with
    | symbolic s c =>
      rw [mul_comm]
      exact denotes_scaled meaning right left done
    | numeric m => simp [isNumeric] at symbolic

/-- No character of a name belongs to anything else. -/
theorem isPlainChar_of_isNameChar {c : Char} (letter : isNameChar c = true) :
    isPlainChar c = false := by
  have other : ∀ d ∈ "+-*/^<>=!".toList ++ ".()[], ".toList, isNameChar d = false :=
    fun d plain => isNameChar_eq_false plain
  rw [Bool.eq_false_iff]
  intro plain
  rcases Bool.or_eq_true_iff.1 plain with plain | mark
  · rcases Bool.or_eq_true_iff.1 plain with digit | operator
    · rw [isDigit_of_isNameChar letter] at digit
      cases digit
    · rw [other c (List.mem_append_left _ (List.contains_iff_mem.1 operator))] at letter
      cases letter
  · rw [other c (List.mem_append_right _ (List.contains_iff_mem.1 mark))] at letter
    cases letter

theorem nameChar?_symbolic {digits : Nat} {s : String} {b : Option Binding}
    (denotes : (Term.symbolic s b).Denotes v M digits x) :
    (Term.symbolic s b).nameChar?.isSome = true := by
  obtain ⟨f, -, -, -, c, member, letter⟩ := denotes
  rw [nameChar?, List.find?_isSome]
  exact ⟨c, member, by rw [isPlainChar_of_isNameChar letter]; rfl⟩

theorem nameChar?_numeric {n : Decimal} (value : n.toRat? = some x)
    (fits : Representable Decimal.exactDigits x) : (Term.numeric n).nameChar? = none := by
  obtain ⟨m, -, text⟩ := Decimal.exists_numeral value fits
  rw [nameChar?, List.find?_eq_none]
  intro c member
  rw [Term.text, text, String.toList_ofList] at member
  have digits : ∀ c ∈ m.chars, (!isPlainChar c) ≠ true := by
    intro c member
    rcases m.digit_or_point member with digit | rfl
    · simp [isPlainChar, Text.isDigit_of_ascii digit]
    · decide
  split at member
  next =>
    rcases List.mem_cons.1 member with rfl | member
    · decide
    · exact digits c member
  next => exact digits c member

theorem hasName_symbolic {digits : Nat} {s : String} {b : Option Binding}
    (denotes : (Term.symbolic s b).Denotes v M digits x) :
    (Term.symbolic s b).hasName = .ok true :=
  congrArg Except.ok (nameChar?_symbolic denotes)

theorem hasName_numeric {n : Decimal} (value : n.toRat? = some x)
    (fits : Representable Decimal.exactDigits x) : (Term.numeric n).hasName = .ok false := by
  obtain ⟨_, rounded, -⟩ :=
    Precision.round_exact (p := .halfEven Decimal.exactDigits) value fits
  rw [hasName, render_numeric rounded, nameChar?_numeric value fits]
  rfl

/-- Two numbers are computed. -/
theorem combine_numeric (ambient precision : Nat) {m n : Decimal} (op : Operator)
    (left : m.toRat? = some x) (right : n.toRat? = some y)
    (leftFits : Representable Decimal.exactDigits x)
    (rightFits : Representable Decimal.exactDigits y) :
    ∃ digits, combine ambient op (some precision) (.numeric m) (.numeric n) =
      (do return .numeric (← Arithmetic.apply op digits m n)) := by
  have unnamed : eitherHasName (.numeric m) (.numeric n) = .ok false := by
    rw [eitherHasName, hasName_numeric left leftFits]
    exact hasName_numeric right rightFits
  rw [combine, unnamed]
  exact ⟨_, ite_self _⟩

/-- Unless both are numbers, terms are combined as texts. -/
theorem combine_symbolic {op : Operator} {digits digits' ambient precision : Nat} {a b : Term}
    (few : digits ≤ Decimal.exactDigits) (left : a.Denotes v M digits x)
    (right : b.Denotes v N digits' y) (symbolic : a.isNumeric = false ∨ b.isNumeric = false) :
    combine ambient op (some precision) a b =
      if op = .times then product ambient (some precision) a b
      else operation op (some precision) a b := by
  have named : eitherHasName a b = .ok true := by
    cases a with
    | symbolic s c =>
      rw [eitherHasName, hasName_symbolic left]
      rfl
    | numeric m =>
      cases b with
      | symbolic s c =>
        rw [eitherHasName, hasName_numeric left.1 (left.2.1.mono few)]
        exact hasName_symbolic right
      | numeric n => simp [isNumeric] at symbolic
  rw [combine, named]
  rfl

end Term

end Reckon
