import Reckon.Proofs.Expr.RoundTrip
import Reckon.Proofs.Form.Shape

/-!
# Equal texts, equal values

A product that is attached is written without its sign where that can be read, so the text `xy`
is one word to the scanner. With a product sign between the letters of a word (`spread`) the text
is that of a well-formed form again. A tree whose names are single characters is therefore
determined by its text, up to which products are attached, and so is its value.

Results: `exists_spelling`, `value_eq_of_text_eq`.
-/

namespace Reckon

/-- A product sign between neighbouring characters of names. -/
def spread : List Char → List Char
  | [] => []
  | [c] => [c]
  | c :: d :: cs =>
    if isNameChar c && isNameChar d then c :: '*' :: spread (d :: cs) else c :: spread (d :: cs)

/-- What is spread between two texts that end and begin like this. -/
def joint (c d : Char) : List Char :=
  if isNameChar c && isNameChar d then ['*'] else []

theorem spread_append {xs ys : List Char} {c d : Char} (last : xs.getLast? = some c)
    (head : ys.head? = some d) : spread (xs ++ ys) = spread xs ++ (joint c d ++ spread ys) := by
  fun_induction spread xs with
  | case1 => cases last
  | case2 b =>
    obtain rfl : b = c := Option.some.inj last
    obtain ⟨ds, rfl⟩ := List.head?_eq_some_iff.1 head
    change spread (b :: d :: ds) = _
    unfold joint
    rw [spread]
    split <;> rfl
  | case3 a b cs both ih =>
    rw [List.getLast?_cons_cons] at last
    rw [List.cons_append, List.cons_append, spread, if_pos both, ← List.cons_append, ih last]
    rfl
  | case4 a b cs apart ih =>
    rw [List.getLast?_cons_cons] at last
    rw [List.cons_append, List.cons_append, spread, if_neg apart, ← List.cons_append, ih last]
    rfl

theorem spread_eq_self {cs : List Char} (none : ∀ c ∈ cs, isNameChar c = false) :
    spread cs = cs := by
  fun_induction spread cs with
  | case1 => rfl
  | case2 c => rfl
  | case3 c d cs both ih =>
    rw [none c List.mem_cons_self] at both
    cases both
  | case4 c d cs apart ih => rw [ih fun b member => none b (List.mem_cons_of_mem c member)]

theorem joint_mark {c d : Char} (mark : isMark c = true ∨ isMark d = true) : joint c d = [] := by
  have apart : (isNameChar c && isNameChar d) = false := by
    rcases mark with mark | mark
    · rw [(isMark_classes mark).2.2.2, Bool.false_and]
    · rw [(isMark_classes mark).2.2.2, Bool.and_false]
  rw [joint, apart]
  rfl

/-- The character can be the last one of a form that ends like this. -/
def Edge.ends : Edge → Char → Bool
  | .number, c => c.isDigit
  | .name, c => isNameChar c
  | .paren, c => c == ')'
  | .sign, _ => false

namespace Expr

/-- No name is a function or longer than one character. -/
def letterwise : Vocabulary where
  isFunction _ := false
  isKnown _ := false

/-- The spread text is that of the form. -/
structure Spelling (s : String) (f : Form) : Prop where
  wellFormed : f.WellFormed letterwise
  chars : f.chars = spread s.toList
  head : ∃ c, s.toList.head? = some c ∧ f.first.begins c = true
  last : ∃ c, s.toList.getLast? = some c ∧ f.final.ends c = true

theorem Spelling.wrapped {s : String} {f : Form} (spelling : Spelling s f) (wrap : Bool) :
    Spelling (parens wrap s) (wrapped wrap f) := by
  cases wrap with
  | false => exact spelling
  | true =>
    obtain ⟨c, head, -⟩ := spelling.head
    obtain ⟨d, last, -⟩ := spelling.last
    have text : (parens true s).toList = ['('] ++ (s.toList ++ [')']) := by simp [parens]
    have inner : (s.toList ++ [')']).head? = some c := by rw [List.head?_append, head]; rfl
    refine ⟨spelling.wellFormed, ?_, ⟨'(', by rw [text]; rfl, rfl⟩,
      ⟨')', by rw [text, ← List.append_assoc, List.getLast?_concat], rfl⟩⟩
    rw [text, spread_append (c := '(') rfl inner, spread_append last (d := ')') rfl,
      joint_mark (Or.inl (by decide)), joint_mark (Or.inr (by decide)), ← spelling.chars]
    rfl

theorem Spelling.signed {s : String} {f : Form} (spelling : Spelling s f) (sign : Sign)
    (tight : Binding.unary ≤ f.binding) : Spelling (sign.symbol ++ s) (.signed sign f) := by
  obtain ⟨c, head, -⟩ := spelling.head
  obtain ⟨d, last, ends⟩ := spelling.last
  have final : (sign.symbol.toList ++ s.toList).getLast? = some d := by
    rw [List.getLast?_append, last]
    rfl
  obtain ⟨b, symbol, mark, begins⟩ : ∃ b, sign.symbol.toList = [b] ∧ isMark b = true ∧
      Edge.sign.begins b = true := by
    cases sign with
    | positive => exact ⟨'+', rfl, by decide, by decide⟩
    | negative => exact ⟨'-', rfl, by decide, by decide⟩
  refine ⟨⟨spelling.wellFormed, tight⟩, ?_, ⟨b, by rw [String.toList_append, symbol]; rfl, begins⟩,
    ⟨d, by rw [String.toList_append, final], ends⟩⟩
  rw [String.toList_append, symbol, spread_append (c := b) rfl head, joint_mark (Or.inl mark),
    ← spelling.chars, Form.chars, symbol]
  rfl

/-- Operands with the operator between them. -/
theorem Spelling.written {left right : String} {f g : Form} {op : Operator}
    (first : Spelling left f) (second : Spelling right g)
    (leftTight : Parser.leftBinding op ≤ f.binding)
    (rightTight : Parser.rightBinding op ≤ g.binding) :
    Spelling (left ++ op.symbol ++ right) (.binary op false f g) := by
  obtain ⟨b, head, begins⟩ := first.head
  obtain ⟨c, last, -⟩ := first.last
  obtain ⟨d, head', -⟩ := second.head
  obtain ⟨e, last', ends⟩ := second.last
  have text : (left ++ op.symbol ++ right).toList =
      left.toList ++ (op.symbol.toList ++ right.toList) := by simp
  obtain ⟨m, ms, symbol⟩ : ∃ m ms, op.symbol.toList = m :: ms := by cases op <;> exact ⟨_, _, rfl⟩
  obtain ⟨z, final⟩ : ∃ z, op.symbol.toList.getLast? = some z := by cases op <;> exact ⟨_, rfl⟩
  have markFirst : isMark m = true :=
    op.isMark_of_mem_symbol (by rw [symbol]; exact List.mem_cons_self)
  have markLast : isMark z = true := op.isMark_of_mem_symbol (List.mem_of_getLast? final)
  have plain : spread op.symbol.toList = op.symbol.toList :=
    spread_eq_self fun c member => (isMark_classes (op.isMark_of_mem_symbol member)).2.2.2
  have rest : (op.symbol.toList ++ right.toList).head? = some m := by rw [symbol]; rfl
  refine ⟨⟨first.wellFormed, second.wellFormed, leftTight, rightTight, by simp⟩, ?_,
    ⟨b, ?_, begins⟩,
    ⟨e, ?_, ends⟩⟩
  · rw [text, spread_append last rest, spread_append final head', joint_mark (Or.inr markFirst),
      joint_mark (Or.inl markLast), plain, ← first.chars, ← second.chars]
    rfl
  · rw [text, List.head?_append, head]
    rfl
  · rw [text, List.getLast?_append, List.getLast?_append, last']
    rfl

/-- Of two factors that are written side by side either both are letters, which are spread, or
they are read apart. -/
theorem exists_attached {left right : Edge} {c d : Char} {literalFirst : Bool}
    (ends : left.ends c = true) (begins : right.begins d = true)
    (beside : (!(literalFirst && d != '(') && !(Text.isLetter c && d == '(') &&
      (Text.isDigit c || Text.isLetter c || c == ')') && (Text.isLetter d || d == '(')) = true) :
    ∃ attached : Bool, joint c d = (if attached then [] else ['*']) ∧
      (attached = true → left.adjoins right = true) := by
  simp only [Bool.and_eq_true, Bool.not_eq_true', Bool.or_eq_true] at beside
  obtain ⟨⟨⟨-, noCall⟩, ending⟩, beginning⟩ := beside
  have factor : right = .name ∨ right = .paren := by
    cases right with
    | name => exact Or.inl rfl
    | paren => exact Or.inr rfl
    | number =>
      have letter := isLetter_of_ascii begins
      rcases beginning with isLetter | isParen
      · rw [letter] at isLetter
        cases isLetter
      · rw [eq_of_beq isParen] at begins
        cases begins
    | sign =>
      rcases Bool.or_eq_true_iff.1 begins with plus | minus
      · rw [eq_of_beq plus, isLetter_of_isMark (by decide)] at beginning
        exact absurd beginning (by decide)
      · rw [eq_of_beq minus, isLetter_of_isMark (by decide)] at beginning
        exact absurd beginning (by decide)
  cases left with
  | sign => cases ends
  | number =>
    refine ⟨true, ?_, fun _ => by rcases factor with rfl | rfl <;> rfl⟩
    rw [joint, isNameChar_of_ascii ends]
    rfl
  | paren =>
    refine ⟨true, ?_, fun _ => by rcases factor with rfl | rfl <;> rfl⟩
    rw [eq_of_beq ends, joint_mark (Or.inl (by decide))]
    rfl
  | name =>
    have name : isNameChar c = true := ends
    rcases factor with rfl | rfl
    · refine ⟨false, ?_, by simp⟩
      rw [joint, name, show isNameChar d = true from begins]
      rfl
    · -- A letter before a parenthesis would be a call.
      rw [show (d == '(') = true from begins, Bool.and_true] at noCall
      rcases ending with (digit | letter) | closing
      · rw [isDigit_of_isNameChar name] at digit
        cases digit
      · rw [noCall] at letter
        cases letter
      · exact absurd (eq_of_beq closing) (ne_of_isNameChar name (by decide))

/-- Factors without an operator between them: letters are spread, all else is read apart. -/
theorem Spelling.juxtaposed {left right : String} {f g : Form} {literalFirst : Bool}
    (first : Spelling left f) (second : Spelling right g)
    (beside : juxtaposable left.toList right.toList literalFirst = true)
    (leftTight : Parser.leftBinding .times ≤ f.binding)
    (rightTight : Parser.rightBinding .times ≤ g.binding) :
    ∃ attached, Spelling (left ++ right) (.binary .times attached f g) := by
  obtain ⟨b, head, begins⟩ := first.head
  obtain ⟨c, last, ends'⟩ := first.last
  obtain ⟨d, head', begins'⟩ := second.head
  obtain ⟨e, last', ends⟩ := second.last
  obtain ⟨attached, between, apart⟩ := exists_attached ends' begins' (by
    rwa [juxtaposable, last, head'] at beside)
  refine ⟨attached, ⟨first.wellFormed, second.wellFormed, leftTight, rightTight,
    fun isAttached => ⟨rfl, apart isAttached⟩⟩, ?_, ⟨b, ?_, begins⟩, ⟨e, ?_, ends⟩⟩
  · rw [String.toList_append, spread_append last head', between, ← first.chars, ← second.chars]
    cases attached <;> rfl
  · rw [String.toList_append, List.head?_append, head]
    rfl
  · rw [String.toList_append, List.getLast?_append, last']
    rfl

theorem spelling_number (m : Numeral) : Spelling (String.ofList m.chars) (.number m) := by
  have wellFormed : (Form.number m).WellFormed letterwise := trivial
  obtain ⟨c, cs, shape, digit⟩ := m.exists_chars
  obtain ⟨d, last, stops⟩ := Form.exists_stop wellFormed trivial none
  refine ⟨wellFormed, ?_, ⟨c, ?_, digit⟩, ⟨d, ?_, stops⟩⟩
  · rw [String.toList_ofList, spread_eq_self]
    · rfl
    · intro c member
      rcases m.digit_or_point member with digit | rfl
      · exact isNameChar_of_ascii digit
      · exact isNameChar_eq_false (by decide)
  · rw [String.toList_ofList, shape]
    rfl
  · rw [String.toList_ofList, Form.getLast?_eq_lastOf]
    exact last

/-! ## Trees -/

/-- Literals are written exactly and every name is one character. -/
def IsSpelled : Expr → Prop
  | .literal n _ => ∃ q, n.toRat? = some q ∧ 0 ≤ q ∧ Representable Decimal.exactDigits q
  | .var name => ∃ c, name.toList = [c] ∧ isNameChar c = true
  | .unary _ e => e.IsSpelled
  | .binary _ _ l r => l.IsSpelled ∧ r.IsSpelled
  | _ => False

variable {I : Interpretation ℚ} {ρ : String → ℚ}

/-- The text of a tree is, when it is spread, that of a form with the same value. -/
theorem exists_spelling : ∀ {e : Expr}, e.IsSpelled →
    ∃ f, Spelling e.text f ∧ f.binding = e.binding ∧ f.tree.value I ρ = e.value I ρ
  | .literal n written, ⟨q, value, nonnegative, fits⟩ => by
    obtain ⟨m, mValue, text⟩ := Decimal.exists_numeral value fits
    rw [if_neg (not_lt.2 nonnegative)] at text
    rw [abs_of_nonneg nonnegative] at mValue
    refine ⟨.number m, ?_, ?_, ?_⟩
    · rw [Expr.text, text]
      exact spelling_number m
    · have positive : n.isNegative = false := by
        rw [Bool.eq_false_iff, Ne, Decimal.isNegative_iff value]
        exact not_lt.2 nonnegative
      simp [Form.binding, Expr.binding, positive]
    · rw [Form.tree, Expr.value, Expr.value, Decimal.toRat_of_toRat? value,
        Decimal.toRat_of_toRat? mValue]
  | .var name, ⟨c, shape, letter⟩ => by
    have isName : IsName name := ⟨by simp [shape], by simp [shape, letter]⟩
    refine ⟨.word name, ⟨⟨isName, Or.inr (by simp [shape]), by simp [letterwise]⟩, ?_, ?_, ?_⟩, rfl,
      rfl⟩
    · rw [Form.chars, Expr.text, shape]
      rfl
    · exact ⟨c, by rw [Expr.text, shape]; rfl, letter⟩
    · exact ⟨c, by rw [Expr.text, shape]; rfl, letter⟩
  | .unary sign e, spelled => by
    obtain ⟨f, spelling, binding, value⟩ := exists_spelling (e := e) spelled
    set wrap := wrapsOperand (.unary sign e) e with wrap_def
    refine ⟨.signed sign (wrapped wrap f), ?_, rfl, ?_⟩
    · rw [Expr.text, ← wrap_def]
      refine (spelling.wrapped wrap).signed sign (le_binding_wrapped (by decide) fun bare => ?_)
      rw [binding]
      exact unary_le_of_bare bare
    · rw [Form.tree, tree_wrapped, Expr.value, Expr.value, value]
  | .binary op attached l r, ⟨left, right⟩ => by
    obtain ⟨f, leftSpelling, leftBinding, leftValue⟩ := exists_spelling left
    obtain ⟨g, rightSpelling, rightBinding, rightValue⟩ := exists_spelling right
    set wrapLeft := wrapsLeft (.binary op attached l r) l with wrapLeft_def
    set wrapRight := wrapsRight (.binary op attached l r) r with wrapRight_def
    have leftTight : Parser.leftBinding op ≤ (wrapped wrapLeft f).binding := by
      refine le_binding_wrapped (Form.leftBinding_le_of_lt (Form.lt_atom op)) fun bare => ?_
      rw [leftBinding]
      exact leftBinding_le_of_bare bare
    have rightTight : Parser.rightBinding op ≤ (wrapped wrapRight g).binding := by
      refine le_binding_wrapped (Form.rightBinding_le_of_lt (Form.lt_atom op)) fun bare => ?_
      rw [rightBinding]
      exact rightBinding_le_of_bare (wrapsOperand_of_wrapsRight bare)
    have value : ∀ attached', (Form.binary op attached' (wrapped wrapLeft f)
        (wrapped wrapRight g)).tree.value I ρ = (Expr.binary op attached l r).value I ρ := by
      intro attached'
      rw [Form.tree, tree_wrapped, tree_wrapped, Expr.value, Expr.value, leftValue, rightValue]
    rw [Expr.text, ← wrapLeft_def, ← wrapRight_def, joined]
    split
    next beside =>
      simp only [Bool.and_eq_true, beq_iff_eq] at beside
      obtain ⟨⟨-, rfl⟩, beside⟩ := beside
      obtain ⟨attached', spelling⟩ := (leftSpelling.wrapped wrapLeft).juxtaposed
        (rightSpelling.wrapped wrapRight) beside leftTight rightTight
      exact ⟨_, spelling, rfl, value attached'⟩
    next =>
      exact ⟨_, (leftSpelling.wrapped wrapLeft).written (rightSpelling.wrapped wrapRight) leftTight
        rightTight, rfl, value false⟩

/-- Trees with the same text have the same value. -/
theorem value_eq_of_text_eq {e e' : Expr} (spelled : e.IsSpelled) (spelled' : e'.IsSpelled)
    (same : e.text = e'.text) : e.value I ρ = e'.value I ρ := by
  obtain ⟨f, spelling, -, value⟩ := exists_spelling (I := I) (ρ := ρ) spelled
  obtain ⟨g, spelling', -, value'⟩ := exists_spelling (I := I) (ρ := ρ) spelled'
  have chars : f.chars = g.chars := by rw [spelling.chars, spelling'.chars, same]
  have parsed := Form.parse_chars spelling.wellFormed
  rw [chars, Form.parse_chars spelling'.wellFormed] at parsed
  rw [← value, ← value', Except.ok.inj parsed]

end Expr

end Reckon
