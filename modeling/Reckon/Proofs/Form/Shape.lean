import Reckon.Proofs.Form.Scan
import Reckon.Term.Shape

/-!
# The shape of a form as it is seen in its text

Terms look at their texts: whether one pair of parentheses encloses them (`isWrapped`) and how
tightly their loosest operation binds (`looseness`). For the text of a well-formed form these are
what the form says.

Results: `Form.isWrapped_chars`, `Form.exists_unwrap`, `Form.looseness_chars`.
-/

namespace Reckon

/-! ## Balanced texts -/

/-- Every parenthesis has its partner. -/
inductive Balanced : List Char → Prop
  | nil : Balanced []
  | plain {c : Char} {cs : List Char} (opening : c ≠ '(') (closing : c ≠ ')')
      (rest : Balanced cs) : Balanced (c :: cs)
  | group {inner cs : List Char} (inside : Balanced inner) (rest : Balanced cs) :
      Balanced ('(' :: (inner ++ ')' :: cs))

theorem Balanced.append {s t : List Char} (first : Balanced s) (second : Balanced t) :
    Balanced (s ++ t) := by
  induction first with
  | nil => exact second
  | plain opening closing _ ih => exact .plain opening closing ih
  | group inside _ _ ih =>
    rw [List.cons_append, List.append_assoc, List.cons_append]
    exact .group inside ih

theorem balanced_of_forall {cs : List Char} (plain : ∀ c ∈ cs, c ≠ '(' ∧ c ≠ ')') :
    Balanced cs := by
  induction cs with
  | nil => exact .nil
  | cons c cs ih =>
    obtain ⟨opening, closing⟩ := plain c (.head _)
    exact .plain opening closing (ih fun d member => plain d (.tail _ member))

/-- A balanced text inside of parentheses does not close them. -/
theorem Balanced.closesAtEnd_append {cs : List Char} (balanced : Balanced cs) {depth : Nat}
    (inside : 0 < depth) (rest : List Char) :
    closesAtEnd depth (cs ++ rest) = closesAtEnd depth rest := by
  induction balanced generalizing depth rest with
  | nil => rfl
  | plain opening closing _ ih =>
    rw [List.cons_append, closesAtEnd]
    simp only [beq_iff_eq, opening, closing, if_false]
    exact ih inside rest
  | @group inner cs _ _ innerIh ih =>
    have opens : closesAtEnd depth ('(' :: (inner ++ (')' :: (cs ++ rest)))) =
        closesAtEnd (depth + 1) (inner ++ (')' :: (cs ++ rest))) := rfl
    have closes :
        closesAtEnd (depth + 1) (')' :: (cs ++ rest)) = closesAtEnd depth (cs ++ rest) := by
      simp [closesAtEnd, inside.ne']
    rw [List.cons_append, List.append_assoc, List.cons_append, opens,
      innerIh (Nat.succ_pos depth), closes, ih inside]

/-- The last character of a text, or the one in front of an empty text. -/
def lastOf (previous : Option Char) : List Char → Option Char
  | [] => previous
  | c :: cs => lastOf (some c) cs

theorem lastOf_append (previous : Option Char) (s t : List Char) :
    lastOf previous (s ++ t) = lastOf (lastOf previous s) t := by
  induction s generalizing previous with
  | nil => rfl
  | cons c s ih => exact ih (some c)

/-- Nothing inside of parentheses counts for the looseness. -/
theorem Balanced.loosenessFrom_append {cs : List Char} (balanced : Balanced cs) {depth : Int}
    (inside : 0 < depth) (previous : Option Char) (rest : List Char) :
    loosenessFrom depth previous (cs ++ rest) =
      loosenessFrom depth (lastOf previous cs) rest := by
  induction balanced generalizing depth previous rest with
  | nil => rfl
  | @plain c cs opening closing _ ih =>
    have same : depthAfter depth c = depth := by simp [depthAfter, opening, closing]
    rw [List.cons_append, loosenessFrom, if_neg inside.ne', same, ih inside]
    rfl
  | @group inner cs _ _ innerIh ih =>
    have deeper : depthAfter depth '(' = depth + 1 := rfl
    have back : depthAfter (depth + 1) ')' = depth := by simp [depthAfter]
    rw [List.cons_append, List.append_assoc, List.cons_append, loosenessFrom, if_neg inside.ne',
      deeper, innerIh (by omega), loosenessFrom, if_neg (by omega), back, ih inside, lastOf,
      lastOf_append]
    rfl

/-! ## Forms -/

namespace Form

theorem balanced_name {name : String} (isName : IsName name) : Balanced name.toList := by
  refine balanced_of_forall fun c member => ?_
  have letter := isName.2 c member
  exact ⟨ne_of_isNameChar letter (by decide), ne_of_isNameChar letter (by decide)⟩

theorem balanced_numeral (n : Numeral) : Balanced n.chars := by
  refine balanced_of_forall fun c member => ?_
  rcases n.digit_or_point member with digit | rfl
  · constructor
    · rintro rfl
      exact absurd digit (by decide)
    · rintro rfl
      exact absurd digit (by decide)
  · decide

theorem balanced_symbol (op : Operator) : Balanced op.symbol.toList := by
  refine balanced_of_forall (List.all_iff_forall_prop.1 ?_)
  cases op <;> decide

mutual

theorem balanced_chars {v : Vocabulary} : ∀ {f : Form}, f.WellFormed v → Balanced f.chars
  | .number n, _ => balanced_numeral n
  | .word _, ⟨isName, _⟩ => balanced_name isName
  | .signed .positive _, ⟨operand, _⟩ => .plain (by decide) (by decide) (balanced_chars operand)
  | .signed .negative _, ⟨operand, _⟩ => .plain (by decide) (by decide) (balanced_chars operand)
  | .binary _ true _ _, ⟨left, right, _⟩ => (balanced_chars left).append (balanced_chars right)
  | .binary op false _ _, ⟨left, right, _⟩ =>
    (balanced_chars left).append ((balanced_symbol op).append (balanced_chars right))
  | .call _ _, ⟨isName, _, all⟩ =>
    (balanced_name isName).append (.group (balanced_listed all) .nil)
  | .paren f, inner => .group (balanced_chars (f := f) inner) .nil

theorem balanced_listed {v : Vocabulary} :
    ∀ {fs : List Form}, AllWellFormed v fs → Balanced (listed fs)
  | [], _ => .nil
  | [_], ⟨head, _⟩ => balanced_chars head
  | _ :: _ :: _, ⟨head, all⟩ =>
    (balanced_chars head).append
      (.plain (by decide) (by decide) (.plain (by decide) (by decide) (balanced_listed all)))

end

/-! ## Enclosing parentheses -/

theorem isWrapped_of_first {v : Vocabulary} {f : Form} (wellFormed : f.WellFormed v)
    (bare : f.first ≠ .paren) (rest : List Char) : isWrapped (f.chars ++ rest) = false := by
  obtain ⟨c, cs, shape, begins⟩ := exists_chars wellFormed.readable
  have other : c ≠ '(' := by
    rintro rfl
    cases edge : f.first with
    | paren => exact bare edge
    | name =>
      rw [edge] at begins
      exact ne_of_isNameChar begins (by decide) rfl
    | _ =>
      rw [edge] at begins
      exact absurd begins (by decide)
  rw [shape, List.cons_append]
  unfold isWrapped
  split
  next equal => exact absurd (List.cons.inj equal).1 other
  next => rfl

/-- A text that goes on after its first form is not enclosed. -/
theorem isWrapped_append {v : Vocabulary} : ∀ {f : Form}, f.WellFormed v →
    ∀ {rest : List Char}, rest ≠ [] → isWrapped (f.chars ++ rest) = false
  | .binary _ attached l r, ⟨left, right, _⟩, rest, more => by
    rw [chars, List.append_assoc]
    refine isWrapped_append left ?_
    simp [more]
  | .paren f, inner, rest, more => by
    change closesAtEnd 1 (f.chars ++ [')'] ++ rest) = false
    rw [List.append_assoc, (balanced_chars (f := f) inner).closesAtEnd_append (by decide)]
    simpa [closesAtEnd] using more
  | .number n, wellFormed, rest, _ => isWrapped_of_first wellFormed (by simp [first]) rest
  | .word _, wellFormed, rest, _ => isWrapped_of_first wellFormed (by simp [first]) rest
  | .signed _ _, wellFormed, rest, _ => isWrapped_of_first wellFormed (by simp [first]) rest
  | .call _ _, wellFormed, rest, _ => isWrapped_of_first wellFormed (by simp [first]) rest

/-- Only a form in parentheses is enclosed in them. -/
theorem isWrapped_chars {v : Vocabulary} {f : Form} (wellFormed : f.WellFormed v)
    (loose : f.binding ≠ Binding.atom) : isWrapped f.chars = false := by
  cases f with
  | signed sign f =>
    have shape := isWrapped_of_first wellFormed (by simp [first]) []
    rwa [List.append_nil] at shape
  | binary op attached l r =>
    obtain ⟨left, right, -⟩ := wellFormed
    obtain ⟨c, cs, shape, -⟩ := exists_chars right.readable
    exact isWrapped_append left (by simp [shape])
  | _ => exact absurd rfl loose

theorem unwrap_chars {v : Vocabulary} {f : Form} (wellFormed : f.WellFormed v)
    (bare : ∀ g, f ≠ .paren g) : unwrap f.chars = f.chars := by
  have unwrapped : isWrapped f.chars = false := by
    cases f with
    | paren g => exact absurd rfl (bare g)
    | binary op attached l r => exact isWrapped_chars wellFormed (lt_atom op).ne
    | _ =>
      have shape := isWrapped_of_first wellFormed (by simp [first]) []
      rwa [List.append_nil] at shape
  rw [unwrap, dif_neg (Bool.eq_false_iff.1 unwrapped)]

/-- Without its enclosing parentheses the text is that of a form with the same tree. -/
theorem exists_unwrap {v : Vocabulary} : ∀ {f : Form}, f.WellFormed v →
    ∃ g : Form, g.WellFormed v ∧ g.tree = f.tree ∧ g.chars = unwrap f.chars
  | .paren f, wellFormed => by
    obtain ⟨g, inside, tree, text⟩ := exists_unwrap (f := f) wellFormed
    have wrapped : isWrapped (Form.paren f).chars = true := by
      change closesAtEnd 1 (f.chars ++ [')']) = true
      rw [(balanced_chars (f := f) wellFormed).closesAtEnd_append (by decide)]
      rfl
    refine ⟨g, inside, tree, ?_⟩
    rw [unwrap, dif_pos wrapped, text]
    simp [inner, chars]
  | .number _, wellFormed => ⟨_, wellFormed, rfl, (unwrap_chars wellFormed nofun).symm⟩
  | .word _, wellFormed => ⟨_, wellFormed, rfl, (unwrap_chars wellFormed nofun).symm⟩
  | .signed _ _, wellFormed => ⟨_, wellFormed, rfl, (unwrap_chars wellFormed nofun).symm⟩
  | .binary _ _ _ _, wellFormed => ⟨_, wellFormed, rfl, (unwrap_chars wellFormed nofun).symm⟩
  | .call _ _, wellFormed => ⟨_, wellFormed, rfl, (unwrap_chars wellFormed nofun).symm⟩

end Form

/-! ## The binding at a character -/

/-- The character can be the first one of a form that begins like this. -/
def Edge.starts : Edge → Char → Bool
  | .number, c => c.isDigit
  | .name, c => Text.isLetter c
  | .paren, c => c == '('
  | .sign, c => c == '-'

/-- The character can be the last one of a form that ends like this. -/
def Edge.stops : Edge → Char → Bool
  | .number, c => c.isDigit
  | .name, c => Text.isLetter c
  | .paren, c => c == ')'
  | .sign, _ => false

theorem isMark_of_isOperatorChar {c : Char} (operator : isOperatorChar c = true) :
    isMark c = true := by
  have all : ("+-*/^<>=!".toList.all isMark) = true := by decide
  exact List.all_eq_true.1 all c (List.contains_iff_mem.1 operator)

theorem isOperatorChar_of_ascii {c : Char} (digit : c.isDigit = true) :
    isOperatorChar c = false := by
  rw [Bool.eq_false_iff]
  intro operator
  rw [asciiDigit_of_isMark (isMark_of_isOperatorChar operator)] at digit
  cases digit

theorem isOperatorChar_of_isNameChar {c : Char} (letter : isNameChar c = true) :
    isOperatorChar c = false := by
  rw [Bool.eq_false_iff]
  intro operator
  rw [(isMark_classes (isMark_of_isOperatorChar operator)).2.2.2] at letter
  cases letter

theorem Edge.isOperatorChar_of_starts {edge : Edge} {c : Char} (starts : edge.starts c = true)
    (unsigned : edge ≠ .sign) : isOperatorChar c = false := by
  cases edge with
  | number => exact isOperatorChar_of_ascii starts
  | name => exact isOperatorChar_of_isNameChar (isNameChar_of_isLetter starts)
  | paren =>
    rw [eq_of_beq starts]
    decide
  | sign => exact absurd rfl unsigned

/-- A minus begins nothing but a sign. -/
theorem Edge.eq_sign_of_starts {edge : Edge} (starts : edge.starts '-' = true) : edge = .sign := by
  cases edge with
  | sign => rfl
  | name => exact absurd rfl (ne_of_isNameChar (isNameChar_of_isLetter starts) (by decide))
  | _ => exact absurd starts (by decide)

theorem Edge.isOperatorChar_of_stops {edge : Edge} {c : Char} (stops : edge.stops c = true) :
    isOperatorChar c = false := by
  cases edge with
  | number => exact isOperatorChar_of_ascii stops
  | name => exact isOperatorChar_of_isNameChar (isNameChar_of_isLetter stops)
  | paren =>
    rw [eq_of_beq stops]
    decide
  | sign => cases stops

/-- Away from operators, only two factors side by side count. -/
theorem bindingAt_operand {c : Char} (previous : Option Char) (operand : isOperatorChar c = false) :
    bindingAt previous c =
      if previous.any (adjoinAsProduct · c) then Binding.multiplicative else Binding.atom := by
  have apart : ∀ d ∈ "+-*/^<>=!".toList, c ≠ d := by
    intro d member same
    rw [same, isOperatorChar, List.contains_iff_mem.2 member] at operand
    cases operand
  have comparison : "<>=!".toList.contains c = false := by
    rw [Bool.eq_false_iff, Ne, List.contains_iff_mem]
    intro member
    exact apart c (by simp at member ⊢; tauto) rfl
  simp only [bindingAt, comparison, Bool.false_eq_true, if_false, Bool.or_eq_true, beq_iff_eq,
    apart '+' (by decide), apart '-' (by decide), apart '*' (by decide), apart '/' (by decide),
    apart '^' (by decide), or_self]

theorem isLetter_of_ascii {c : Char} (digit : c.isDigit = true) : Text.isLetter c = false := by
  rw [Bool.eq_false_iff]
  intro letter
  rw [asciiDigit_of_isNameChar (isNameChar_of_isLetter letter)] at digit
  cases digit

/-- Nothing is a factor right after an operator. -/
theorem adjoinAsProduct_operator {c : Char} (operator : isOperatorChar c = true) (d : Char) :
    adjoinAsProduct c d = false := by
  have mark := isMark_of_isOperatorChar operator
  obtain ⟨-, digit, point, letter⟩ := isMark_classes mark
  have closing : c ≠ ')' := by
    rintro rfl
    exact absurd operator (by decide)
  have notLetter : Text.isLetter c = false := (Bool.or_eq_false_iff.1 letter).1
  simp [adjoinAsProduct, digit, point, notLetter, closing]

/-- Forms that stand side by side are seen as factors. -/
theorem Edge.adjoinAsProduct_of_adjoins {left right : Edge} {c d : Char}
    (adjoins : left.adjoins right = true) (stops : left.stops c = true)
    (starts : right.starts d = true) : adjoinAsProduct c d = true := by
  have bracket : ∀ {c : Char}, isMark c = true →
      Text.isDigit c = false ∧ Text.isLetter c = false :=
    fun mark => ⟨(isMark_classes mark).2.1, isLetter_of_isMark mark⟩
  have closing := bracket (by decide : isMark ')' = true)
  have opening := bracket (by decide : isMark '(' = true)
  have letterClass : ∀ {c : Char}, Text.isLetter c = true → Text.isDigit c = false ∧ c ≠ '.' := by
    intro c letter
    have name := isNameChar_of_isLetter letter
    exact ⟨isDigit_of_isNameChar name, ne_of_isNameChar name (by decide)⟩
  cases left with
  | sign => cases stops
  | number =>
    have digit := Text.isDigit_of_ascii stops
    have letter := isLetter_of_ascii stops
    cases right with
    | number => cases adjoins
    | sign => cases adjoins
    | name =>
      have starts : Text.isLetter d = true := starts
      simp [adjoinAsProduct, digit, letter, letterClass starts, starts]
    | paren =>
      obtain rfl : d = '(' := eq_of_beq starts
      simp [adjoinAsProduct, digit, letter, opening]
  | name =>
    have stops : Text.isLetter c = true := stops
    cases right with
    | number =>
      have digit := Text.isDigit_of_ascii starts
      have letter := isLetter_of_ascii starts
      have notOpening : d ≠ '(' := by
        rintro rfl
        exact absurd starts (by decide)
      simp [adjoinAsProduct, stops, letterClass stops, digit, letter, notOpening]
    | _ => cases adjoins
  | paren =>
    obtain rfl : c = ')' := eq_of_beq stops
    cases right with
    | sign => cases adjoins
    | number => simp [adjoinAsProduct, closing, Text.isDigit_of_ascii starts]
    | name =>
      have starts : Text.isLetter d = true := starts
      simp [adjoinAsProduct, closing, starts]
    | paren =>
      obtain rfl : d = '(' := eq_of_beq starts
      simp [adjoinAsProduct, closing]

/-! ## Looseness -/

theorem bindingAt_le (previous : Option Char) (c : Char) : bindingAt previous c ≤ Binding.atom := by
  cases operator : isOperatorChar c with
  | false =>
    rw [bindingAt_operand previous operator]
    split <;> decide
  | true =>
    unfold bindingAt
    split
    · decide
    split
    · cases previous with
      | none => decide
      | some p =>
        dsimp only
        split <;> decide
    split
    · decide
    split
    · decide
    split <;> decide

theorem loosenessFrom_le (depth : Int) (previous : Option Char) (cs : List Char) :
    loosenessFrom depth previous cs ≤ Binding.atom := by
  induction cs generalizing depth previous with
  | nil => exact le_refl _
  | cons c cs ih =>
    rw [loosenessFrom]
    split
    · exact (min_le_left _ _).trans (bindingAt_le _ _)
    · exact ih _ _

theorem loosenessFrom_cons {previous : Option Char} {c : Char} (cs : List Char) (opening : c ≠ '(')
    (closing : c ≠ ')') :
    loosenessFrom 0 previous (c :: cs) =
      min (bindingAt previous c) (loosenessFrom 0 (some c) cs) := by
  have same : depthAfter 0 c = 0 := by simp [depthAfter, opening, closing]
  rw [loosenessFrom, if_pos rfl, same]

/-- A group in parentheses is one unit. -/
theorem loosenessFrom_group {previous : Option Char} {inner : List Char} (balanced : Balanced inner)
    (rest : List Char) :
    loosenessFrom 0 previous ('(' :: (inner ++ ')' :: rest)) =
      min (bindingAt previous '(') (loosenessFrom 0 (some ')') rest) := by
  have back : depthAfter 1 ')' = 0 := rfl
  rw [loosenessFrom, if_pos rfl]
  change min _ (loosenessFrom 1 _ _) = _
  rw [balanced.loosenessFrom_append (by decide), loosenessFrom, if_neg (by decide), back]

/-- Characters of one kind make up one unit. -/
theorem loosenessFrom_solid {p : Char → Bool} (plain : ∀ c, p c = true → c ≠ '(' ∧ c ≠ ')')
    (solid : ∀ c d, p c = true → p d = true → bindingAt (some c) d = Binding.atom)
    {c : Char} {cs : List Char} (all : ∀ d ∈ c :: cs, p d = true) (previous : Option Char)
    (rest : List Char) :
    loosenessFrom 0 previous (c :: (cs ++ rest)) =
      min (bindingAt previous c) (loosenessFrom 0 (lastOf (some c) cs) rest) := by
  induction cs generalizing c previous with
  | nil =>
    obtain ⟨opening, closing⟩ := plain c (all c (.head _))
    exact loosenessFrom_cons rest opening closing
  | cons d cs ih =>
    have first := all c (.head _)
    obtain ⟨opening, closing⟩ := plain c first
    have others : ∀ e ∈ d :: cs, p e = true := fun e member => all e (.tail _ member)
    rw [List.cons_append, loosenessFrom_cons _ opening closing, ih others,
      solid c d first (others d (.head _)), min_eq_right (loosenessFrom_le _ _ _)]
    rfl

/-- An operator between operands. -/
theorem loosenessFrom_symbol (op : Operator) {c : Char} (operand : isOperatorChar c = false)
    (rest : List Char) :
    loosenessFrom 0 (some c) (op.symbol.toList ++ rest) =
      min op.binding (loosenessFrom 0 (lastOf none op.symbol.toList) rest) := by
  cases op <;> simp [Operator.symbol, loosenessFrom, bindingAt, depthAfter, operand, lastOf,
    Operator.binding, Binding.comparison, Binding.additive]

namespace Form

/-- Variables are single letters, functions are named by letters, and outside of parentheses the
only sign is a minus in front of everything. -/
def Tidy : Form → Prop
  | .number _ => True
  | .word name => ∃ c, name.toList = [c] ∧ Text.isLetter c = true
  | .signed sign f => sign = .negative ∧ f.Tidy ∧ f.first ≠ .sign
  | .binary _ _ l r => l.Tidy ∧ r.Tidy ∧ r.first ≠ .sign
  | .call name _ => ∀ c ∈ name.toList, Text.isLetter c = true
  | .paren _ => True

variable {v : Vocabulary}

theorem exists_start : ∀ {f : Form}, f.WellFormed v → f.Tidy →
    ∃ c cs, f.chars = c :: cs ∧ f.first.starts c = true
  | .number n, _, _ => n.exists_chars
  | .word _, _, ⟨c, shape, letter⟩ => ⟨c, [], shape, letter⟩
  | .signed .negative f, _, _ => ⟨'-', f.chars, rfl, rfl⟩
  | .binary _ _ l r, ⟨left, _⟩, ⟨tidy, _⟩ => by
    obtain ⟨c, cs, shape, starts⟩ := exists_start left tidy
    exact ⟨c, _, by rw [chars, shape, List.cons_append], starts⟩
  | .call name args, ⟨isName, _⟩, letters => by
    obtain ⟨c, cs, shape, -⟩ := IsName.exists_chars isName
    exact ⟨c, _, by rw [chars, shape, List.cons_append], letters c (by simp [shape])⟩
  | .paren f, _, _ => ⟨'(', _, rfl, rfl⟩

theorem getLast?_eq_lastOf (cs : List Char) : cs.getLast? = lastOf none cs := by
  have after : ∀ (c : Char) (cs : List Char), (c :: cs).getLast? = lastOf (some c) cs := by
    intro c cs
    induction cs generalizing c with
    | nil => rfl
    | cons d cs ih => exact (List.getLast?_cons_cons).trans (ih d)
  cases cs with
  | nil => rfl
  | cons c cs => exact after c cs

theorem exists_lastOf {p : Char → Bool} {cs : List Char} (nonempty : cs ≠ [])
    (all : ∀ c ∈ cs, p c = true) (previous : Option Char) :
    ∃ c, lastOf previous cs = some c ∧ p c = true := by
  induction cs generalizing previous with
  | nil => exact absurd rfl nonempty
  | cons c cs ih =>
    cases cs with
    | nil => exact ⟨c, rfl, all c (.head _)⟩
    | cons d cs => exact ih (by simp) (fun e member => all e (.tail _ member)) (some c)

theorem lastOf_numeral (n : Numeral) (previous : Option Char) :
    ∃ c, lastOf previous n.chars = some c ∧ c.isDigit = true := by
  unfold Numeral.chars
  split
  next => exact exists_lastOf n.nonempty n.wholeDigits previous
  next some =>
    rw [lastOf_append, lastOf]
    exact exists_lastOf some n.fractionDigits _

theorem exists_stop : ∀ {f : Form}, f.WellFormed v → f.Tidy → ∀ previous : Option Char,
    ∃ c, lastOf previous f.chars = some c ∧ f.final.stops c = true
  | .number n, _, _, previous => lastOf_numeral n previous
  | .word _, _, ⟨c, shape, letter⟩, _ => ⟨c, by rw [chars, shape]; rfl, letter⟩
  | .signed .negative _, ⟨operand, _⟩, ⟨_, tidy, _⟩, _ => exists_stop operand tidy _
  | .binary _ _ _ _, ⟨_, right, _⟩, ⟨_, tidy, _⟩, _ => by
    rw [chars, lastOf_append, lastOf_append]
    exact exists_stop right tidy _
  | .call name args, _, _, _ => by
    rw [chars, lastOf_append, lastOf, lastOf_append]
    exact ⟨')', rfl, rfl⟩
  | .paren f, _, _, _ => by
    rw [chars, lastOf, lastOf_append]
    exact ⟨')', rfl, rfl⟩

/-- How tightly the text binds at its first character. -/
def joint (previous : Option Char) : List Char → Binding
  | [] => Binding.atom
  | c :: _ => bindingAt previous c

theorem bindingAt_numeral {c d : Char} (first : c.isDigit = true ∨ c = '.')
    (second : d.isDigit = true ∨ d = '.') : bindingAt (some c) d = Binding.atom := by
  have numeral : ∀ {c : Char}, c.isDigit = true ∨ c = '.' →
      (Text.isDigit c || c == '.') = true := by
    rintro c (digit | rfl)
    · rw [Text.isDigit_of_ascii digit, Bool.true_or]
    · decide
  have operand : isOperatorChar d = false := by
    rcases second with digit | rfl
    · exact isOperatorChar_of_ascii digit
    · decide
  have product : adjoinAsProduct c d = false := by
    simp [adjoinAsProduct, numeral first, numeral second]
  rw [bindingAt_operand _ operand, Option.any_some, product]
  rfl

theorem bindingAt_letter {c d : Char} (first : Text.isLetter c = true)
    (second : Text.isLetter d = true ∨ d = '(') : bindingAt (some c) d = Binding.atom := by
  have operand : isOperatorChar d = false := by
    rcases second with letter | rfl
    · exact isOperatorChar_of_isNameChar (isNameChar_of_isLetter letter)
    · decide
  have product : adjoinAsProduct c d = false := by
    rcases second with letter | rfl
    · simp [adjoinAsProduct, first, letter]
    · simp [adjoinAsProduct, first]
  rw [bindingAt_operand _ operand, Option.any_some, product]
  rfl

/-- Right after an operator an operand begins. -/
theorem joint_of_operator {f : Form} (wellFormed : f.WellFormed v) (tidy : f.Tidy)
    (unsigned : f.first ≠ .sign) {c : Char} (operator : isOperatorChar c = true) :
    joint (some c) f.chars = Binding.atom := by
  obtain ⟨d, ds, shape, starts⟩ := exists_start wellFormed tidy
  rw [shape, joint, bindingAt_operand _ (Edge.isOperatorChar_of_starts starts unsigned),
    Option.any_some, adjoinAsProduct_operator operator]
  rfl

theorem binding_le (f : Form) : f.binding ≤ Binding.atom := by
  cases f with
  | signed sign f => exact (by decide : Binding.unary ≤ Binding.atom)
  | binary op attached l r => exact (lt_atom op).le
  | _ => exact le_refl _

theorem joint_append {f : Form} (wellFormed : f.WellFormed v) (previous : Option Char)
    (rest : List Char) : joint previous (f.chars ++ rest) = joint previous f.chars := by
  obtain ⟨c, cs, shape, -⟩ := exists_chars wellFormed.readable
  rw [shape]
  rfl

theorem exists_lastOf_symbol (op : Operator) :
    ∃ c, lastOf none op.symbol.toList = some c ∧ isOperatorChar c = true := by
  cases op <;> exact ⟨_, rfl, by decide⟩

/-- A bound that is met already. -/
theorem min_min_of_le {a b : Binding} (c : Binding) (le : a ≤ b) : min a (min b c) = min a c := by
  rw [← min_assoc, min_eq_left le]

/-- The text of the form adds the operations at its beginning and inside of it to the looseness of
what follows. -/
def Measures (f : Form) : Prop :=
  ∀ (previous : Option Char) (rest : List Char), (f.first = .sign → previous = none) →
    loosenessFrom 0 previous (f.chars ++ rest) =
      min (joint previous f.chars) (min f.binding (loosenessFrom 0 (lastOf previous f.chars) rest))

theorem measures_number (n : Numeral) : (Form.number n).Measures := by
  intro previous rest _
  obtain ⟨c, cs, shape, -⟩ := n.exists_chars
  have all : ∀ d ∈ c :: cs, (d.isDigit || d == '.') = true := by
    intro d member
    simpa using n.digit_or_point (shape ▸ member)
  have plain : ∀ d : Char, (d.isDigit || d == '.') = true → d ≠ '(' ∧ d ≠ ')' := by
    intro d numeral
    constructor <;>
    · rintro rfl
      exact absurd numeral (by decide)
  have solid := loosenessFrom_solid plain
    (fun _ _ first second => bindingAt_numeral (by simpa using first) (by simpa using second))
    all previous rest
  rw [chars, shape, List.cons_append, solid]
  change _ = min (bindingAt previous c) (min Binding.atom _)
  rw [min_eq_right (loosenessFrom_le _ _ _)]
  rfl

theorem measures_word {name : String} {c : Char} (shape : name.toList = [c])
    (letter : Text.isLetter c = true) : (Form.word name).Measures := by
  intro previous rest _
  have name := isNameChar_of_isLetter letter
  have plain : c ≠ '(' ∧ c ≠ ')' :=
    ⟨ne_of_isNameChar name (by decide), ne_of_isNameChar name (by decide)⟩
  rw [chars, shape, List.singleton_append, loosenessFrom_cons rest plain.1 plain.2]
  change _ = min (bindingAt previous c) (min Binding.atom _)
  rw [min_eq_right (loosenessFrom_le _ _ _)]
  rfl

theorem measures_negative {f : Form} (wellFormed : (Form.signed .negative f).WellFormed v)
    (tidy : (Form.signed .negative f).Tidy) (inner : f.Measures) :
    (Form.signed .negative f).Measures := by
  intro previous rest initial
  obtain ⟨operand, tight⟩ := wellFormed
  obtain ⟨-, tidy, unsigned⟩ := tidy
  obtain rfl := initial rfl
  have first : loosenessFrom 0 none ('-' :: (f.chars ++ rest)) =
      min Binding.unary (loosenessFrom 0 (some '-') (f.chars ++ rest)) :=
    loosenessFrom_cons _ (by decide) (by decide)
  change loosenessFrom 0 none ('-' :: (f.chars ++ rest)) =
    min Binding.unary (min Binding.unary (loosenessFrom 0 (lastOf (some '-') f.chars) rest))
  rw [first, inner (some '-') rest (fun signed => absurd signed unsigned),
    joint_of_operator operand tidy unsigned (by decide), min_min_of_le _ (by decide),
    min_min_of_le _ tight, min_min_of_le _ (le_refl _)]

/-- The product that is not written stands at the first character of its second factor. -/
theorem measures_product {op : Operator} {l r : Form}
    (wellFormed : (Form.binary op true l r).WellFormed v) (tidy : (Form.binary op true l r).Tidy)
    (before : l.Measures) (after : r.Measures) : (Form.binary op true l r).Measures := by
  intro previous rest initial
  obtain ⟨left, right, leftTight, rightTight, apart⟩ := wellFormed
  obtain ⟨tidyLeft, tidyRight, unsigned⟩ := tidy
  obtain ⟨rfl, adjoins⟩ := apart rfl
  obtain ⟨c, last, stops⟩ := exists_stop left tidyLeft previous
  obtain ⟨d, ds, shape, starts⟩ := exists_start right tidyRight
  have product : joint (some c) r.chars = Operator.times.binding := by
    rw [shape, joint, bindingAt_operand _ (Edge.isOperatorChar_of_starts starts unsigned),
      Option.any_some, Edge.adjoinAsProduct_of_adjoins adjoins stops starts]
    rfl
  have text : (Form.binary .times true l r).chars = l.chars ++ r.chars := rfl
  rw [text, List.append_assoc, before previous _ initial, joint_append left, lastOf_append, last,
    after (some c) rest (fun signed => absurd signed unsigned), product]
  change _ = min _ (min Operator.times.binding _)
  rw [min_min_of_le _ ((binding_le_rightBinding .times).trans rightTight),
    min_eq_right ((min_le_left _ _).trans ((binding_le_leftBinding .times).trans leftTight))]

theorem measures_operation {op : Operator} {l r : Form}
    (wellFormed : (Form.binary op false l r).WellFormed v) (tidy : (Form.binary op false l r).Tidy)
    (before : l.Measures) (after : r.Measures) : (Form.binary op false l r).Measures := by
  intro previous rest initial
  obtain ⟨left, right, leftTight, rightTight, -⟩ := wellFormed
  obtain ⟨tidyLeft, tidyRight, unsigned⟩ := tidy
  obtain ⟨c, last, stops⟩ := exists_stop left tidyLeft previous
  obtain ⟨d, symbolLast, operator⟩ := exists_lastOf_symbol op
  have behind : lastOf (some c) op.symbol.toList = some d := by
    rw [← symbolLast]
    cases op <;> rfl
  have text : (Form.binary op false l r).chars = l.chars ++ (op.symbol.toList ++ r.chars) := rfl
  rw [text, List.append_assoc, before previous _ initial, joint_append left, lastOf_append,
    lastOf_append, last, behind, List.append_assoc,
    loosenessFrom_symbol op (Edge.isOperatorChar_of_stops stops), symbolLast,
    after (some d) rest (fun signed => absurd signed unsigned),
    joint_of_operator right tidyRight unsigned operator]
  change _ = min _ (min op.binding _)
  rw [min_min_of_le _ (lt_atom op).le,
    min_min_of_le _ ((binding_le_rightBinding op).trans rightTight),
    min_eq_right ((min_le_left _ _).trans ((binding_le_leftBinding op).trans leftTight))]

theorem measures_call {name : String} {args : List Form}
    (wellFormed : (Form.call name args).WellFormed v) (tidy : (Form.call name args).Tidy) :
    (Form.call name args).Measures := by
  intro previous rest _
  obtain ⟨isName, -, all⟩ := wellFormed
  obtain ⟨c, cs, shape, -⟩ := IsName.exists_chars isName
  have letters : ∀ d ∈ c :: cs, Text.isLetter d = true := shape ▸ tidy
  have plain : ∀ d : Char, Text.isLetter d = true → d ≠ '(' ∧ d ≠ ')' := by
    intro d letter
    have name := isNameChar_of_isLetter letter
    exact ⟨ne_of_isNameChar name (by decide), ne_of_isNameChar name (by decide)⟩
  have text : (Form.call name args).chars = c :: (cs ++ '(' :: (listed args ++ [')'])) := by
    rw [chars, shape, List.cons_append]
  obtain ⟨d, last, letter⟩ := exists_lastOf (List.cons_ne_nil c cs) letters none
  have last : lastOf (some c) cs = some d := last
  have joined : (c :: (cs ++ '(' :: (listed args ++ [')']))) ++ rest =
      c :: (cs ++ ('(' :: (listed args ++ ')' :: rest))) := by simp
  rw [text, joined, loosenessFrom_solid plain
      (fun _ _ first second => bindingAt_letter first (Or.inl second)) letters,
    loosenessFrom_group (balanced_listed all), last, bindingAt_letter letter (Or.inr rfl), lastOf,
    lastOf_append, lastOf, lastOf_append]
  rfl

theorem measures_paren {f : Form} (inner : f.WellFormed v) : (Form.paren f).Measures := by
  intro previous rest _
  rw [chars, List.cons_append, List.append_assoc, List.singleton_append,
    loosenessFrom_group (balanced_chars (f := f) inner)]
  change _ = min (bindingAt previous '(') (min Binding.atom _)
  rw [min_eq_right (loosenessFrom_le _ _ _), lastOf, lastOf_append]
  rfl

theorem measures : ∀ {f : Form}, f.WellFormed v → f.Tidy → f.Measures
  | .number n, _, _ => measures_number n
  | .word _, _, ⟨_, shape, letter⟩ => measures_word shape letter
  | .signed .negative _, wellFormed, tidy =>
    measures_negative wellFormed tidy (measures wellFormed.1 tidy.2.1)
  | .binary _ true _ _, wellFormed, tidy =>
    measures_product wellFormed tidy (measures wellFormed.1 tidy.1)
      (measures wellFormed.2.1 tidy.2.1)
  | .binary _ false _ _, wellFormed, tidy =>
    measures_operation wellFormed tidy (measures wellFormed.1 tidy.1)
      (measures wellFormed.2.1 tidy.2.1)
  | .call _ _, wellFormed, tidy => measures_call wellFormed tidy
  | .paren _, inner, _ => measures_paren inner

/-- What begins with a sign binds like one or more loosely. -/
theorem binding_le_unary : ∀ {f : Form}, f.WellFormed v → f.first = .sign →
    f.binding ≤ Binding.unary
  | .signed _ _, _, _ => le_refl _
  | .binary op _ _ _, ⟨left, _, tight, _⟩, begins =>
    (binding_le_leftBinding op).trans (tight.trans (binding_le_unary left begins))

/-- The loosest operation of the text of a form is that of the form. -/
theorem looseness_chars {f : Form} (wellFormed : f.WellFormed v) (tidy : f.Tidy) :
    looseness (String.ofList f.chars) = f.binding := by
  have whole := measures wellFormed tidy none [] (fun _ => rfl)
  rw [List.append_nil] at whole
  rw [looseness, String.toList_ofList, whole, loosenessFrom, min_eq_left f.binding_le]
  apply min_eq_right
  obtain ⟨c, cs, shape, starts⟩ := exists_start wellFormed tidy
  rw [shape, joint]
  by_cases signed : f.first = .sign
  · have sign : bindingAt none c = Binding.unary := by
      rw [signed] at starts
      rw [eq_of_beq starts]
      rfl
    rw [sign]
    exact binding_le_unary wellFormed signed
  · rw [bindingAt_operand _ (Edge.isOperatorChar_of_starts starts signed)]
    exact f.binding_le

end Form

end Reckon
