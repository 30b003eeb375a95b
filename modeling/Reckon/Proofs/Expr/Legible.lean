import Reckon.Proofs.Expr.Spelling
import Reckon.Proofs.Expr.Words

/-!
# Products without their signs

An attached product is written without its sign also between two letters, and what is written there
is one word to the reader. `Legible` says where this does no harm: the right factor is a name or a
call, the names in front of it are factors too, and the reader cuts the word back into these names.
The text of a legible tree is then read as a tree with the same value, though products may be
grouped otherwise.

Results: `exists_renders`, `parse_text_of_legible`.
-/

namespace Reckon

/-- Names without anything between them. -/
def wordOf (names : List String) : String :=
  String.ofList (names.flatMap String.toList)

theorem wordOf_singleton (name : String) : wordOf [name] = name := by
  simp [wordOf]

theorem wordOf_snoc (names : List String) (name : String) :
    wordOf (names ++ [name]) = wordOf names ++ name := by
  rw [← String.toList_inj]
  simp [wordOf]

/-- Right after the names, the tree is read as one more factor. -/
def Vocabulary.joins (v : Vocabulary) (names : List String) : Expr → Bool
  | .var name =>
    let word := wordOf names ++ name
    v.pieces word == names ++ [name] && (!v.isFunction word || v.isKnown word)
  | .call name _ =>
    let word := wordOf names ++ name
    !v.isFunction word && v.functionEnding? [] word.toList == some (wordOf names, name)
  | _ => false

namespace Expr

/-- The sign of the product is left out between two letters. -/
def runsTogether : Expr → Bool
  | e@(.binary op attached l r) =>
    let left := (parens (wrapsLeft e l) l.text).toList
    let right := (parens (wrapsRight e r) r.text).toList
    attached && op == .times && juxtaposable left right r.startsWithLiteral &&
      left.getLast?.any Text.isLetter && right.head?.any Text.isLetter
  | _ => false

/-- The names that are written as one word at the end of the text, if they are factors of the
tree. -/
def endFactors? : Expr → Option (List String)
  | .var name => some [name]
  | e@(.unary _ operand) => if wrapsOperand e operand then none else operand.endFactors?
  | e@(.binary .times _ l (.var name)) =>
    if e.runsTogether then l.endFactors?.map (· ++ [name]) else some [name]
  | _ => none

mutual

/-- Numbers can be written down, and where letters run together they are read as the factors that
they stand for. -/
def Legible (v : Vocabulary) : Expr → Prop
  | .literal n _ => ∃ q, n.toRat? = some q ∧ 0 ≤ q ∧ Representable Decimal.exactDigits q
  | .var _ => True
  | .unary _ e => e.Legible v
  | .binary op attached l r =>
    l.Legible v ∧ r.Legible v ∧
      ((Expr.binary op attached l r).runsTogether = true →
        l.endFactors?.any (v.joins · r) = true)
  | .call _ args => AllLegible v args
  | _ => False

/-- All of several trees are legible. -/
def AllLegible (v : Vocabulary) : List Expr → Prop
  | [] => True
  | e :: es => e.Legible v ∧ AllLegible v es

end

end Expr

/-! ## The last word of a form -/

namespace Form

/-- The last word of the form, if it is a factor. -/
def lastWord? : Form → Option String
  | .word name => some name
  | .signed _ f => f.lastWord?
  | .binary .times _ _ r => r.lastWord?
  | _ => none

/-- The form with another form in place of its last word. -/
def mapLast (h : String → Form) : Form → Form
  | .word name => h name
  | .signed sign f => .signed sign (f.mapLast h)
  | .binary op attached l r => .binary op attached l (r.mapLast h)
  | f => f

variable {v : Vocabulary} {h : String → Form} {w : String}

theorem isName_of_lastWord? : ∀ {f : Form}, f.Readable v → f.lastWord? = some w → IsName w
  | .word _, ⟨isName, _⟩, found => by
    obtain rfl := Option.some.inj found
    exact isName
  | .signed _ _, ⟨operand, _⟩, found => isName_of_lastWord? operand found
  | .binary .times _ _ _, ⟨_, right, _⟩, found => isName_of_lastWord? right found

theorem chars_mapLast {s : List Char} (chars : (h w).chars = w.toList ++ s) :
    ∀ {f : Form}, f.lastWord? = some w → (f.mapLast h).chars = f.chars ++ s
  | .word _, found => by
    obtain rfl := Option.some.inj found
    exact chars
  | .signed _ f, found => by
    rw [mapLast, Form.chars, Form.chars, chars_mapLast (f := f) chars found, List.append_assoc]
  | .binary .times _ _ r, found => by
    rw [mapLast, Form.chars, Form.chars, chars_mapLast (f := r) chars found]
    simp only [List.append_assoc]

theorem first_mapLast (first : (h w).first = .name) :
    ∀ {f : Form}, f.lastWord? = some w → (f.mapLast h).first = f.first
  | .word _, found => by
    obtain rfl := Option.some.inj found
    exact first
  | .signed .., _ => rfl
  | .binary .times _ _ _, _ => rfl

theorem binding_mapLast (binding : (h w).binding = Binding.atom) :
    ∀ {f : Form}, f.lastWord? = some w → (f.mapLast h).binding = f.binding
  | .word _, found => by
    obtain rfl := Option.some.inj found
    exact binding
  | .signed .., _ => rfl
  | .binary .times _ _ _, _ => rfl

theorem readable_mapLast (readable : (h w).Readable v) (first : (h w).first = .name)
    (binding : (h w).binding = Binding.atom) :
    ∀ {f : Form}, f.Readable v → f.lastWord? = some w → (f.mapLast h).Readable v
  | .word _, _, found => by
    obtain rfl := Option.some.inj found
    exact readable
  | .signed _ f, ⟨operand, tight⟩, found => by
    refine ⟨readable_mapLast readable first binding operand found, ?_⟩
    rw [binding_mapLast binding (f := f) found]
    exact tight
  | .binary .times _ l r, ⟨left, right, leftTight, rightTight, apart⟩, found => by
    refine ⟨left, readable_mapLast readable first binding right found, leftTight, ?_, ?_⟩
    · rw [binding_mapLast binding (f := r) found]
      exact rightTight
    · rw [first_mapLast first (f := r) found]
      exact apart

theorem lastWord?_mapLast {w' : String} (last : (h w).lastWord? = some w') :
    ∀ {f : Form}, f.lastWord? = some w → (f.mapLast h).lastWord? = some w'
  | .word _, found => by
    obtain rfl := Option.some.inj found
    exact last
  | .signed _ f, found => lastWord?_mapLast (f := f) last found
  | .binary .times _ _ r, found => lastWord?_mapLast (f := r) last found

/-- A factor more in the last word is a factor more of the whole. -/
theorem value_mapLast {K : Type} [Ring K] [Algebra ℚ K] {I : Interpretation K} {ρ : String → K}
    {a : K} (value : ((h w).read v).value I ρ = (v.productOfNames w).value I ρ * a) :
    ∀ {f : Form}, f.lastWord? = some w →
      ((f.mapLast h).read v).value I ρ = (f.read v).value I ρ * a
  | .word _, found => by
    obtain rfl := Option.some.inj found
    exact value
  | .signed sign f, found => by
    rw [mapLast, read, read, Expr.value, Expr.value, value_mapLast (f := f) value found]
    cases sign with
    | positive => rfl
    | negative => exact (neg_mul _ _).symm
  | .binary .times _ l r, found => by
    rw [mapLast, read, read, Expr.value, Expr.value, value_mapLast (f := r) value found]
    exact (mul_assoc _ _ _).symm

/-- A form ends as `final` says. -/
theorem exists_ends : ∀ {f : Form}, f.Readable v →
    ∃ c, f.chars.getLast? = some c ∧ f.final.ends c = true
  | .number n, _ => by
    rw [chars, getLast?_eq_lastOf]
    exact lastOf_numeral n none
  | .word _, ⟨isName, _⟩ => by
    rw [chars, getLast?_eq_lastOf]
    exact exists_lastOf isName.1 isName.2 none
  | .signed _ _, ⟨operand, _⟩ => by
    obtain ⟨c, last, ends⟩ := exists_ends operand
    exact ⟨c, by rw [chars, List.getLast?_append, last]; rfl, ends⟩
  | .binary _ _ _ _, ⟨_, right, _⟩ => by
    obtain ⟨c, last, ends⟩ := exists_ends right
    exact ⟨c, by rw [chars, List.getLast?_append, List.getLast?_append, last]; rfl, ends⟩
  | .call .., _ => by
    rw [chars, getLast?_eq_lastOf, lastOf_append, lastOf, lastOf_append]
    exact ⟨')', rfl, rfl⟩
  | .paren _, _ => by
    rw [chars, getLast?_eq_lastOf, lastOf, lastOf_append]
    exact ⟨')', rfl, rfl⟩

end Form

namespace Expr

variable {v : Vocabulary}

/-! ## Forms of legible trees -/

theorem readable_wrapped (wrap : Bool) {f : Form} (readable : f.Readable v) :
    (wrapped wrap f).Readable v := by
  cases wrap <;> exact readable

theorem read_wrapped (wrap : Bool) (f : Form) : (wrapped wrap f).read v = f.read v := by
  cases wrap <;> rfl

/-- The form is written like the tree and is read as a tree with the same value. -/
structure Renders (v : Vocabulary) (f : Form) (e : Expr) : Prop where
  readable : f.Readable v
  text : f.chars = e.text.toList
  tight : e.binding ≤ f.binding
  value : ∀ {K : Type} [Ring K] [Algebra ℚ K] (I : Interpretation K) (ρ : String → K),
    (f.read v).value I ρ = e.value I ρ
  lastWord : ∀ {names}, e.endFactors? = some names →
    f.lastWord? = some (wordOf names) ∧ names ≠ [] ∧ v.pieces (wordOf names) = names
  call : ∀ {name args}, e = .call name args → ∃ fs, f = .call name fs

theorem Renders.isName {f : Form} {e : Expr} (renders : Renders v f e) {names : List String}
    (found : e.endFactors? = some names) : IsName (wordOf names) := by
  exact Form.isName_of_lastWord? renders.readable (renders.lastWord found).1

/-- One name more is one factor more. -/
theorem value_productOfNames_snoc {K : Type} [Ring K] [Algebra ℚ K] (I : Interpretation K)
    (ρ : String → K) {names : List String} {word word' name : String} (nonempty : names ≠ [])
    (pieces : v.pieces word = names) (pieces' : v.pieces word' = names ++ [name]) :
    (v.productOfNames word').value I ρ = (v.productOfNames word).value I ρ * ρ name := by
  cases names with
  | nil => exact absurd rfl nonempty
  | cons first others =>
    simp only [Vocabulary.productOfNames, pieces, pieces', List.cons_append, List.foldl_append,
      List.foldl_cons, List.foldl_nil]
    rfl

/-- A name or a call is put right after the last word, and is read as one more factor. -/
theorem Renders.join {f g : Form} {l r : Expr} (left : Renders v f l) (right : Renders v g r)
    (words : r.HasWords v) {names : List String} (found : l.endFactors? = some names)
    (joins : v.joins names r = true) :
    ∃ f' : Form, f'.Readable v ∧ f'.chars = f.chars ++ r.text.toList ∧ f'.binding = f.binding ∧
      (∀ {K : Type} [Ring K] [Algebra ℚ K] (I : Interpretation K) (ρ : String → K),
        (f'.read v).value I ρ = l.value I ρ * r.value I ρ) ∧
      ∀ name, r = .var name → f'.lastWord? = some (wordOf (names ++ [name])) ∧
        v.pieces (wordOf (names ++ [name])) = names ++ [name] := by
  obtain ⟨last, nonempty, pieces⟩ := left.lastWord found
  have isName := left.isName found
  cases r with
  | var name =>
    -- the last word gets longer, and is cut into one name more
    simp only [Vocabulary.joins, Bool.and_eq_true, beq_iff_eq, Bool.or_eq_true,
      Bool.not_eq_true'] at joins
    obtain ⟨cut, known⟩ := joins
    have readable : (Form.word (wordOf names ++ name)).Readable v :=
      ⟨isName.append words.1, fun isFunction => known.resolve_left (by simp [isFunction])⟩
    refine ⟨f.mapLast fun word => .word (word ++ name), ?_, ?_, ?_, ?_, ?_⟩
    · exact Form.readable_mapLast (w := wordOf names) readable rfl rfl left.readable last
    · exact Form.chars_mapLast (by rw [Form.chars, String.toList_append]; rfl) last
    · exact Form.binding_mapLast (w := wordOf names) rfl last
    · intro K _ _ I ρ
      rw [← left.value I ρ]
      exact Form.value_mapLast (value_productOfNames_snoc I ρ nonempty pieces cut) last
    · rintro _ ⟨rfl⟩
      rw [wordOf_snoc]
      exact ⟨Form.lastWord?_mapLast (w := wordOf names) rfl last, cut⟩
  | call name args =>
    -- the last word becomes the front of a call, whose function is cut off behind it
    simp only [Vocabulary.joins, Bool.and_eq_true, beq_iff_eq, Bool.not_eq_true'] at joins
    obtain ⟨notFunction, ending⟩ := joins
    obtain ⟨fs, rfl⟩ := right.call rfl
    obtain ⟨functionName, -, arguments⟩ := right.readable
    have isCalled : v.isCalled (wordOf names ++ name) = true := by
      rw [Vocabulary.isCalled, ending, Option.isSome_some, Bool.or_true, Bool.true_or]
    have readable : (Form.call (wordOf names ++ name) fs).Readable v :=
      ⟨isName.append functionName, isCalled, arguments⟩
    refine ⟨f.mapLast fun word => .call (word ++ name) fs, ?_, ?_, ?_, ?_, ?_⟩
    · exact Form.readable_mapLast (w := wordOf names) readable rfl rfl left.readable last
    · refine Form.chars_mapLast ?_ last
      rw [← right.text, Form.chars, Form.chars, String.toList_append, List.append_assoc]
    · exact Form.binding_mapLast (w := wordOf names) rfl last
    · intro K _ _ I ρ
      rw [← left.value I ρ]
      refine Form.value_mapLast ?_ last
      have tree : v.called (wordOf names ++ name) (Form.reads v fs) =
          .juxtaposed (v.productOfNames (wordOf names)) (.call name (Form.reads v fs)) := by
        rw [Vocabulary.called, notFunction, ending]
        rfl
      rw [← right.value I ρ, Form.read, Form.read, tree, words.1.2.2]
      rfl
    · rintro _ ⟨⟩
  | _ => cases joins

/-- Two operands, with the operator between them or not. -/
theorem Renders.binary {f g : Form} {op : Operator} {attached : Bool} {l r : Expr}
    (left : Renders v f l) (right : Renders v g r) (attached' : Bool)
    (text : parens (wrapsLeft (.binary op attached l r) l) l.text ++
      (if attached' then "" else op.symbol) ++
        parens (wrapsRight (.binary op attached l r) r) r.text = (Expr.binary op attached l r).text)
    (apart : (Expr.binary op attached l r).runsTogether = false)
    (adjoins : attached' = true → op = .times ∧
      (wrapped (wrapsLeft (.binary op attached l r) l) f).final.adjoins
        (wrapped (wrapsRight (.binary op attached l r) r) g).first = true) :
    Renders v (.binary op attached' (wrapped (wrapsLeft (.binary op attached l r) l) f)
      (wrapped (wrapsRight (.binary op attached l r) r) g)) (.binary op attached l r) where
  readable := by
    refine ⟨readable_wrapped _ left.readable, readable_wrapped _ right.readable, ?_, ?_, adjoins⟩
    · exact le_binding_wrapped (Form.leftBinding_le_of_lt (Form.lt_atom op)) fun bare =>
        (leftBinding_le_of_bare bare).trans left.tight
    · exact le_binding_wrapped (Form.rightBinding_le_of_lt (Form.lt_atom op)) fun bare =>
        (rightBinding_le_of_bare (wrapsOperand_of_wrapsRight bare)).trans right.tight
  text := by
    rw [Form.chars, chars_wrapped left.text, chars_wrapped right.text, ← text]
    cases attached' <;> simp
  tight := le_refl _
  value I ρ := by
    rw [Form.read, read_wrapped, read_wrapped, Expr.value, Expr.value, left.value, right.value]
  lastWord {names} found := by
    cases op with
    | times =>
      cases r with
      | var name =>
        rw [endFactors?, if_neg (by simp [apart])] at found
        obtain rfl := Option.some.inj found
        exact right.lastWord rfl
      | _ => cases found
    | _ => cases found
  call := nofun

/-- Letters do not run together where one of the factors is in parentheses. -/
theorem bare_of_runsTogether {op : Operator} {attached : Bool} {l r : Expr}
    (together : (Expr.binary op attached l r).runsTogether = true) :
    attached = true ∧ op = .times ∧ wrapsLeft (.binary op attached l r) l = false ∧
      wrapsRight (.binary op attached l r) r = false ∧
      juxtaposable l.text.toList r.text.toList r.startsWithLiteral = true := by
  simp only [runsTogether, Bool.and_eq_true, beq_iff_eq] at together
  obtain ⟨⟨⟨⟨isAttached, times⟩, beside⟩, last⟩, first⟩ := together
  have paren : Text.isLetter '(' = false ∧ Text.isLetter ')' = false :=
    ⟨isLetter_of_isMark (by decide), isLetter_of_isMark (by decide)⟩
  have left : wrapsLeft (.binary op attached l r) l = false := by
    cases wrap : wrapsLeft (.binary op attached l r) l with
    | false => rfl
    | true =>
      have text : (parens true l.text).toList = '(' :: l.text.toList ++ [')'] := by simp [parens]
      rw [wrap, text, List.getLast?_concat, Option.any_some, paren.2] at last
      cases last
  have right : wrapsRight (.binary op attached l r) r = false := by
    cases wrap : wrapsRight (.binary op attached l r) r with
    | false => rfl
    | true => simp [wrap, parens, paren] at first
  rw [left, right] at beside
  exact ⟨isAttached, times, left, right, beside⟩

/-- Where letters do not run together, a product sign is left out between factors that are read
apart. -/
theorem adjoins_of_juxtaposable {f g : Form} {left right : String} {literalFirst : Bool}
    (readable : f.Readable v) (readable' : g.Readable v) (text : f.chars = left.toList)
    (text' : g.chars = right.toList)
    (beside : juxtaposable left.toList right.toList literalFirst = true)
    (apart : (left.toList.getLast?.any Text.isLetter && right.toList.head?.any Text.isLetter) =
      false) : f.final.adjoins g.first = true := by
  obtain ⟨c, last, ends⟩ := Form.exists_ends readable
  obtain ⟨d, ds, shape, begins⟩ := Form.exists_chars readable'
  have head : right.toList.head? = some d := by rw [← text', shape]; rfl
  rw [← text, last, head, Option.any_some, Option.any_some] at apart
  rw [juxtaposable, ← text, last, head] at beside
  obtain ⟨attached, between, adjoins⟩ := exists_attached ends begins beside
  cases attached with
  | true => exact adjoins rfl
  | false =>
    -- both are characters of names, and what may stand on both sides of a product is a letter
    have names : (isNameChar c && isNameChar d) = true := by
      by_contra none
      simp [joint, none] at between
    obtain ⟨nameLeft, nameRight⟩ := Bool.and_eq_true_iff.1 names
    simp only [Bool.and_eq_true, Bool.or_eq_true] at beside
    obtain ⟨⟨-, ending⟩, beginning⟩ := beside
    have letterLeft : Text.isLetter c = true := by
      rcases ending with (digit | letter) | closing
      · rw [isDigit_of_isNameChar nameLeft] at digit
        cases digit
      · exact letter
      · exact absurd (eq_of_beq closing) (ne_of_isNameChar nameLeft (by decide))
    have letterRight : Text.isLetter d = true := by
      rcases beginning with letter | opening
      · exact letter
      · exact absurd (eq_of_beq opening) (ne_of_isNameChar nameRight (by decide))
    rw [letterLeft, letterRight] at apart
    cases apart

/-- Two operands of which the letters do not run together. -/
theorem Renders.exists_binary {f g : Form} {op : Operator} {attached : Bool} {l r : Expr}
    (left : Renders v f l) (right : Renders v g r)
    (apart : (Expr.binary op attached l r).runsTogether = false) :
    ∃ h, Renders v h (.binary op attached l r) := by
  have text : (Expr.binary op attached l r).text = joined op attached r.startsWithLiteral
      (parens (wrapsLeft (.binary op attached l r) l) l.text)
      (parens (wrapsRight (.binary op attached l r) r) r.text) := rfl
  cases beside : attached && op == .times && juxtaposable
      (parens (wrapsLeft (.binary op attached l r) l) l.text).toList
      (parens (wrapsRight (.binary op attached l r) r) r.text).toList r.startsWithLiteral with
  | false =>
    refine ⟨_, left.binary right false ?_ apart (by simp)⟩
    rw [text, joined, beside]
    rfl
  | true =>
    refine ⟨_, left.binary right true ?_ apart fun _ => ?_⟩
    · rw [text, joined, if_pos beside]
      simp
    · simp only [runsTogether, beside, Bool.true_and] at apart
      simp only [Bool.and_eq_true, beq_iff_eq] at beside
      exact ⟨beside.1.2, adjoins_of_juxtaposable (readable_wrapped _ left.readable)
        (readable_wrapped _ right.readable) (chars_wrapped left.text) (chars_wrapped right.text)
        beside.2 apart⟩

/-- Two factors of which the letters run together. -/
theorem Renders.exists_joined {f g : Form} {op : Operator} {attached : Bool} {l r : Expr}
    (left : Renders v f l) (right : Renders v g r) (words : r.HasWords v)
    (together : (Expr.binary op attached l r).runsTogether = true)
    (legible : l.endFactors?.any (v.joins · r) = true) :
    ∃ h, Renders v h (.binary op attached l r) := by
  obtain ⟨names, found, joins⟩ := (Option.any_eq_true _ _).1 legible
  obtain ⟨rfl, rfl, bareLeft, bareRight, beside⟩ := bare_of_runsTogether together
  obtain ⟨h, readable, chars, binding, value, last⟩ := left.join right words found joins
  refine ⟨h, readable, ?_, ?_, fun I ρ => value I ρ, fun {names'} factors => ?_,
    nofun⟩
  · rw [chars, left.text, Expr.text, bareLeft, bareRight, joined, parens, parens,
      if_neg Bool.false_ne_true, if_neg Bool.false_ne_true, beside]
    simp
  · rw [binding]
    exact (leftBinding_le_of_bare bareLeft).trans left.tight
  · cases r with
    | var name =>
      rw [endFactors?, if_pos together, found, Option.map_some] at factors
      obtain rfl := Option.some.inj factors
      exact ⟨(last name rfl).1, by simp, (last name rfl).2⟩
    | _ => cases factors

-- the last word is carried through the recursion: what stands to the right may have to go into it
mutual

/-- The text of a legible tree is that of a form with its value. -/
theorem exists_renders : ∀ {e : Expr}, e.HasWords v → e.Legible v → ∃ f, Renders v f e
  | .literal n written, _, ⟨q, value, nonnegative, fits⟩ => by
    obtain ⟨m, mValue, text⟩ := Decimal.exists_numeral value fits
    rw [if_neg (not_lt.2 nonnegative)] at text
    rw [abs_of_nonneg nonnegative] at mValue
    refine ⟨.number m, trivial, ?_, ?_, fun I ρ => ?_, nofun,
      nofun⟩
    · rw [Form.chars, Expr.text, text]
      simp
    · rw [Expr.binding]
      split
      · exact (by decide : Binding.unary ≤ Binding.atom)
      · exact le_refl _
    · rw [Form.read, Expr.value, Expr.value, Decimal.toRat_of_toRat? value,
        Decimal.toRat_of_toRat? mValue]
  | .var name, ⟨isName, whole, known⟩, _ => by
    refine ⟨.word name, ⟨isName, known⟩, rfl, le_refl _, fun I ρ => ?_, fun {names} found => ?_,
      nofun⟩
    · rw [Form.read, Form.productOfNames_word whole]
    · obtain rfl := Option.some.inj found
      rw [wordOf_singleton]
      exact ⟨rfl, by simp, Form.pieces_word whole⟩
  | .unary sign e, words, legible => by
    obtain ⟨f, form⟩ := exists_renders (e := e) words legible
    set wrap := wrapsOperand (.unary sign e) e with wrap_def
    refine ⟨.signed sign (wrapped wrap f), ⟨readable_wrapped wrap form.readable, ?_⟩, ?_, le_refl _,
      fun I ρ => ?_, fun {names} found => ?_, nofun⟩
    · exact le_binding_wrapped (by decide) fun bare => (unary_le_of_bare bare).trans form.tight
    · simp [Form.chars, Expr.text, chars_wrapped form.text, wrap_def]
    · rw [Form.read, read_wrapped, Expr.value, Expr.value, form.value]
    · rw [endFactors?, ← wrap_def] at found
      split at found
      next => cases found
      next bare =>
        rw [Bool.eq_false_iff.2 bare]
        exact form.lastWord found
  | .binary op attached l r, ⟨leftWords, rightWords⟩, ⟨left, right, together⟩ => by
    obtain ⟨f, leftForm⟩ := exists_renders leftWords left
    obtain ⟨g, rightForm⟩ := exists_renders rightWords right
    cases run : (Expr.binary op attached l r).runsTogether with
    | false => exact leftForm.exists_binary rightForm run
    | true => exact leftForm.exists_joined rightForm rightWords run (together run)
  | .call name args, ⟨⟨isName, isCalled, tree⟩, words⟩, legible => by
    obtain ⟨fs, readable, written, values⟩ := exists_allRender words legible
    refine ⟨.call name fs, ⟨isName, isCalled, readable⟩, ?_, le_refl _, fun I ρ => ?_,
      nofun, fun equal => ⟨fs, ?_⟩⟩
    · simp [Form.chars, Expr.text, Form.listed_eq_intercalate written]
    · rw [Form.read, tree, Expr.value, Expr.value, values]
    · obtain ⟨rfl, rfl⟩ := Expr.call.inj equal
      rfl

/-- The texts of several legible trees. -/
theorem exists_allRender : ∀ {es : List Expr}, AllHaveWords v es → AllLegible v es →
    ∃ fs, Form.AllReadable v fs ∧
      List.Forall₂ (fun f text => Form.chars f = String.toList text) fs (texts es) ∧
      ∀ {K : Type} [Ring K] [Algebra ℚ K] (I : Interpretation K) (ρ : String → K),
        values I ρ (Form.reads v fs) = values I ρ es
  | [], _, _ => ⟨[], trivial, .nil, fun _ _ => rfl⟩
  | e :: es, ⟨headWords, words⟩, ⟨head, all⟩ => by
    obtain ⟨f, form⟩ := exists_renders headWords head
    obtain ⟨fs, readable, written, rest⟩ := exists_allRender words all
    refine ⟨f :: fs, ⟨form.readable, readable⟩, .cons form.text written, fun I ρ => ?_⟩
    rw [Form.reads, values, values, form.value, rest]

end

/-- The text of a legible tree is read as a tree with its value. -/
theorem parse_text_of_legible {e : Expr} (words : e.HasWords v) (legible : e.Legible v) :
    ∃ e', parse v e.text = .ok e' ∧
      ∀ {K : Type} [Ring K] [Algebra ℚ K] (I : Interpretation K) (ρ : String → K),
        e'.value I ρ = e.value I ρ := by
  obtain ⟨f, form⟩ := exists_renders words legible
  refine ⟨f.read v, ?_, form.value⟩
  rw [← Form.parse_read form.readable, form.text, String.ofList_toList]

end Expr

end Reckon
