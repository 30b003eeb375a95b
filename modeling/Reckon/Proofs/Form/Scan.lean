import Mathlib.Data.List.TakeWhile
import Reckon.Proofs.Form
import Reckon.Proofs.Text.Classes

/-!
# Cutting the text of a form into its tokens

A token ends where a character follows that cannot continue it (`Edge.Borders`), and texts that
border on each other are cut one after the other (`Scans.append`).

Results: `Form.scans`, `Form.scan_chars`.
-/

namespace Reckon

/-! ## Tokens one after the other -/

/-- In front of `rest`, the text is cut into the tokens. -/
def Scans (start : Nat) (text : List Char) (tokens : List Token) (rest : List Char) : Prop :=
  scanFrom start (text ++ rest) = (tokens ++ ·) <$> scanFrom (start + text.length) rest

theorem Scans.append {start : Nat} {s t rest : List Char} {ts us : List Token}
    (first : Scans start s ts (t ++ rest)) (second : Scans (start + s.length) t us rest) :
    Scans start (s ++ t) (ts ++ us) rest := by
  unfold Scans at *
  rw [List.append_assoc, first, second, List.length_append, ← Nat.add_assoc]
  cases scanFrom (start + s.length + t.length) rest with
  | error fault => rfl
  | ok tokens => simp [Functor.map, Except.map]

theorem Scans.cons {start : Nat} {s t rest : List Char} {token : Token} {us : List Token}
    (first : Scans start s [token] (t ++ rest)) (second : Scans (start + s.length) t us rest) :
    Scans start (s ++ t) (token :: us) rest :=
  first.append second

theorem scans_nil (start : Nat) (rest : List Char) : Scans start [] [] rest := by
  change scanFrom start rest = _
  cases scanFrom start rest <;> rfl

/-- A text that is all of the source. -/
theorem Scans.scan {cs : List Char} {tokens : List Token} (scans : Scans 0 cs tokens []) :
    Reckon.scan (String.ofList cs) = .ok tokens := by
  rw [Scans, List.append_nil, scanFrom] at scans
  rw [Reckon.scan, String.toList_ofList, scans]
  change Except.ok (tokens ++ []) = _
  rw [List.append_nil]

/-- One token. -/
theorem scans_lexeme {start : Nat} {text rest : List Char} {kind : TokenKind}
    (nonempty : text ≠ []) (found : lexeme? (text ++ rest) = some (kind, text)) :
    Scans start text [⟨kind, String.ofList text, start⟩] rest := by
  unfold Scans
  cases text with
  | nil => exact absurd rfl nonempty
  | cons c cs =>
    rw [List.cons_append] at found ⊢
    rw [scanFrom, found]
    have left : (cs ++ rest).drop ((c :: cs).length - 1) = rest := by simp
    have length : start + max 1 (c :: cs).length = start + (c :: cs).length := by
      simp only [List.length_cons]
      omega
    simp only [left, length]
    cases scanFrom (start + (c :: cs).length) rest <;> rfl

/-! ## Single tokens -/

/-- The character does not continue a token that ends like this. -/
def Edge.Borders : Edge → List Char → Prop
  | .number, rest => ∀ c ∈ rest.head?, c.isDigit = false ∧ c ≠ '.'
  | .name, rest => ∀ c ∈ rest.head?, isNameChar c = false
  | _, _ => True

theorem Edge.borders_nil (edge : Edge) : edge.Borders [] := by
  cases edge <;> simp [Borders]

/-- No token goes on with a mark. -/
theorem Edge.borders_mark {c : Char} (edge : Edge) (rest : List Char) (mark : isMark c = true) :
    edge.Borders (c :: rest) := by
  obtain ⟨-, -, point, letter⟩ := isMark_classes mark
  cases edge <;> simp [Borders, asciiDigit_of_isMark mark, point, letter]

theorem takeWhile_append_of_stop {p : Char → Bool} {cs rest : List Char}
    (all : ∀ c ∈ cs, p c = true) (stop : ∀ c ∈ rest.head?, p c = false) :
    (cs ++ rest).takeWhile p = cs := by
  rw [List.takeWhile_append_of_pos all]
  cases rest with
  | nil => simp
  | cons c rest => simp [stop c (by simp)]

theorem dropWhile_append_of_stop {p : Char → Bool} {cs rest : List Char}
    (all : ∀ c ∈ cs, p c = true) (stop : ∀ c ∈ rest.head?, p c = false) :
    (cs ++ rest).dropWhile p = rest := by
  rw [List.dropWhile_append_of_pos all]
  cases rest with
  | nil => rfl
  | cons c rest => simp [stop c (by simp)]

theorem startsNumber_of_ascii {c : Char} (cs : List Char) (digit : c.isDigit = true) :
    startsNumber (c :: cs) = true := by
  unfold startsNumber
  split
  next equal =>
    obtain ⟨rfl, -⟩ := List.cons.inj equal
    exact absurd digit (by decide)
  next equal =>
    obtain ⟨rfl, -⟩ := List.cons.inj equal
    exact digit
  next equal => cases equal

theorem startsNumber_eq_false {c : Char} (cs : List Char) (digit : c.isDigit = false)
    (point : c ≠ '.') : startsNumber (c :: cs) = false := by
  unfold startsNumber
  split
  next equal =>
    obtain ⟨rfl, -⟩ := List.cons.inj equal
    exact absurd rfl point
  next equal =>
    obtain ⟨rfl, -⟩ := List.cons.inj equal
    exact digit
  next => rfl

/-- The digits of a numeral before and after the point. -/
theorem numberParts_numeral (n : Numeral) {rest : List Char} (border : Edge.number.Borders rest) :
    numberParts (n.chars ++ rest) = (n.whole, n.fraction, n.chars) := by
  have stop : ∀ c ∈ rest.head?, c.isDigit = false := fun c member => (border c member).1
  unfold Numeral.chars
  split
  next none =>
    simp only [numberParts, Decimal.spanDigits, takeWhile_append_of_stop n.wholeDigits stop,
      dropWhile_append_of_stop n.wholeDigits stop]
    split
    next point => exact absurd rfl (border '.' (by simp)).2
    next => rw [none]
  next some =>
    have point : ∀ c ∈ ('.' :: (n.fraction ++ rest)).head?, c.isDigit = false := by simp
    simp only [List.append_assoc, List.cons_append, numberParts, Decimal.spanDigits,
      takeWhile_append_of_stop n.wholeDigits point, dropWhile_append_of_stop n.wholeDigits point,
      takeWhile_append_of_stop n.fractionDigits stop]

theorem scans_number (start : Nat) (n : Numeral) {rest : List Char}
    (border : Edge.number.Borders rest) :
    Scans start n.chars [⟨.number n.decimal, String.ofList n.chars, start⟩] rest := by
  have parts := numberParts_numeral n border
  obtain ⟨d, cs, shape, digit⟩ := n.exists_chars
  rw [shape] at parts ⊢
  refine scans_lexeme (by simp) ?_
  rw [List.cons_append, lexeme?, Text.isBlank_of_ascii digit, startsNumber_of_ascii _ digit]
  simp only [Bool.false_eq_true, if_false, if_true]
  rw [← List.cons_append, parts]
  rfl

theorem scans_name (start : Nat) {name : String} {rest : List Char} (isName : IsName name)
    (border : Edge.name.Borders rest) :
    Scans start name.toList [⟨.identifier, name, start⟩] rest := by
  obtain ⟨nonempty, letters⟩ := isName
  have token := @scans_lexeme start name.toList rest .identifier nonempty
  rw [String.ofList_toList] at token
  apply token
  cases shape : name.toList with
  | nil => exact absurd shape nonempty
  | cons c cs =>
    rw [shape] at letters
    have letter := letters c (.head _)
    have point : c ≠ '.' := ne_of_isNameChar letter (by decide)
    rw [List.cons_append, lexeme?, isBlank_of_isNameChar letter,
      startsNumber_eq_false _ (asciiDigit_of_isNameChar letter) point, letter]
    simp only [Bool.false_eq_true, if_false, if_true]
    rw [takeWhile_append_of_stop (fun d member => letters d (.tail _ member)) border]

/-- An operator is read whole unless an equals sign makes it a longer one. -/
theorem matchOperator?_symbol (op : Operator) {rest : List Char} (stop : rest.head? ≠ some '=') :
    matchOperator? (op.symbol.toList ++ rest) = some op := by
  cases rest with
  | nil => cases op <;> decide
  | cons c rest =>
    have other : ('=' == c) = false := by
      rw [beq_eq_false_iff_ne]
      rintro rfl
      exact stop rfl
    cases op <;>
      simp [matchOperator?, Operator.longestFirst, Operator.symbol, List.isPrefixOf, other]

theorem scans_operator (start : Nat) (op : Operator) {rest : List Char}
    (stop : rest.head? ≠ some '=') :
    Scans start op.symbol.toList [⟨.operator op, op.symbol, start⟩] rest := by
  have token := @scans_lexeme start op.symbol.toList rest (.operator op) (by cases op <;> decide)
  rw [String.ofList_toList] at token
  apply token
  have found := matchOperator?_symbol op stop
  cases shape : op.symbol.toList with
  | nil => cases op <;> cases shape
  | cons c cs =>
    rw [shape] at found
    have mark : isMark c = true := Operator.isMark_of_mem_symbol op (by simp [shape])
    obtain ⟨blank, -, point, letter⟩ := isMark_classes mark
    rw [List.cons_append] at found ⊢
    simp only [lexeme?, blank, startsNumber_eq_false _ (asciiDigit_of_isMark mark) point, letter,
      Bool.false_eq_true, if_false, found, shape]

theorem scans_punctuation (start : Nat) {c : Char} {kind : TokenKind} (rest : List Char)
    (found : punctuation? c = some kind) (other : kind ≠ .equals) :
    Scans start [c] [⟨kind, String.ofList [c], start⟩] rest := by
  refine scans_lexeme (by simp) ?_
  have known : isMark c = true ∧ matchOperator? (c :: rest) = none := by
    unfold punctuation? at found
    split at found <;> cases found
    · exact absurd rfl other
    all_goals
      refine ⟨by decide, ?_⟩
      simp [matchOperator?, Operator.longestFirst, Operator.symbol, List.isPrefixOf]
  obtain ⟨isMark, none⟩ := known
  obtain ⟨blank, -, point, letter⟩ := isMark_classes isMark
  simp only [List.cons_append, List.nil_append, lexeme?, blank,
    startsNumber_eq_false _ (asciiDigit_of_isMark isMark) point, letter, Bool.false_eq_true,
    if_false, none, found, Option.map_some]

theorem scans_space (start : Nat) {rest : List Char}
    (stop : ∀ c ∈ rest.head?, Text.isBlank c = false) :
    Scans start [' '] [⟨.space, " ", start⟩] rest := by
  refine @scans_lexeme start [' '] rest .space (by simp) ?_
  have none : rest.takeWhile Text.isBlank = [] :=
    @takeWhile_append_of_stop _ [] rest (by simp) stop
  have blank : Text.isBlank ' ' = true := by decide
  simp [lexeme?, blank, none]

/-! ## Forms -/

/-- The character can be the first one of a form that begins like this. -/
def Edge.begins : Edge → Char → Bool
  | .number, c => c.isDigit
  | .name, c => isNameChar c
  | .paren, c => c == '('
  | .sign, c => c == '+' || c == '-'

theorem Edge.isBlank_of_begins {edge : Edge} {c : Char} (begins : edge.begins c = true) :
    Text.isBlank c = false := by
  cases edge with
  | number => exact Text.isBlank_of_ascii begins
  | name => exact isBlank_of_isNameChar begins
  | paren =>
    rw [eq_of_beq begins]
    decide
  | sign =>
    rcases Bool.or_eq_true_iff.1 begins with plus | minus
    · rw [eq_of_beq plus]
      decide
    · rw [eq_of_beq minus]
      decide

/-- No form begins with an equals sign. -/
theorem Edge.ne_equals_of_begins {edge : Edge} {c : Char} (begins : edge.begins c = true) :
    c ≠ '=' := by
  rintro rfl
  cases edge with
  | name => exact absurd rfl (ne_of_isNameChar begins (by decide))
  | _ => exact absurd begins (by decide)

/-- Factors that may stand side by side are cut apart. -/
theorem Edge.borders_of_adjoins {left right : Edge} {c : Char} (rest : List Char)
    (adjoins : left.adjoins right = true) (begins : right.begins c = true) :
    left.Borders (c :: rest) := by
  cases left with
  | paren => trivial
  | sign => trivial
  | number =>
    cases right with
    | number => cases adjoins
    | sign => cases adjoins
    | paren =>
      rw [eq_of_beq begins]
      exact borders_mark _ _ (by decide)
    | name =>
      have point : c ≠ '.' := ne_of_isNameChar begins (by decide)
      simp [Borders, point, asciiDigit_of_isNameChar begins]
  | name =>
    cases right with
    | number => simp [Borders, isNameChar_of_ascii begins]
    | _ => cases adjoins

namespace Form

theorem IsName.exists_chars {name : String} (isName : IsName name) :
    ∃ c cs, name.toList = c :: cs ∧ isNameChar c = true := by
  obtain ⟨nonempty, letters⟩ := isName
  cases shape : name.toList with
  | nil => exact absurd shape nonempty
  | cons c cs => exact ⟨c, cs, rfl, letters c (by simp [shape])⟩

/-- A form is not empty, and it begins as `first` says. -/
theorem exists_chars {v : Vocabulary} :
    ∀ {f : Form}, f.Readable v → ∃ c cs, f.chars = c :: cs ∧ f.first.begins c = true
  | .number n, _ => n.exists_chars
  | .word name, ⟨isName, _⟩ => by
    obtain ⟨c, cs, shape, letter⟩ := IsName.exists_chars isName
    exact ⟨c, cs, by rw [chars, shape], letter⟩
  | .signed .positive f, _ => ⟨'+', f.chars, rfl, rfl⟩
  | .signed .negative f, _ => ⟨'-', f.chars, rfl, rfl⟩
  | .binary op attached l r, ⟨left, _⟩ => by
    obtain ⟨c, cs, shape, begins⟩ := exists_chars left
    exact ⟨c, _, by rw [chars, shape, List.cons_append], begins⟩
  | .call name args, ⟨isName, _⟩ => by
    obtain ⟨c, cs, shape, letter⟩ := IsName.exists_chars isName
    exact ⟨c, _, by rw [chars, shape, List.cons_append], letter⟩
  | .paren f, _ => ⟨'(', _, rfl, rfl⟩

theorem head_chars_ne_equals {v : Vocabulary} {f : Form} (readable : f.Readable v)
    (rest : List Char) : (f.chars ++ rest).head? ≠ some '=' := by
  obtain ⟨c, cs, shape, begins⟩ := exists_chars readable
  rw [shape]
  simpa using Edge.ne_equals_of_begins begins

theorem borders_symbol (edge : Edge) (op : Operator) (rest : List Char) :
    edge.Borders (op.symbol.toList ++ rest) := by
  cases shape : op.symbol.toList with
  | nil => cases op <;> cases shape
  | cons c cs =>
    exact edge.borders_mark _ (Operator.isMark_of_mem_symbol op (by simp [shape]))

mutual

/-- The text of a form is cut into its tokens, whatever follows that does not continue it. -/
theorem scans {v : Vocabulary} :
    ∀ {f : Form}, f.Readable v → ∀ (start : Nat) (rest : List Char), f.final.Borders rest →
      Scans start f.chars (f.tokens start) rest
  | .number n, _, start, rest, border => scans_number start n border
  | .word name, ⟨isName, _⟩, start, rest, border => scans_name start isName border
  | .signed sign f, ⟨operand, _⟩, start, rest, border => by
    have body := scans operand (start + 1) rest border
    have stop := head_chars_ne_equals operand rest
    cases sign with
    | positive => exact (scans_operator start .plus stop).cons body
    | negative => exact (scans_operator start .minus stop).cons body
  | .binary op true l r, ⟨left, right, _, _, apart⟩, start, rest, border => by
    obtain ⟨c, cs, shape, begins⟩ := exists_chars right
    refine (scans left start _ ?_).append (scans right _ rest border)
    change l.final.Borders (r.chars ++ rest)
    rw [shape]
    exact Edge.borders_of_adjoins _ (apart rfl).2 begins
  | .binary op false l r, ⟨left, right, _⟩, start, rest, border => by
    have operator := scans_operator (start + l.chars.length) op
      (head_chars_ne_equals right rest)
    refine (scans left start _ ?_).append (operator.cons (scans right _ rest border))
    rw [List.append_assoc]
    exact borders_symbol _ op _
  | .call name args, ⟨isName, _, all⟩, start, rest, border => by
    have word := scans_name start isName
      (Edge.name.borders_mark (listed args ++ [')'] ++ rest) (by decide : isMark '(' = true))
    have opening := scans_punctuation (start + name.toList.length) (c := '(')
      (listed args ++ [')'] ++ rest) rfl (by decide)
    have closing := scans_punctuation (c := ')')
      (start + name.toList.length + 1 + (listed args).length) rest rfl (by decide)
    exact word.cons (opening.cons ((scansAll all _ ([')'] ++ rest) (by simp)).append closing))
  | .paren f, inner, start, rest, border => by
    have opening := scans_punctuation start (c := '(') (f.chars ++ [')'] ++ rest)
      rfl (by decide)
    have closing := scans_punctuation (c := ')') (start + 1 + f.chars.length) rest rfl (by decide)
    have body := scans (f := f) inner (start + 1) ([')'] ++ rest)
      (f.final.borders_mark _ (by decide))
    exact opening.cons (body.append closing)

/-- The texts of several forms with commas between them, in front of a parenthesis. -/
theorem scansAll {v : Vocabulary} :
    ∀ {fs : List Form}, AllReadable v fs → ∀ (start : Nat) (rest : List Char),
      rest.head? = some ')' → Scans start (listed fs) (tokensOf start fs) rest
  | [], _, start, rest, _ => scans_nil start rest
  | [f], ⟨head, _⟩, start, rest, closing => by
    obtain ⟨tail, rfl⟩ : ∃ tail, rest = ')' :: tail := List.head?_eq_some_iff.1 closing
    exact scans head start _ (f.final.borders_mark _ (by decide))
  | f :: g :: fs, ⟨head, all⟩, start, rest, closing => by
    have next := scansAll all (start + f.chars.length + 2) rest closing
    obtain ⟨c, cs, shape, begins⟩ : ∃ c cs, listed (g :: fs) = c :: cs ∧
        g.first.begins c = true := by
      obtain ⟨c, cs, shape, begins⟩ := exists_chars all.1
      cases fs with
      | nil => exact ⟨c, cs, shape, begins⟩
      | cons => exact ⟨c, _, by rw [listed, shape, List.cons_append]; simp, begins⟩
    have comma := scans_punctuation (start + f.chars.length) (c := ',')
      (' ' :: (listed (g :: fs) ++ rest)) rfl (by decide)
    have visible : ∀ c ∈ (listed (g :: fs) ++ rest).head?, Text.isBlank c = false := by
      rw [shape]
      simpa using Edge.isBlank_of_begins begins
    have space := scans_space (start + f.chars.length + 1) visible
    have body := scans head start (',' :: ' ' :: (listed (g :: fs) ++ rest))
      (f.final.borders_mark _ (by decide))
    have marks : Scans (start + f.chars.length) ([','] ++ ([' '] ++ listed (g :: fs))) _ rest :=
      comma.cons (space.cons next)
    exact body.append marks

end

/-- The tokens of the text of a form. -/
theorem scan_chars {v : Vocabulary} {f : Form} (readable : f.Readable v) :
    scan (String.ofList f.chars) = .ok (f.tokens 0) :=
  (scans readable 0 [] (Edge.borders_nil _)).scan

end Form

end Reckon
