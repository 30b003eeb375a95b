import Reckon.Proofs.Decimal.Finite
import Reckon.Proofs.Form.Scan
import Reckon.Proofs.Token

/-!
# How tokens lie in a text

A token depends on its own characters and on where it ends, not on what follows: it is still there
if the text is cut off further behind (`lexeme?_of_isPrefix`), and where no token begins, none does
after such a cut (`lexeme?_eq_none_of_isPrefix`). So the tokens of a text tile it, each of them is
the only token of its own text, and all that stands in front of a character that cannot be read is
read.

Results: `tiles_or_stuck`.
-/

namespace Reckon

/-- Side by side, tokens of these kinds would have been one. -/
def TokenKind.Merges (first second : TokenKind) : Prop :=
  (first = .space ∧ second = .space) ∨ (first = .identifier ∧ second = .identifier)

/-- The tokens cover the text, and each of them could have been found without its neighbours. -/
structure Tiles (source : String) (tokens : List Token) : Prop where
  texts : tokens.flatMap (·.text.toList) = source.toList
  nonempty : ∀ t ∈ tokens, t.text ≠ ""
  start : ∀ {before t after}, tokens = before ++ t :: after →
    t.start = (before.flatMap (·.text.toList)).length
  apart : ∀ {before t u after}, tokens = before ++ t :: u :: after → ¬ t.kind.Merges u.kind
  /-- No longer operator stands where an operator was found. -/
  operator : ∀ t ∈ tokens, ∀ op, t.kind = .operator op →
    t.text = op.symbol ∧ op.symbol.toList <+: source.toList.drop t.start ∧
      ∀ op' : Operator, op'.symbol.toList <+: source.toList.drop t.start →
        op'.symbol.length ≤ op.symbol.length
  /-- A number is written as a decimal, which is its value unless the text is longer than that of a
  decimal can be. -/
  number : ∀ t ∈ tokens, ∀ n, t.kind = .number n →
    Decimal.readNumeral? t.text.toList = some n ∧
      ((t.text.length : ℤ) ≤ Decimal.writtenLimit → Decimal.ofText? t.text = some n)
  alone : ∀ t ∈ tokens, scan t.text = .ok [{ t with start := 0 }]

/-- The text can be cut into tokens up to the place of the fault, where no token begins. -/
structure Stuck (source : String) (fault : SyntaxFault) : Prop where
  character : ∃ c, source.toList[fault.start]? = some c ∧
    fault = ⟨.unrecognized c, fault.start, 1⟩
  before : ∃ tokens, scan (String.ofList (source.toList.take fault.start)) = .ok tokens
  nothing : ∀ text, text ≠ [] → text <+: source.toList.drop fault.start →
    ∃ c, scan (String.ofList text) = .error ⟨.unrecognized c, 0, 1⟩

/-! ## Where a token ends -/

section Ends

variable {p : Char → Bool} {text whole fraction front rest : List Char} {kind : TokenKind}

theorem forall_head?_of_isPrefix {P : Char → Prop} (short : front <+: rest)
    (stop : ∀ c ∈ rest.head?, P c) : ∀ c ∈ front.head?, P c := by
  obtain ⟨more, rfl⟩ := short
  cases front with
  | nil => exact fun c member => absurd member (Option.some_ne_none c).symm
  | cons c front => exact stop

theorem forall_head?_dropWhile (p : Char → Bool) (cs : List Char) :
    ∀ c ∈ (cs.dropWhile p).head?, p c = false := by
  intro c member
  have stop := List.head?_dropWhile_not p cs
  rwa [Option.mem_def.1 member] at stop

/-- A run that is as long as possible still is if less follows. -/
theorem takeWhile_of_isPrefix (run : (text ++ rest).takeWhile p = text) (short : front <+: rest) :
    (text ++ front).takeWhile p = text := by
  have all : ∀ c ∈ text, p c = true := fun c member => by
    rw [← run] at member
    exact List.mem_takeWhile_imp member
  have split : (text ++ rest).takeWhile p ++ (text ++ rest).dropWhile p = text ++ rest :=
    List.takeWhile_append_dropWhile
  rw [run] at split
  have stop := forall_head?_dropWhile p (text ++ rest)
  rw [List.append_cancel_left split] at stop
  exact takeWhile_append_of_stop all (forall_head?_of_isPrefix short stop)

theorem startsNumber_mono (short : front <+: rest) (starts : startsNumber front = true) :
    startsNumber rest = true := by
  obtain ⟨more, rfl⟩ := short
  unfold startsNumber at starts
  split at starts
  next => exact starts
  next => exact startsNumber_of_ascii _ starts
  next => cases starts

/-- The text of a number with these parts, which `rest` does not continue. -/
structure NumberText (whole fraction text rest : List Char) : Prop where
  wholeDigits : ∀ c ∈ whole, c.isDigit = true
  fractionDigits : ∀ c ∈ fraction, c.isDigit = true
  nonempty : whole ≠ [] ∨ fraction ≠ []
  stop : ∀ c ∈ rest.head?, c.isDigit = false
  /-- There is one point at most. -/
  shape : text = whole ++ '.' :: fraction ∨
    (text = whole ∧ fraction = [] ∧ ∀ c ∈ rest.head?, c ≠ '.')

theorem numberText_of_numberParts (starts : startsNumber (text ++ rest) = true)
    (parts : numberParts (text ++ rest) = (whole, fraction, text)) :
    NumberText whole fraction text rest := by
  have split : (text ++ rest).takeWhile Char.isDigit ++ (text ++ rest).dropWhile Char.isDigit =
      text ++ rest := List.takeWhile_append_dropWhile
  have digits : ∀ {cs : List Char}, ∀ c ∈ cs.takeWhile Char.isDigit, c.isDigit = true :=
    fun c member => List.mem_takeWhile_imp member
  have stop := forall_head?_dropWhile Char.isDigit (text ++ rest)
  unfold numberParts Decimal.spanDigits at parts
  dsimp only at parts
  split at parts
  next tail point =>
    obtain ⟨rfl, others⟩ := Prod.mk.inj parts
    obtain ⟨rfl, shape⟩ := Prod.mk.inj others
    rw [point] at split
    have after : tail.dropWhile Char.isDigit = rest := by
      have joined : '.' :: tail = '.' :: (tail.takeWhile Char.isDigit ++ rest) := by
        refine List.append_cancel_left (split.trans ?_)
        nth_rewrite 1 [← shape]
        rw [List.append_assoc, List.cons_append]
      have joined := (List.cons.inj joined).2
      nth_rewrite 1 [← List.takeWhile_append_dropWhile (p := Char.isDigit) (l := tail)] at joined
      exact List.append_cancel_left joined
    refine ⟨digits, digits, ?_, after ▸ forall_head?_dropWhile _ tail, .inl shape.symm⟩
    -- a point without digits around it begins no number
    by_contra none
    obtain ⟨noWhole, noFraction⟩ := not_or.1 none
    rw [not_not] at noWhole noFraction
    rw [← split, noWhole, List.nil_append] at starts
    cases tail with
    | nil => cases starts
    | cons d tail =>
      have digit : d.isDigit = true := starts
      rw [List.takeWhile_cons_of_pos digit] at noFraction
      cases noFraction
  next pointless =>
    obtain ⟨rfl, others⟩ := Prod.mk.inj parts
    obtain ⟨rfl, run⟩ := Prod.mk.inj others
    rw [run] at split
    rw [List.append_cancel_left split] at pointless stop
    refine ⟨digits, List.forall_mem_nil _, .inl fun noWhole => ?_, stop,
      .inr ⟨run.symm, rfl, fun c member point => ?_⟩⟩
    · rw [← run, noWhole, List.nil_append] at starts
      unfold startsNumber at starts
      split at starts
      next d tail => exact pointless _ rfl
      next c tail _ =>
        rw [stop c rfl] at starts
        cases starts
      next => cases starts
    · cases rest with
      | nil => cases member
      | cons d tail =>
        cases member
        exact pointless tail (by rw [point])

namespace NumberText

variable (number : NumberText whole fraction text rest)

include number

theorem mono (short : front <+: rest) : NumberText whole fraction text front where
  wholeDigits := number.wholeDigits
  fractionDigits := number.fractionDigits
  nonempty := number.nonempty
  stop := forall_head?_of_isPrefix short number.stop
  shape := number.shape.imp_right fun ⟨shape, whole, point⟩ =>
    ⟨shape, whole, forall_head?_of_isPrefix short point⟩

theorem startsNumber : startsNumber (text ++ rest) = true := by
  have first : ∀ {cs : List Char}, (∀ c ∈ cs, c.isDigit = true) → cs ≠ [] → ∀ more,
      Reckon.startsNumber (cs ++ more) = true := by
    intro cs all some more
    obtain ⟨c, cs, rfl⟩ := List.exists_cons_of_ne_nil some
    exact startsNumber_of_ascii _ (all c (.head _))
  by_cases noWhole : whole = []
  · obtain ⟨d, ds, shape⟩ := List.exists_cons_of_ne_nil
      (number.nonempty.resolve_left (not_not.2 noWhole))
    rcases number.shape with point | ⟨-, noFraction, -⟩
    · rw [point, noWhole, shape]
      exact number.fractionDigits d (by rw [shape]; exact .head _)
    · exact absurd (noFraction.symm.trans shape) (List.cons_ne_nil d ds).symm
  · rcases number.shape with point | ⟨same, -, -⟩
    · rw [point, List.append_assoc]
      exact first number.wholeDigits noWhole _
    · rw [same]
      exact first number.wholeDigits noWhole _

theorem numberParts : numberParts (text ++ rest) = (whole, fraction, text) := by
  rcases number.shape with point | ⟨rfl, rfl, point⟩
  · have stop : ∀ c ∈ ('.' :: (fraction ++ rest)).head?, c.isDigit = false := by simp
    rw [point, List.append_assoc, List.cons_append, Reckon.numberParts, Decimal.spanDigits,
      takeWhile_append_of_stop number.wholeDigits stop,
      dropWhile_append_of_stop number.wholeDigits stop]
    simp only [takeWhile_append_of_stop number.fractionDigits number.stop]
  · rw [Reckon.numberParts, Decimal.spanDigits,
      takeWhile_append_of_stop number.wholeDigits number.stop,
      dropWhile_append_of_stop number.wholeDigits number.stop]
    dsimp only
    split
    next => exact absurd rfl (point '.' rfl)
    next => rfl

end NumberText

/-- The operator that is found does not change if less follows. -/
theorem matchOperator?_of_isPrefix {op : Operator}
    (found : matchOperator? (op.symbol.toList ++ rest) = some op) (short : front <+: rest) :
    matchOperator? (op.symbol.toList ++ front) = some op := by
  unfold matchOperator? at found ⊢
  rw [List.find?_eq_some_iff_append] at found ⊢
  obtain ⟨-, before, after, split, others⟩ := found
  refine ⟨List.isPrefixOf_iff_prefix.2 (List.prefix_append _ _), before, after, split,
    fun other member => ?_⟩
  have absent := others other member
  rw [Bool.not_eq_true', ← Bool.not_eq_true, List.isPrefixOf_iff_prefix] at absent ⊢
  exact fun here => absent (here.trans ((List.prefix_append_right_inj _).2 short))

theorem matchOperator?_eq_none_of_isPrefix (unmatched : matchOperator? rest = none)
    (short : front <+: rest) : matchOperator? front = none := by
  unfold matchOperator? at unmatched ⊢
  rw [List.find?_eq_none] at unmatched ⊢
  intro op member here
  rw [List.isPrefixOf_iff_prefix] at here
  exact unmatched op member (List.isPrefixOf_iff_prefix.2 (here.trans short))

/-- No operator that is found is a part of a longer one. -/
theorem length_le_of_matchOperator? {cs : List Char} {op : Operator}
    (found : matchOperator? cs = some op) {other : Operator}
    (here : other.symbol.toList <+: cs) : other.symbol.length ≤ op.symbol.length := by
  have sorted : Operator.longestFirst.Pairwise
      fun first second => second.symbol.length ≤ first.symbol.length := by decide
  unfold matchOperator? at found
  rw [List.find?_eq_some_iff_append] at found
  obtain ⟨-, before, after, split, others⟩ := found
  have member := other.mem_longestFirst
  rw [split] at sorted member
  rcases List.mem_append.1 member with earlier | later
  · have absent := others other earlier
    rw [List.isPrefixOf_iff_prefix.2 here] at absent
    cases absent
  rcases List.mem_cons.1 later with rfl | later
  · exact le_rfl
  · exact List.rel_of_pairwise_cons (List.pairwise_append.1 sorted).2.1 later

/-- A token does not change if less follows. -/
theorem lexeme?_of_isPrefix (found : lexeme? (text ++ rest) = some (kind, text))
    (short : front <+: rest) : lexeme? (text ++ front) = some (kind, text) := by
  obtain ⟨nonempty, -, symbol⟩ := lexeme?_text found
  obtain ⟨c, cs, rfl⟩ := List.exists_cons_of_ne_nil nonempty
  have longer : c :: (cs ++ front) <+: c :: (cs ++ rest) :=
    List.cons_prefix_cons.2 ⟨rfl, (List.prefix_append_right_inj _).2 short⟩
  -- a run of characters of one class, of which `c` is the first
  have run : ∀ {p : Char → Bool}, p c = true → (cs ++ rest).takeWhile p = cs →
      (cs ++ front).takeWhile p = cs := fun _ all => takeWhile_of_isPrefix all short
  have numberless : startsNumber (c :: (cs ++ rest)) = false →
      startsNumber (c :: (cs ++ front)) = false := by
    intro absent
    refine eq_false_of_ne_true fun starts => ?_
    rw [startsNumber_mono longer starts] at absent
    cases absent
  rw [List.cons_append, lexeme?_cons_iff] at found ⊢
  generalize whole : c :: cs = text at found
  cases found with
  | space blank =>
    have lexeme : Lexeme c (cs ++ front) .space _ := .space blank
    rwa [run blank (List.cons.inj whole).2.symm, whole] at lexeme
  | number visible starts parts =>
    subst whole
    have number : NumberText _ _ (c :: cs) rest := numberText_of_numberParts starts parts
    have number := number.mono short
    exact .number visible number.startsNumber number.numberParts
  | identifier visible noNumber letter =>
    have lexeme : Lexeme c (cs ++ front) .identifier _ :=
      .identifier visible (numberless noNumber) letter
    rwa [run letter (List.cons.inj whole).2.symm, whole] at lexeme
  | operator visible noNumber noName matched =>
    rw [← List.cons_append, whole] at matched
    have matched' := matchOperator?_of_isPrefix matched short
    rw [← whole, List.cons_append] at matched'
    exact .operator visible (numberless noNumber) noName matched'
  | mark visible noNumber noName unmatched mark =>
    exact .mark visible (numberless noNumber) noName
      (matchOperator?_eq_none_of_isPrefix unmatched longer) mark

/-- Where no token begins, none does if less follows. -/
theorem lexeme?_eq_none_of_isPrefix {c : Char} (nothing : lexeme? (c :: rest) = none)
    (short : front <+: rest) : lexeme? (c :: front) = none := by
  have longer : c :: front <+: c :: rest := List.cons_prefix_cons.2 ⟨rfl, short⟩
  rw [lexeme?] at nothing ⊢
  split at nothing
  next => cases nothing
  next blank =>
  rw [if_neg blank]
  split at nothing
  next => cases nothing
  next starts =>
  rw [if_neg fun starts' => starts (startsNumber_mono longer starts')]
  split at nothing
  next => cases nothing
  next letter =>
  rw [if_neg letter]
  split at nothing
  next => cases nothing
  next operator =>
    rw [matchOperator?_eq_none_of_isPrefix operator longer]
    exact nothing

end Ends

/-! ## What a token is -/

section Kinds

variable {cs text : List Char}

/-- What the characters begin with where a token of this kind and text was found: blanks and names
are runs, and numbers have a whole part and a fraction. -/
def TokenKind.Begins (cs text : List Char) : TokenKind → Prop
  | .space => cs.takeWhile Text.isBlank = text
  | .identifier => cs.takeWhile isNameChar = text
  | .operator op => matchOperator? cs = some op
  | .number n => ∃ whole fraction, n = .ofNumeral whole fraction ∧ startsNumber cs = true ∧
      numberParts cs = (whole, fraction, text)
  | kind => ∃ c, punctuation? c = some kind ∧ text = [c]

theorem begins_of_lexeme? {kind : TokenKind} (found : lexeme? cs = some (kind, text)) :
    kind.Begins cs text := by
  obtain ⟨c, rest, rfl, lexeme⟩ := exists_lexeme found
  cases lexeme with
  | space blank => exact List.takeWhile_cons_of_pos blank
  | number _ starts parts => exact ⟨_, _, rfl, starts, parts⟩
  | identifier _ _ letter => exact List.takeWhile_cons_of_pos letter
  | operator _ _ _ matched => exact matched
  | mark _ _ _ _ mark =>
    unfold punctuation? at mark
    split at mark <;> cases mark <;> exact ⟨_, rfl, rfl⟩

/-- Two runs of characters of one class would have been one run. -/
theorem eq_nil_of_takeWhile {p : Char → Bool} {first second rest : List Char}
    (run : (first ++ (second ++ rest)).takeWhile p = first)
    (run' : (second ++ rest).takeWhile p = second) : second = [] := by
  have all : ∀ c ∈ first, p c = true := fun c member => by
    rw [← run] at member
    exact List.mem_takeWhile_imp member
  rw [List.takeWhile_append_of_pos all, run'] at run
  exact List.append_right_eq_self.1 run

end Kinds

/-! ## Numbers as decimals -/

namespace Text

theorem trimBlanks_eq_self {cs : List Char} (visible : ∀ c ∈ cs, isBlank c = false) :
    trimBlanks cs = cs := by
  have kept : ∀ {ds : List Char}, (∀ c ∈ ds, isBlank c = false) → ds.dropWhile isBlank = ds := by
    intro ds visible
    cases ds with
    | nil => rfl
    | cons d ds => rw [List.dropWhile_cons_of_neg (by rw [visible d (.head _)]; decide)]
  rw [trimBlanks, kept visible, kept, List.reverse_reverse]
  exact fun c member => visible c (List.mem_reverse.1 member)

end Text

namespace Decimal

theorem ofDigits_lt_tens {ds : List Char} (digits : ∀ d ∈ ds, d.isDigit = true) :
    ofDigits ds < tens ds.length := by
  induction ds using List.reverseRecOn with
  | nil => decide
  | append_singleton ds d ih =>
    have last := toNat_of_isDigit (digits d (by simp))
    have front := ih fun d member => digits d (List.mem_append_left _ member)
    rw [ofDigits_concat, List.length_append, List.length_singleton, tens_succ]
    omega

/-- A text that begins like no word is that of a numeral or of nothing. -/
theorem readUnsigned?_eq_readNumeral? {cs : List Char} (plain : ∀ c ∈ cs, isInitial c = false) :
    readUnsigned? cs = readNumeral? cs := by
  cases cs with
  | nil => decide
  | cons c cs =>
    have other : c.toLower ∉ ['i', 'n', 's'] := by simpa [isInitial] using plain c (.head _)
    simp only [List.mem_cons, not_or, List.not_mem_nil, not_false_eq_true, and_true] at other
    obtain ⟨i, n, s⟩ := other
    simp [readUnsigned?, i, n, s]

/-- So is a text that begins with no sign either. -/
theorem readSigned?_eq_readNumeral? {cs : List Char}
    (unsigned : ∀ c ∈ cs.head?, c ≠ '-' ∧ c ≠ '+') (plain : ∀ c ∈ cs, isInitial c = false) :
    readSigned? cs = readNumeral? cs := by
  unfold readSigned?
  split
  next => exact absurd rfl (unsigned '-' rfl).1
  next => exact absurd rfl (unsigned '+' rfl).2
  next => exact readUnsigned?_eq_readNumeral? plain

/-- A sign and a numeral, with or without an exponent, are read as they are. -/
theorem ofText?_of_readNumeral? {cs : List Char} {c : Nat} {e : ℤ} (s : Bool)
    (plain : ∀ d ∈ cs, d ∈ "0123456789.e+-".toList)
    (unsigned : ∀ d ∈ cs.head?, d ≠ '-' ∧ d ≠ '+')
    (read : readNumeral? cs = some (.finite false c e))
    (inRange : (finite false c e).writable = true) :
    ofText? (String.ofList (sign s ++ cs)) = some (.finite s c e) := by
  have classes : ("0123456789.e+-".toList.all fun d => asciiDigit d == d && d != '_' &&
      !Text.isBlank d && !isInitial d) = true := by decide
  have visible : ∀ d ∈ sign s ++ cs, asciiDigit d = d ∧ d ≠ '_' ∧ Text.isBlank d = false ∧
      isInitial d = false := by
    intro d member
    have listed : d ∈ "0123456789.e+-".toList := by
      rcases List.mem_append.1 member with inSign | inside
      · cases s with
        | false => cases inSign
        | true =>
          rw [List.mem_singleton.1 inSign]
          decide
      · exact plain d inside
    have here := List.all_eq_true.1 classes d listed
    simpa [and_assoc] using here
  have unmarked : (Text.trimBlanks (sign s ++ cs)).filter (· != '_') = sign s ++ cs := by
    rw [Text.trimBlanks_eq_self fun d member => (visible d member).2.2.1, List.filter_eq_self]
    exact fun d member => bne_iff_ne.2 (visible d member).2.1
  have ascii : (sign s ++ cs).map asciiDigit = sign s ++ cs :=
    (List.map_congr_left fun d member => (visible d member).1).trans (List.map_id _)
  have bare : ∀ d ∈ cs, isInitial d = false := fun d member =>
    (visible d (List.mem_append_right _ member)).2.2.2
  have signed : readSigned? (sign s ++ cs) = some (.finite s c e) := by
    cases s with
    | false => exact (readSigned?_eq_readNumeral? unsigned bare).trans read
    | true =>
      change (readUnsigned? cs).map flip = _
      rw [readUnsigned?_eq_readNumeral? bare, read]
      rfl
  rw [ofText?, String.toList_ofList, unmarked, ascii, signed, Option.filter_some]
  exact if_pos inRange

end Decimal

namespace NumberText

/-- Digits with an optional point are a number, with an exponent behind them or nothing. -/
theorem readNumeral?_append {whole fraction text : List Char} : ∀ {rest : List Char},
    NumberText whole fraction text rest → Decimal.readNumeral? (text ++ rest) =
      match rest with
      | [] => some (.ofNumeral whole fraction)
      | mark :: exponent =>
        if mark == 'e' || mark == 'E' then
          (Decimal.readExponent? exponent).map fun k =>
            .finite false (Decimal.ofDigits (whole ++ fraction)) (-(fraction.length : ℤ) + k)
        else none := by
  intro rest number
  have some_digit : (whole.isEmpty && fraction.isEmpty) = false := by
    rw [Bool.and_eq_false_iff, List.isEmpty_eq_false_iff, List.isEmpty_eq_false_iff]
    exact number.nonempty
  rcases number.shape with rfl | ⟨rfl, rfl, point⟩
  · have stop : ∀ c ∈ ('.' :: (fraction ++ rest)).head?, c.isDigit = false := by simp
    simp only [List.append_assoc, List.cons_append, Decimal.readNumeral?, Decimal.spanDigits,
      takeWhile_append_of_stop number.wholeDigits stop,
      dropWhile_append_of_stop number.wholeDigits stop,
      takeWhile_append_of_stop number.fractionDigits number.stop,
      dropWhile_append_of_stop number.fractionDigits number.stop, some_digit]
    cases rest <;> rfl
  · simp only [Decimal.readNumeral?, Decimal.spanDigits,
      takeWhile_append_of_stop number.wholeDigits number.stop,
      dropWhile_append_of_stop number.wholeDigits number.stop]
    split
    next => exact absurd rfl (point '.' rfl)
    next =>
      rw [some_digit]
      cases rest <;> rfl

variable {whole fraction text : List Char} (number : NumberText whole fraction text [])

include number

theorem readNumeral? : Decimal.readNumeral? text = some (.ofNumeral whole fraction) := by
  simpa using number.readNumeral?_append

theorem digit_or_point {c : Char} (member : c ∈ text) : c ∈ "0123456789.".toList := by
  have digit : c.isDigit = true → c ∈ "0123456789.".toList := fun isDigit =>
    List.mem_append_left ['.'] (Decimal.isDigit_cases isDigit)
  rcases number.shape with rfl | ⟨rfl, -, -⟩
  · rcases List.mem_append.1 member with inside | inside
    · exact digit (number.wholeDigits c inside)
    rcases List.mem_cons.1 inside with rfl | inside
    · decide
    · exact digit (number.fractionDigits c inside)
  · exact digit (number.wholeDigits c member)

/-- A number in digits is in the range of written numbers unless it has too many of them. -/
theorem writable (short : (text.length : ℤ) ≤ Decimal.writtenLimit) :
    (Decimal.ofNumeral whole fraction).writable = true := by
  have length : whole.length + fraction.length ≤ text.length := by
    rcases number.shape with rfl | ⟨rfl, rfl, -⟩ <;> simp
  have limit : (1 : ℤ) ≤ Decimal.writtenLimit := by decide
  have fewDigits : Decimal.ofDigits (whole ++ fraction) ≠ 0 →
      digitCount (Decimal.ofDigits (whole ++ fraction)) ≤ whole.length + fraction.length := by
    intro nonzero
    have bound : Decimal.ofDigits (whole ++ fraction) < tens (whole ++ fraction).length :=
      Decimal.ofDigits_lt_tens fun d member =>
        (List.mem_append.1 member).elim (number.wholeDigits d) (number.fractionDigits d)
    rw [List.length_append] at bound
    exact digitCount_le_of_lt nonzero bound
  unfold Decimal.ofNumeral Decimal.writable
  rw [Bool.and_eq_true, decide_eq_true_eq]
  refine ⟨by omega, ?_⟩
  split
  next => exact decide_eq_true (by omega)
  next nonzero =>
    rw [Decimal.adjusted, decide_eq_true_eq]
    have few := fewDigits nonzero
    omega

theorem unsigned : ∀ c ∈ text.head?, c ≠ '-' ∧ c ≠ '+' := by
  intro c member
  have plain : ("0123456789.".toList.all fun d => d != '-' && d != '+') = true := by decide
  have here := List.all_eq_true.1 plain c (number.digit_or_point (List.mem_of_mem_head? member))
  simpa using here

/-- A sign and digits with a point are read as they are. -/
theorem ofText?_signed (s : Bool) (short : (text.length : ℤ) ≤ Decimal.writtenLimit) :
    Decimal.ofText? (String.ofList (Decimal.sign s ++ text)) =
      some (.finite s (Decimal.ofDigits (whole ++ fraction)) (-(fraction.length : ℤ))) :=
  Decimal.ofText?_of_readNumeral? s
    (fun _ member => List.mem_append_left "e+-".toList (number.digit_or_point member))
    number.unsigned number.readNumeral? (number.writable short)

/-- Digits and a point are read as they are. -/
theorem ofText? (short : (text.length : ℤ) ≤ Decimal.writtenLimit) :
    Decimal.ofText? (String.ofList text) = some (.ofNumeral whole fraction) :=
  number.ofText?_signed false short

end NumberText

/-! ## One token after the other -/

section Scanning

variable {start : Nat} {cs : List Char}

/-- The place where no token begins, and the tokens in front of it. -/
theorem stuck_of_scanFrom {fault : SyntaxFault} (failed : scanFrom start cs = .error fault) :
    ∃ front c rest tokens, cs = front ++ c :: rest ∧
      fault = ⟨.unrecognized c, start + front.length, 1⟩ ∧ lexeme? (c :: rest) = none ∧
      scanFrom start front = .ok tokens := by
  fun_induction scanFrom start cs with
  | case1 => cases failed
  | case2 start c rest nothing =>
    cases failed
    exact ⟨[], c, rest, [], rfl, rfl, nothing, by rw [scanFrom]⟩
  | case3 start c rest kind text found fault' scanned ih =>
    cases failed
    obtain ⟨nonempty, front, -⟩ := lexeme?_text found
    obtain ⟨split, -⟩ := drop_lexeme nonempty front
    obtain ⟨front', c', rest', tokens, shape, rfl, nothing, done⟩ := ih scanned
    have length : start + max 1 text.length = start + text.length := by
      have some : 1 ≤ text.length := List.length_pos_iff.2 nonempty
      omega
    rw [length] at done
    -- the token is still there if only what could be read follows
    have whole : lexeme? (text ++ (front' ++ c' :: rest')) = some (kind, text) := by
      rw [← shape, split]
      exact found
    have cut : lexeme? (text ++ front') = some (kind, text) :=
      lexeme?_of_isPrefix whole (List.prefix_append _ _)
    have first : Scans start text [⟨kind, String.ofList text, start⟩] front' :=
      scans_lexeme nonempty cut
    refine ⟨text ++ front', c', rest', _, ?_, ?_, nothing, first.trans (by rw [done]; rfl)⟩
    · rw [← split, shape, List.append_assoc]
    · rw [List.length_append, length, Nat.add_assoc]
  | case4 => cases failed

end Scanning

/-! ## Whole texts -/

theorem tiles_of_scan {source : String} {tokens : List Token} (done : scan source = .ok tokens) :
    Tiles source tokens := by
  have texts := texts_scan done
  have place : ∀ {before t after}, tokens = before ++ t :: after →
      t.start = (before.flatMap (·.text.toList)).length ∧
        lexeme? (t.text.toList ++ after.flatMap (·.text.toList)) =
          some (t.kind, t.text.toList) := by
    rintro before t after rfl
    have here := lexeme?_of_scanFrom done
    rwa [Nat.zero_add] at here
  have behind : ∀ {before t after}, tokens = before ++ t :: after →
      source.toList.drop t.start = t.text.toList ++ after.flatMap (·.text.toList) := by
    intro before t after shape
    rw [(place shape).1, ← texts, shape, List.flatMap_append, List.drop_left, List.flatMap_cons]
  have alone : ∀ t ∈ tokens, lexeme? t.text.toList = some (t.kind, t.text.toList) := by
    intro t member
    obtain ⟨before, after, shape⟩ := List.append_of_mem member
    have cut := lexeme?_of_isPrefix (place shape).2 List.nil_prefix
    rwa [List.append_nil] at cut
  refine ⟨texts, ?_, fun shape => (place shape).1, ?_, ?_, ?_, ?_⟩
  · intro t member empty
    exact (lexeme?_text (alone t member)).1 (by rw [empty]; rfl)
  · intro before t u after shape merges
    have first := begins_of_lexeme? (place shape).2
    have next : tokens = (before ++ [t]) ++ u :: after := by rw [shape, List.append_assoc]; rfl
    have second := begins_of_lexeme? (place next).2
    have some_char := (lexeme?_text (place next).2).1
    rw [List.flatMap_cons] at first
    rcases merges with ⟨blank, blank'⟩ | ⟨name, name'⟩
    · rw [blank] at first
      rw [blank'] at second
      exact some_char (eq_nil_of_takeWhile first second)
    · rw [name] at first
      rw [name'] at second
      exact some_char (eq_nil_of_takeWhile first second)
  · intro t member op isOperator
    obtain ⟨before, after, shape⟩ := List.append_of_mem member
    have found := begins_of_lexeme? (place shape).2
    obtain ⟨-, -, symbol⟩ := lexeme?_text (place shape).2
    rw [isOperator] at found
    rw [behind shape]
    refine ⟨String.toList_inj.1 (symbol op isOperator), symbol_of_matchOperator? found, ?_⟩
    exact fun op' here => length_le_of_matchOperator? found here
  · intro t member n isNumber
    have found := begins_of_lexeme? (alone t member)
    rw [isNumber] at found
    obtain ⟨whole, fraction, rfl, starts, parts⟩ := found
    have number : NumberText whole fraction t.text.toList [] :=
      numberText_of_numberParts (by rwa [List.append_nil]) (by rwa [List.append_nil])
    refine ⟨number.readNumeral?, fun short => ?_⟩
    have read := number.ofText? (by rwa [String.length_toList])
    rwa [String.ofList_toList] at read
  · intro t member
    have found : lexeme? (t.text.toList ++ []) = some (t.kind, t.text.toList) := by
      rw [List.append_nil]
      exact alone t member
    have single : Scans 0 t.text.toList [⟨t.kind, String.ofList t.text.toList, 0⟩] [] :=
      scans_lexeme (lexeme?_text (alone t member)).1 found
    have scanned := single.scan
    rwa [String.ofList_toList] at scanned

theorem stuck_of_scan {source : String} {fault : SyntaxFault}
    (failed : scan source = .error fault) : Stuck source fault := by
  obtain ⟨front, c, rest, tokens, shape, rfl, nothing, done⟩ := stuck_of_scanFrom failed
  rw [Nat.zero_add]
  refine ⟨⟨c, by rw [shape]; simp, rfl⟩, ⟨tokens, ?_⟩, fun text some_char short => ?_⟩
  · rw [shape, List.take_left, scan, String.toList_ofList, done]
  · rw [shape, List.drop_left] at short
    obtain ⟨d, text, rfl⟩ := List.exists_cons_of_ne_nil some_char
    obtain ⟨rfl, shorter⟩ := List.cons_prefix_cons.1 short
    refine ⟨d, ?_⟩
    rw [scan, String.toList_ofList, scanFrom, lexeme?_eq_none_of_isPrefix nothing shorter]

/-- A text is tiled by its tokens, or it can be read up to a place where no token begins. -/
theorem tiles_or_stuck (source : String) :
    (∃ tokens, scan source = .ok tokens ∧ Tiles source tokens) ∨
      ∃ fault, scan source = .error fault ∧ Stuck source fault := by
  cases done : scan source with
  | ok tokens => exact .inl ⟨tokens, rfl, tiles_of_scan done⟩
  | error fault => exact .inr ⟨fault, rfl, stuck_of_scan done⟩

end Reckon
