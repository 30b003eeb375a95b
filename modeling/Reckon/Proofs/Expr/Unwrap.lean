import Reckon.Proofs.Expr.Local
import Reckon.Proofs.Form.Read
import Reckon.Proofs.Term.Shape

/-!
# Reading a text without its parentheses

Between a pair of parentheses that encloses a text the same tokens stand as in the inner text alone,
so the inner text is read as the same tree.

Results: `parse_inner`, `parse_unwrap`.
-/

namespace Reckon

/-! ## Cutting a part of a text -/

theorem takeWhile_snoc {p : Char → Bool} {c : Char} (stop : p c = false) (cs : List Char) :
    (cs ++ [c]).takeWhile p = cs.takeWhile p := by
  induction cs with
  | nil => rw [List.nil_append, List.takeWhile_cons, stop]; rfl
  | cons d cs ih => rw [List.cons_append, List.takeWhile_cons, List.takeWhile_cons, ih]

theorem dropWhile_snoc {p : Char → Bool} {c : Char} (stop : p c = false) (cs : List Char) :
    (cs ++ [c]).dropWhile p = cs.dropWhile p ++ [c] := by
  induction cs with
  | nil => rw [List.nil_append, List.dropWhile_cons, stop]; rfl
  | cons d cs ih =>
    rw [List.cons_append, List.dropWhile_cons, List.dropWhile_cons, ih]
    split <;> rfl

theorem isPrefixOf_snoc {c : Char} {p : List Char} (absent : c ∉ p) (cs : List Char) :
    p.isPrefixOf (cs ++ [c]) = p.isPrefixOf cs := by
  induction p generalizing cs with
  | nil => rfl
  | cons d p ih =>
    have other : (d == c) = false := beq_eq_false_iff_ne.2 fun same => absent (same ▸ .head _)
    cases cs with
    | nil => simp [List.isPrefixOf, other]
    | cons e cs =>
      rw [List.cons_append, List.isPrefixOf, List.isPrefixOf,
        ih fun member => absent (.tail _ member)]

theorem startsNumber_closing (c : Char) (cs : List Char) :
    startsNumber (c :: (cs ++ [')'])) = startsNumber (c :: cs) := by
  cases cs with
  | cons d cs =>
    by_cases point : c = '.'
    · rw [point]
      rfl
    · rw [List.cons_append, startsNumber, startsNumber] <;> simp [point]
  | nil =>
    by_cases point : c = '.'
    · rw [point]
      rfl
    · rw [List.nil_append, startsNumber, startsNumber] <;> simp [point]

theorem numberParts_closing (cs : List Char) : numberParts (cs ++ [')']) = numberParts cs := by
  unfold numberParts Decimal.spanDigits
  dsimp only
  rw [takeWhile_snoc (by decide), dropWhile_snoc (by decide)]
  cases cs.dropWhile Char.isDigit with
  | nil => rfl
  | cons d ds =>
    by_cases point : d = '.'
    · simp only [point, List.cons_append, takeWhile_snoc (by decide : Char.isDigit ')' = false)]
    · rw [List.cons_append]
      split
      next same => exact absurd (List.cons.inj same).1 point
      next =>
        split
        next same => exact absurd (List.cons.inj same).1 point
        next => rfl

/-- A closing parenthesis continues no token. -/
theorem lexeme?_closing (c : Char) (cs : List Char) :
    lexeme? (c :: (cs ++ [')'])) = lexeme? (c :: cs) := by
  have operators : matchOperator? (c :: (cs ++ [')'])) = matchOperator? (c :: cs) := by
    unfold matchOperator?
    refine congrArg (fun p => List.find? p Operator.longestFirst) (funext fun op => ?_)
    exact isPrefixOf_snoc (by cases op <;> decide) (c :: cs)
  have blank : Text.isBlank ')' = false := (isMark_classes (by decide)).1
  have letter : isNameChar ')' = false := (isMark_classes (by decide)).2.2.2
  rw [lexeme?, lexeme?, startsNumber_closing, ← List.cons_append, numberParts_closing,
    List.cons_append, takeWhile_snoc blank, takeWhile_snoc letter, operators]

theorem drop_closing {c : Char} {rest text : List Char} {kind : TokenKind}
    (found : lexeme? (c :: rest) = some (kind, text)) :
    (rest ++ [')']).drop (text.length - 1) = rest.drop (text.length - 1) ++ [')'] := by
  obtain ⟨nonempty, front, -⟩ := lexeme?_text found
  have length := front.length_le
  rw [List.length_cons] at length
  exact List.drop_append_of_le_length (by omega)

/-- In front of a closing parenthesis a text is cut like alone. -/
theorem scanFrom_closing {start : Nat} {cs : List Char} {tokens : List Token}
    (done : scanFrom start (cs ++ [')']) = .ok tokens) :
    ∃ ts k, scanFrom start cs = .ok ts ∧ tokens = ts ++ [⟨.closeParen, ")", k⟩] := by
  fun_induction scanFrom start cs generalizing tokens with
  | case1 start =>
    have closing : scanFrom start ([] ++ [')']) = .ok [⟨.closeParen, ")", start⟩] := by
      have scans := scans_punctuation start (c := ')') [] rfl (by decide)
      rw [Scans, List.append_nil] at scans
      rw [List.nil_append, scans, scanFrom]
      rfl
    rw [closing] at done
    cases done
    exact ⟨[], start, rfl, rfl⟩
  | case2 start c rest unknown =>
    rw [List.cons_append, scanFrom, lexeme?_closing, unknown] at done
    cases done
  | case3 start c rest kind text found fault failed ih =>
    rw [List.cons_append, scanFrom, lexeme?_closing, found] at done
    dsimp only at done
    rw [drop_closing found] at done
    split at done
    next => cases done
    next scanned =>
      obtain ⟨ts, k, none, -⟩ := ih scanned
      rw [failed] at none
      cases none
  | case4 start c rest kind text found tokens' scanned ih =>
    rw [List.cons_append, scanFrom, lexeme?_closing, found] at done
    dsimp only at done
    rw [drop_closing found] at done
    split at done
    next => cases done
    next scanned' =>
      cases done
      obtain ⟨ts, k, same, rfl⟩ := ih scanned'
      rw [scanned] at same
      cases same
      exact ⟨_, k, rfl, rfl⟩

/-- The same characters are cut in the same way wherever they stand. -/
theorem scanFrom_same {start : Nat} {cs : List Char} {tokens : List Token}
    (done : scanFrom start cs = .ok tokens) (start' : Nat) :
    ∃ ts, scanFrom start' cs = .ok ts ∧ List.Forall₂ Token.Same tokens ts := by
  fun_induction scanFrom start cs generalizing tokens start' with
  | case1 =>
    cases done
    rw [scanFrom]
    exact ⟨[], rfl, .nil⟩
  | case2 => cases done
  | case3 => cases done
  | case4 start c rest kind text found tokens' scanned ih =>
    cases done
    obtain ⟨ts, scanned', same⟩ := ih scanned (start' + max 1 text.length)
    rw [scanFrom, found]
    dsimp only
    rw [scanned']
    exact ⟨_, rfl, .cons ⟨rfl, rfl⟩ same⟩

/-! ## Parentheses in tokens and in their texts -/

/-- The parentheses in the text of the token are those that it stands for, and the text of an
operand ends with no operator. -/
structure Token.Spelled (t : Token) : Prop where
  symbol : ∀ op, t.kind = .operator op → t.text.toList = op.symbol.toList
  opening : t.kind = .openParen → t.text.toList = ['(']
  closing : t.kind = .closeParen → t.text.toList = [')']
  plain : t.kind ≠ .openParen → t.kind ≠ .closeParen → ∀ c ∈ t.text.toList, c ≠ '(' ∧ c ≠ ')'
  nonempty : t.text.toList ≠ []
  apart : (∀ op, t.kind ≠ .operator op) → t.kind ≠ .equals →
    ∀ c ∈ t.text.toList, isOperatorChar c = false

theorem digit_or_point_of_numberParts {cs whole fraction text : List Char}
    (parts : numberParts cs = (whole, fraction, text)) :
    ∀ c ∈ text, c.isDigit = true ∨ c = '.' := by
  unfold numberParts Decimal.spanDigits at parts
  dsimp only at parts
  split at parts
  next rest _ =>
    cases parts
    intro c member
    rcases List.mem_append.1 member with whole | rest
    · exact .inl (List.mem_takeWhile_imp whole)
    · rcases List.mem_cons.1 rest with point | fraction
      · exact .inr point
      · exact .inl (List.mem_takeWhile_imp fraction)
  next =>
    cases parts
    exact fun c member => .inl (List.mem_takeWhile_imp member)

/-- No mark stands in a run of characters of a class that has no marks. -/
theorem isMark_of_mem_run {p : Char → Bool} (never : ∀ {c}, isMark c = true → p c = false)
    {c : Char} {cs : List Char} (first : p c = true) :
    ∀ d ∈ c :: cs.takeWhile p, isMark d = false := by
  intro d member
  have has : p d = true := by
    rcases List.mem_cons.1 member with rfl | rest
    · exact first
    · exact List.mem_takeWhile_imp rest
  refine Bool.eq_false_iff.2 fun mark => ?_
  rw [never mark] at has
  cases has

theorem isMark_of_mem_number {cs whole fraction text : List Char}
    (parts : numberParts cs = (whole, fraction, text)) : ∀ c ∈ text, isMark c = false := by
  refine fun c member => Bool.eq_false_iff.2 fun mark => ?_
  rcases digit_or_point_of_numberParts parts c member with digit | point
  · rw [asciiDigit_of_isMark mark] at digit
    cases digit
  · exact (isMark_classes mark).2.2.1 point

/-- A text without marks stands for no parenthesis and for no operator. -/
theorem Token.spelled_of_unmarked {text : List Char} {kind : TokenKind} (start : Nat)
    (nonempty : text ≠ []) (symbol : ∀ op, kind ≠ .operator op) (opening : kind ≠ .openParen)
    (closing : kind ≠ .closeParen) (unmarked : ∀ c ∈ text, isMark c = false) :
    Token.Spelled ⟨kind, String.ofList text, start⟩ := by
  have other : ∀ c d : Char, c ∈ text → isMark d = true → c ≠ d := by
    rintro c d member mark rfl
    rw [unmarked c member] at mark
    cases mark
  refine ⟨fun op same => absurd same (symbol op), fun same => absurd same opening,
    fun same => absurd same closing, ?_, ?_, ?_⟩
  all_goals rw [String.toList_ofList]
  · exact fun _ _ c member => ⟨other c '(' member (by decide), other c ')' member (by decide)⟩
  · exact nonempty
  · intro _ _ c member
    rw [Bool.eq_false_iff]
    exact fun operator => other c c member (isMark_of_isOperatorChar operator) rfl

theorem spelled_of_lexeme? {cs text : List Char} {kind : TokenKind} (start : Nat)
    (found : lexeme? cs = some (kind, text)) : Token.Spelled ⟨kind, String.ofList text, start⟩ := by
  obtain ⟨nonempty, -, symbol⟩ := lexeme?_text found
  rw [← String.toList_ofList (l := text)] at symbol
  obtain ⟨c, rest, rfl, lexeme⟩ := exists_lexeme found
  cases lexeme with
  | space blank =>
    exact Token.spelled_of_unmarked start nonempty (by simp) (by simp) (by simp)
      (isMark_of_mem_run (fun mark => (isMark_classes mark).1) blank)
  | number _ _ parts =>
    exact Token.spelled_of_unmarked start nonempty (by simp) (by simp) (by simp)
      (isMark_of_mem_number parts)
  | identifier _ _ letter =>
    exact Token.spelled_of_unmarked start nonempty (by simp) (by simp) (by simp)
      (isMark_of_mem_run (fun mark => (isMark_classes mark).2.2.2) letter)
  | @operator op =>
    refine ⟨symbol, by simp, by simp, ?_, ?_, fun other => absurd rfl (other op)⟩
    all_goals rw [String.toList_ofList]
    · intro _ _
      exact List.all_iff_forall_prop.1 (by cases op <;> decide)
    · exact nonempty
  | mark _ _ _ _ mark =>
    unfold punctuation? at mark
    split at mark <;> cases mark
    all_goals
      refine ⟨symbol, ?_, ?_, ?_, ?_, ?_⟩ <;> rw [String.toList_ofList] <;> simp <;> decide

theorem spelled_scanFrom {start : Nat} {cs : List Char} {tokens : List Token}
    (done : scanFrom start cs = .ok tokens) : ∀ t ∈ tokens, t.Spelled := by
  intro t member
  obtain ⟨_, _, -, -, found⟩ := exists_lexeme_of_mem done member
  have spelled := spelled_of_lexeme? t.start found
  rwa [String.ofList_toList] at spelled

/-- The characters of several tokens. -/
def Token.texts (ts : List Token) : List Char :=
  ts.flatMap (·.text.toList)

namespace Token

theorem texts_append (ts us : List Token) : texts (ts ++ us) = texts ts ++ texts us :=
  List.flatMap_append

theorem texts_cons (t : Token) (ts : List Token) : texts (t :: ts) = t.text.toList ++ texts ts :=
  List.flatMap_cons

theorem texts_eq_nil {ts : List Token} (spelled : ∀ t ∈ ts, t.Spelled) (none : texts ts = []) :
    ts = [] := by
  cases ts with
  | nil => rfl
  | cons t ts =>
    rw [texts_cons, List.append_eq_nil_iff] at none
    exact absurd none.1 (spelled t (.head _)).nonempty

end Token

theorem Parser.Paired.balanced {ts : List Token} (paired : Paired ts)
    (spelled : ∀ t ∈ ts, t.Spelled) : Balanced (Token.texts ts) := by
  induction paired with
  | nil => exact .nil
  | plain opening closing _ _ ih =>
    obtain ⟨here, spelled⟩ := List.forall_mem_cons.1 spelled
    rw [Token.texts_cons]
    exact (balanced_of_forall (here.plain opening closing)).append (ih spelled)
  | @group opening closing inner ts opens closes _ _ innerIh ih =>
    obtain ⟨first, spelled⟩ := List.forall_mem_cons.1 spelled
    obtain ⟨inside, spelled⟩ := List.forall_mem_append.1 spelled
    obtain ⟨last, spelled⟩ := List.forall_mem_cons.1 spelled
    rw [Token.texts_cons, Token.texts_append, Token.texts_cons, first.opening opens,
      last.closing closes]
    exact .group (innerIh inside) (ih spelled)

/-! ## Enclosing parentheses -/

theorem exists_of_closesAtEnd {depth : Nat} {cs : List Char}
    (closes : closesAtEnd depth cs = true) : ∃ mid, cs = mid ++ [')'] := by
  induction cs generalizing depth with
  | nil => cases closes
  | cons c cs ih =>
    rw [closesAtEnd] at closes
    split at closes
    next =>
      obtain ⟨mid, rfl⟩ := ih closes
      exact ⟨c :: mid, rfl⟩
    split at closes
    next closing =>
      split at closes
      next =>
        rw [List.isEmpty_iff.1 closes, eq_of_beq closing]
        exact ⟨[], rfl⟩
      next =>
        obtain ⟨mid, rfl⟩ := ih closes
        exact ⟨c :: mid, rfl⟩
    next =>
      obtain ⟨mid, rfl⟩ := ih closes
      exact ⟨c :: mid, rfl⟩

theorem exists_of_isWrapped {cs : List Char} (wrapped : isWrapped cs = true) :
    ∃ mid, cs = '(' :: (mid ++ [')']) ∧ inner cs = mid ∧ closesAtEnd 1 (mid ++ [')']) = true := by
  unfold isWrapped at wrapped
  split at wrapped
  next cs =>
    obtain ⟨mid, rfl⟩ := exists_of_closesAtEnd wrapped
    exact ⟨mid, rfl, by simp [inner], wrapped⟩
  next => cases wrapped

namespace Parser

theorem reads_chain_ended {v : Vocabulary} {stop : Nat} {spaced : Bool} {least : Binding}
    {left e : Expr} {st : State} {st' : { s : State // s.size < st.size + 1 }}
    (ended : Ended st.rest) (done : chain v stop spaced least left st = .ok (e, st')) :
    e = left ∧ st'.1 = st := by
  rw [chain, upcoming_ended ended] at done
  cases done
  exact ⟨rfl, rfl⟩

theorem skipBlanks_blanks {ts : List Token} (all : ∀ t ∈ ts, t.isSpace = true) :
    skipBlanks ts = [] := by
  induction ts with
  | nil => rfl
  | cons t ts ih =>
    obtain ⟨here, rest⟩ := List.forall_mem_cons.1 all
    rw [skipBlanks, if_pos here, ih rest]

/-- The partner of a parenthesis that encloses everything is the last token. -/
theorem eq_of_partner {ts used rest : List Token} {closing partner : Token}
    (spelled : ∀ t ∈ ts ++ [closing], t.Spelled)
    (shape : closesAtEnd 1 (Token.texts (ts ++ [closing])) = true) (paired : Paired used)
    (kind : partner.kind = .closeParen) (whole : ts ++ [closing] = used ++ partner :: rest) :
    rest = [] ∧ ts = used ∧ closing = partner := by
  rw [whole] at spelled shape
  obtain ⟨spelled₁, spelled₂⟩ := List.forall_mem_append.1 spelled
  obtain ⟨here, spelled₃⟩ := List.forall_mem_cons.1 spelled₂
  rw [Token.texts_append, Token.texts_cons, here.closing kind] at shape
  have ends := Token.texts_eq_nil spelled₃ ((paired.balanced spelled₁).eq_nil_of_closesAtEnd shape)
  rw [ends] at whole
  obtain ⟨front, back⟩ := List.append_inj' whole rfl
  exact ⟨ends, front, (List.cons.inj back).1⟩

theorem exists_of_reads_expression {v : Vocabulary} {stop : Nat} {spaced : Bool} {least : Binding}
    {e : Expr} {st st' : State} (done : Reads (expression v stop spaced least st) e st') :
    ∃ left st₁, Reads (operand v stop spaced st) left st₁ ∧
      Reads (chain v stop spaced least left st₁) e st' := by
  obtain ⟨fewer, done⟩ := done
  rw [expression] at done
  split at done
  next => cases done
  next left st₁ h₁ first =>
    split at done
    next => cases done
    next h₂ second =>
      cases done
      exact ⟨left, st₁, ⟨h₁, first⟩, h₂, second⟩

/-- What follows an opening parenthesis is an expression and the closing parenthesis. -/
theorem exists_of_reads_group {v : Vocabulary} {stop : Nat} {last : Option Token}
    {opening : Token} {ts : List Token} {e : Expr} {st : State}
    (opens : opening.kind = .openParen)
    (done : Reads (operand v stop false ⟨last, opening :: ts⟩) e st) :
    ∃ st₁, Reads (expression v stop false 0 ⟨some opening, ts⟩) e st₁ ∧
      Reads (close opening st₁) () st := by
  obtain ⟨fewer, done⟩ := done
  have visible : opening.isSpace = false := by
    rw [Token.isSpace, opens]
    rfl
  have shape : skipBlanks (State.mk last (opening :: ts)).rest = opening :: ts :=
    skipBlanks_cons ts visible
  obtain ⟨_, found⟩ := exists_next shape
  have unsigned : signOf? opening = none := by rw [signOf?, opens]
  rw [operand, found] at done
  dsimp only at done
  rw [unsigned] at done
  dsimp only at done
  rw [primary, opens] at done
  dsimp only at done
  split at done
  next => cases done
  next st₁ h₁ inside =>
    split at done
    next => cases done
    next h₂ closed =>
      cases done
      exact ⟨st₁, ⟨h₁, inside⟩, h₂, closed⟩

/-- What stands in parentheses is read alone as the same tree. -/
theorem exists_inner {v : Vocabulary} {stop : Nat} (stop' : Nat) {opening closing : Token}
    {ts us : List Token} {e : Expr} {st : State}
    (opens : opening.kind = .openParen) (closes : closing.kind = .closeParen)
    (spelled : ∀ t ∈ ts ++ [closing], t.Spelled)
    (shape : closesAtEnd 1 (Token.texts (ts ++ [closing])) = true)
    (same : List.Forall₂ Token.Same ts us)
    (done : Reads (expression v stop false 0 ⟨none, opening :: (ts ++ [closing])⟩) e st) :
    ∃ st', Reads (expression v stop' false 0 ⟨none, us⟩) e st' ∧ next st' = none := by
  obtain ⟨e₁, st₁, first, second⟩ := exists_of_reads_expression done
  obtain ⟨st₃, ⟨_, inside⟩, _, closed⟩ := exists_of_reads_group opens first
  -- the parenthesis that is closed is the last one, so the chain is at its end
  obtain ⟨used, taken, paired, -⟩ := takes_expression inside
  obtain ⟨partner, found, kind⟩ := next_of_close closed
  obtain ⟨blanks, shape₃, blank⟩ := exists_blanks st₃.rest
  rw [(shape_of_next found).2] at shape₃
  have whole : ts ++ [closing] = (used ++ blanks) ++ partner :: st₁.rest := by
    rw [List.append_assoc, ← shape₃, ← taken]
  obtain ⟨ends, front, rfl⟩ := eq_of_partner spelled shape
    (paired.append (paired_blanks blank)) kind whole
  rw [ends] at shape₃
  have ended : Ended st₁.rest := by
    rw [ends]
    exact fun _ member => absurd member (Option.some_ne_none _).symm
  obtain ⟨rfl, -⟩ := reads_chain_ended ended second.2
  have alike : State.Alike [closing] [] ⟨some opening, ts ++ [closing]⟩ ⟨none, us⟩ := by
    refine ⟨fun t member => ?_, fun _ none => absurd none (Option.some_ne_none _).symm,
      ⟨ts, us, rfl, (List.append_nil us).symm, same⟩, ?_⟩
    · rw [List.mem_singleton.1 (mem_of_mem_skipBlanks (List.mem_of_mem_head? member))]
      exact closes
    · rw [Option.any_some, Token.isNumber, opens]
      rfl
  obtain ⟨⟨st', fewer⟩, read, after⟩ := alike.expression inside (by
    rw [State.size, shape₃, List.length_append]
    exact Nat.le_add_left _ _)
  refine ⟨st', ⟨fewer, read⟩, next_eq_none ?_⟩
  obtain ⟨ts₁, us₁, rest₁, rest', same₁⟩ := after.rest
  rw [shape₃] at rest₁
  have blanks' := skipBlanks_same same₁
  rw [← (List.append_inj' rest₁ rfl).1, skipBlanks_blanks blank] at blanks'
  rw [rest', List.append_nil]
  exact List.forall₂_nil_left_iff.1 blanks'

end Parser

open Reckon.Parser

/-- A text that is read up to its end as an expression is no definition. -/
theorem parse_of_reads {v : Vocabulary} {source : String} {tokens : List Token} {e : Expr}
    {st : State} (scanned : scan source = .ok tokens)
    (read : Reads (expression v source.length false 0 ⟨none, tokens⟩) e st)
    (last : next st = none) : parse v source = .ok e := by
  obtain ⟨fewer, read⟩ := read
  have plain : NoEquals tokens := by
    obtain ⟨used, shape, paired, -⟩ := takes_expression read
    obtain ⟨blanks, rest, all⟩ := exists_blanks st.rest
    rw [skipBlanks_of_next last, List.append_nil] at rest
    rw [show tokens = used ++ st.rest from shape, rest]
    exact (paired.append (paired_blanks all)).noEquals
  have visible : (skipBlanks tokens).isEmpty = false := by
    obtain ⟨t, st₁, found, -⟩ := exists_next_of_expression read
    rw [(shape_of_next found).2]
    rfl
  rw [parse, scanned]
  dsimp only
  rw [ofTokens, visible, if_neg Bool.false_ne_true, definitionHead?_eq_none plain]
  dsimp only
  rw [read]
  dsimp only
  rw [last]

/-- The tokens of an enclosed text, and those of the text inside alone. -/
theorem exists_of_scan_wrapped {mid : List Char} {tokens : List Token}
    (scanned : scan (String.ofList ('(' :: (mid ++ [')']))) = .ok tokens) :
    ∃ opening closing ts us, tokens = opening :: (ts ++ [closing]) ∧ opening.kind = .openParen ∧
      closing.kind = .closeParen ∧ (∀ t ∈ ts ++ [closing], t.Spelled) ∧
      Token.texts (ts ++ [closing]) = mid ++ [')'] ∧ scan (String.ofList mid) = .ok us ∧
      List.Forall₂ Token.Same ts us := by
  have opened := scans_punctuation 0 (c := '(') (mid ++ [')']) rfl (by decide)
  rw [Scans, List.singleton_append] at opened
  rw [scan, String.toList_ofList, opened] at scanned
  cases rest : scanFrom (0 + ['('].length) (mid ++ [')']) with
  | error fault =>
    rw [rest] at scanned
    cases scanned
  | ok tokens' =>
    rw [rest] at scanned
    obtain ⟨ts, k, inside, rfl⟩ := scanFrom_closing rest
    obtain ⟨us, alone, same⟩ := scanFrom_same inside 0
    cases scanned
    exact ⟨_, _, ts, us, rfl, rfl, rfl, spelled_scanFrom rest, texts_scanFrom rest,
      by rw [scan, String.toList_ofList, alone], same⟩

/-- A text is read without its parentheses as it is read with them. -/
theorem parse_inner {v : Vocabulary} {cs : List Char} {e : Expr} (wrapped : isWrapped cs = true)
    (done : parse v (String.ofList cs) = .ok e) : parse v (String.ofList (inner cs)) = .ok e := by
  obtain ⟨mid, rfl, same, shape⟩ := exists_of_isWrapped wrapped
  rw [same]
  obtain ⟨tokens, scanned, read⟩ := exists_of_parse done
  obtain ⟨opening, closing, ts, us, rfl, opens, closes, spelled, texts, alone, alike⟩ :=
    exists_of_scan_wrapped scanned
  have visible : skipBlanks (opening :: (ts ++ [closing])) = opening :: (ts ++ [closing]) :=
    skipBlanks_cons _ (by rw [Token.isSpace, opens]; rfl)
  rcases read with ⟨-, blank⟩ | ⟨_, _, _, _, _, _, -, head, -⟩ | ⟨-, -, st, read, last⟩
  · rw [visible] at blank
    cases blank
  · -- a definition begins with a name
    obtain ⟨kind, text, start⟩ := opening
    obtain rfl : kind = .openParen := opens
    rw [definitionHead?, visible] at head
    cases head
  · rw [← texts] at shape
    obtain ⟨st', read', last'⟩ := exists_inner (String.ofList mid).length opens closes
      spelled shape alike ⟨st.2, read⟩
    exact parse_of_reads alone read' last'

/-- A text is read without all its parentheses as it is read with them. -/
theorem parse_unwrap {v : Vocabulary} {cs : List Char} {e : Expr}
    (done : parse v (String.ofList cs) = .ok e) : parse v (String.ofList (unwrap cs)) = .ok e := by
  induction cs using unwrap.induct with
  | case1 cs wrapped ih =>
    rw [unwrap, dif_pos wrapped]
    exact ih (parse_inner wrapped done)
  | case2 cs bare =>
    rw [unwrap, dif_neg bare]
    exact done

end Reckon
