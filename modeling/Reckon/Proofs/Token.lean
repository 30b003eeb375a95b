import Mathlib.Algebra.BigOperators.Group.List.Basic
import Mathlib.Data.List.TakeWhile
import Reckon.Token.Lexer

/-!
# The tokens of a text

Every token is a part of the text that begins at its offset, of one of the kinds of `Lexeme`. The
tokens cover the text without gaps (`texts_scan`), and a place that is reported lies inside of it or
right behind it.

Results: `lexeme?_cons_iff`, `texts_scan`, `proper_of_mem_scan`, `within_of_scan`.
-/

namespace Reckon

/-- The place of a fault in a text of this length: the first caret stands under a character or one
behind the last, and no caret stands further to the right. -/
structure SyntaxFault.Within (length : Nat) (fault : SyntaxFault) : Prop where
  start : fault.start ≤ length
  width : 1 ≤ fault.width
  stop : fault.start + fault.width ≤ length + 1

/-- The token lies inside of a text of this length, and an operator is written as its symbol. -/
structure Token.Proper (length : Nat) (t : Token) : Prop where
  stop : t.stop ≤ length
  symbol : ∀ op, t.kind = .operator op → t.text = op.symbol

theorem Token.Proper.start {length : Nat} {t : Token} (proper : t.Proper length) :
    t.start ≤ length :=
  (Nat.le_add_right _ _).trans proper.stop

/-- One caret at a place inside of the text or right behind it. -/
theorem SyntaxFault.Within.single {length start : Nat} (cause : SyntaxCause) (le : start ≤ length) :
    Within length ⟨cause, start, 1⟩ :=
  ⟨le, le_rfl, Nat.add_le_add_right le 1⟩

/-- Carets from one place of the text to another, or one caret. -/
theorem SyntaxFault.Within.between {length start stop : Nat} (cause : SyntaxCause)
    (le : start ≤ length) (le' : stop ≤ length) :
    Within length ⟨cause, start, max 1 (stop - start)⟩ :=
  ⟨le, le_max_left _ _, by dsimp only; omega⟩

theorem SyntaxFault.Within.atToken {length : Nat} {t : Token} (cause : SyntaxCause)
    (proper : t.Proper length) : Within length (.atToken cause t) := by
  have stop := proper.stop
  unfold Token.stop at stop
  exact ⟨proper.start, le_max_left _ _, by rw [SyntaxFault.atToken]; dsimp only; omega⟩

/-! ## One token -/

theorem symbol_of_matchOperator? {cs : List Char} {op : Operator}
    (found : matchOperator? cs = some op) : op.symbol.toList <+: cs := by
  unfold matchOperator? at found
  have front := List.find?_some found
  exact List.isPrefixOf_iff_prefix.1 front

theorem symbol_ne_nil (op : Operator) : op.symbol.toList ≠ [] := by
  cases op <;> decide

/-- The text of a number stands at the beginning. -/
theorem numberParts_text {cs whole fraction text : List Char} (starts : startsNumber cs = true)
    (parts : numberParts cs = (whole, fraction, text)) : text ≠ [] ∧ text <+: cs := by
  have split : cs.takeWhile Char.isDigit ++ cs.dropWhile Char.isDigit = cs :=
    List.takeWhile_append_dropWhile
  unfold numberParts Decimal.spanDigits at parts
  dsimp only at parts
  split at parts
  next rest point =>
    cases parts
    refine ⟨by simp, ?_⟩
    rw [point] at split
    have fraction : '.' :: rest.takeWhile Char.isDigit <+: '.' :: rest :=
      List.cons_prefix_cons.2 ⟨rfl, List.takeWhile_prefix _⟩
    have front := (List.prefix_append_right_inj (cs.takeWhile Char.isDigit)).2 fraction
    rwa [split] at front
  next none =>
    cases parts
    refine ⟨fun nil => ?_, List.takeWhile_prefix _⟩
    -- without digits in front, the number begins with its point
    rw [nil, List.nil_append] at split
    rw [split] at none
    unfold startsNumber at starts
    split at starts
    next d rest => exact none _ rfl
    next c rest _ =>
      rw [List.takeWhile_cons_of_pos starts] at nil
      cases nil
    next => cases starts

/-- What the characters may begin with. A class of tokens is tried where those before it fail. -/
inductive Lexeme (c : Char) (cs : List Char) : TokenKind → List Char → Prop where
  | space (blank : Text.isBlank c = true) : Lexeme c cs .space (c :: cs.takeWhile Text.isBlank)
  | number {whole fraction text : List Char} (visible : Text.isBlank c = false)
    (starts : startsNumber (c :: cs) = true)
    (parts : numberParts (c :: cs) = (whole, fraction, text)) :
    Lexeme c cs (.number (.ofNumeral whole fraction)) text
  | identifier (visible : Text.isBlank c = false) (noNumber : startsNumber (c :: cs) = false)
    (letter : isNameChar c = true) : Lexeme c cs .identifier (c :: cs.takeWhile isNameChar)
  | operator {op : Operator} (visible : Text.isBlank c = false)
    (noNumber : startsNumber (c :: cs) = false) (noName : isNameChar c = false)
    (matched : matchOperator? (c :: cs) = some op) : Lexeme c cs (.operator op) op.symbol.toList
  | mark {kind : TokenKind} (visible : Text.isBlank c = false)
    (noNumber : startsNumber (c :: cs) = false) (noName : isNameChar c = false)
    (unmatched : matchOperator? (c :: cs) = none) (mark : punctuation? c = some kind) :
    Lexeme c cs kind [c]

theorem lexeme?_cons_iff {c : Char} {cs text : List Char} {kind : TokenKind} :
    lexeme? (c :: cs) = some (kind, text) ↔ Lexeme c cs kind text := by
  constructor
  · intro found
    rw [lexeme?] at found
    split at found
    next blank =>
      cases found
      exact .space blank
    next visible =>
    have visible := eq_false_of_ne_true visible
    split at found
    next starts =>
      cases found
      exact .number visible starts rfl
    next noNumber =>
    have noNumber := eq_false_of_ne_true noNumber
    split at found
    next letter =>
      cases found
      exact .identifier visible noNumber letter
    next noName =>
    have noName := eq_false_of_ne_true noName
    split at found
    next op matched =>
      cases found
      exact .operator visible noNumber noName matched
    next unmatched =>
      obtain ⟨kind', mark, shape⟩ := Option.map_eq_some_iff.1 found
      cases shape
      exact .mark visible noNumber noName unmatched mark
  · intro lexeme
    cases lexeme with
    | space blank => rw [lexeme?, if_pos blank]
    | number visible starts parts => simp [lexeme?, visible, starts, parts]
    | identifier visible noNumber letter => simp [lexeme?, visible, noNumber, letter]
    | operator visible noNumber noName matched =>
      simp [lexeme?, visible, noNumber, noName, matched]
    | mark visible noNumber noName unmatched mark =>
      simp [lexeme?, visible, noNumber, noName, unmatched, mark]

theorem exists_lexeme {cs text : List Char} {kind : TokenKind}
    (found : lexeme? cs = some (kind, text)) :
    ∃ c rest, cs = c :: rest ∧ Lexeme c rest kind text := by
  cases cs with
  | nil => cases found
  | cons c rest => exact ⟨c, rest, rfl, lexeme?_cons_iff.1 found⟩

/-- The marks and their kinds. -/
theorem mem_of_punctuation? {c : Char} {kind : TokenKind} (mark : punctuation? c = some kind) :
    (c, kind) ∈ [('=', TokenKind.equals), (',', .comma), ('(', .openParen), (')', .closeParen),
      ('[', .openBracket), (']', .closeBracket)] := by
  unfold punctuation? at mark
  split at mark <;> cases mark <;> simp

/-- A token takes at least one character, and no others than those at the beginning. -/
theorem lexeme?_text {cs text : List Char} {kind : TokenKind}
    (found : lexeme? cs = some (kind, text)) :
    text ≠ [] ∧ text <+: cs ∧ ∀ op, kind = .operator op → text = op.symbol.toList := by
  obtain ⟨c, rest, rfl, lexeme⟩ := exists_lexeme found
  cases lexeme with
  | space _ | identifier _ _ _ =>
    refine ⟨List.cons_ne_nil _ _, List.cons_prefix_cons.2 ⟨rfl, List.takeWhile_prefix _⟩, ?_⟩
    exact fun op same => TokenKind.noConfusion same
  | number _ starts parts =>
    obtain ⟨nonempty, front⟩ := numberParts_text starts parts
    exact ⟨nonempty, front, fun op same => TokenKind.noConfusion same⟩
  | @operator op _ _ _ matched =>
    refine ⟨symbol_ne_nil op, symbol_of_matchOperator? matched, fun op' same => ?_⟩
    cases same
    rfl
  | mark _ _ _ _ mark =>
    refine ⟨List.cons_ne_nil _ _, List.cons_prefix_cons.2 ⟨rfl, List.nil_prefix⟩, ?_⟩
    rintro op rfl
    exact absurd (mem_of_punctuation? mark) (by simp)

/-! ## All tokens -/

/-- What follows a token that has been cut off, and where it begins. -/
theorem drop_lexeme {c : Char} {rest text : List Char} (nonempty : text ≠ [])
    (front : text <+: c :: rest) :
    text ++ rest.drop (text.length - 1) = c :: rest ∧
      ∀ start, start + max 1 text.length + (rest.drop (text.length - 1)).length =
        start + (c :: rest).length := by
  obtain ⟨d, ds, rfl⟩ := List.exists_cons_of_ne_nil nonempty
  obtain ⟨rfl, tail, rfl⟩ := List.cons_prefix_cons.1 front
  simp only [List.length_cons, Nat.add_sub_cancel, List.drop_left, List.length_append]
  exact ⟨rfl, fun start => by omega⟩

theorem texts_scanFrom {start : Nat} {cs : List Char} {tokens : List Token}
    (done : scanFrom start cs = .ok tokens) : tokens.flatMap (·.text.toList) = cs := by
  fun_induction scanFrom start cs generalizing tokens with
  | case1 =>
    cases done
    rfl
  | case2 => cases done
  | case3 => cases done
  | case4 start c rest kind text found tokens' scanned ih =>
    cases done
    obtain ⟨nonempty, front, -⟩ := lexeme?_text found
    rw [List.flatMap_cons, ih scanned, String.toList_ofList, (drop_lexeme nonempty front).1]

/-- A token begins behind those before it, where it is found in front of those after it. -/
theorem lexeme?_of_scanFrom {start : Nat} {cs : List Char} {before after : List Token} {t : Token}
    (done : scanFrom start cs = .ok (before ++ t :: after)) :
    t.start = start + (before.flatMap (·.text.toList)).length ∧
      lexeme? (t.text.toList ++ after.flatMap (·.text.toList)) =
        some (t.kind, t.text.toList) := by
  generalize whole : before ++ t :: after = tokens at done
  fun_induction scanFrom start cs generalizing before tokens with
  | case1 =>
    cases done
    exact absurd whole (by simp)
  | case2 => cases done
  | case3 => cases done
  | case4 start c rest kind text found tokens' scanned ih =>
    cases done
    obtain ⟨nonempty, front, -⟩ := lexeme?_text found
    obtain ⟨split, -⟩ := drop_lexeme nonempty front
    cases before with
    | nil =>
      rw [List.nil_append] at whole
      cases whole
      refine ⟨rfl, ?_⟩
      rw [texts_scanFrom scanned, String.toList_ofList, split]
      exact found
    | cons u us =>
      rw [List.cons_append] at whole
      obtain ⟨rfl, rest⟩ := List.cons.inj whole
      obtain ⟨place, here⟩ := ih _ rest scanned
      refine ⟨?_, here⟩
      have length : 1 ≤ text.length := List.length_pos_iff.2 nonempty
      rw [place, List.flatMap_cons, List.length_append, String.toList_ofList]
      omega

/-- Every token was found at its place in the text. -/
theorem exists_lexeme_of_mem {start : Nat} {cs : List Char} {tokens : List Token} {t : Token}
    (done : scanFrom start cs = .ok tokens) (member : t ∈ tokens) :
    ∃ front back, cs = front ++ back ∧ t.start = start + front.length ∧
      lexeme? back = some (t.kind, t.text.toList) := by
  obtain ⟨before, after, rfl⟩ := List.append_of_mem member
  obtain ⟨place, found⟩ := lexeme?_of_scanFrom done
  refine ⟨_, _, ?_, place, found⟩
  rw [← texts_scanFrom done, List.flatMap_append, List.flatMap_cons]

theorem proper_scanFrom {start : Nat} {cs : List Char} {tokens : List Token}
    (done : scanFrom start cs = .ok tokens) : ∀ t ∈ tokens, t.Proper (start + cs.length) := by
  intro t member
  obtain ⟨front, back, rfl, place, found⟩ := exists_lexeme_of_mem done member
  obtain ⟨-, begins, symbol⟩ := lexeme?_text found
  refine ⟨?_, fun op operator => String.toList_injective (symbol op operator)⟩
  have length := begins.length_le
  rw [String.length_toList] at length
  rw [Token.stop, place, List.length_append]
  omega

theorem within_scanFrom {start : Nat} {cs : List Char} {fault : SyntaxFault}
    (failed : scanFrom start cs = .error fault) : fault.Within (start + cs.length) := by
  fun_induction scanFrom start cs with
  | case1 => cases failed
  | case2 =>
    cases failed
    exact .single _ (Nat.le_add_right _ _)
  | case3 start c rest kind text found fault' scanned ih =>
    cases failed
    obtain ⟨nonempty, front, -⟩ := lexeme?_text found
    have within := ih scanned
    rwa [(drop_lexeme nonempty front).2] at within
  | case4 => cases failed

/-- The tokens of a text, one after the other, are the text. -/
theorem texts_scan {source : String} {tokens : List Token} (done : scan source = .ok tokens) :
    tokens.flatMap (·.text.toList) = source.toList :=
  texts_scanFrom done

/-- There are not more tokens than characters. -/
theorem length_le_of_scan {source : String} {tokens : List Token}
    (done : scan source = .ok tokens) : tokens.length ≤ source.length := by
  have nonempty : ∀ n ∈ tokens.map (·.text.toList.length), 1 ≤ n := by
    intro n member
    obtain ⟨t, inside, rfl⟩ := List.mem_map.1 member
    obtain ⟨_, _, -, -, found⟩ := exists_lexeme_of_mem done inside
    exact List.length_pos_iff.2 (lexeme?_text found).1
  have few := List.length_le_sum_of_one_le _ nonempty
  rwa [List.length_map, ← List.length_flatMap, texts_scan done, String.length_toList] at few

theorem proper_of_mem_scan {source : String} {tokens : List Token}
    (done : scan source = .ok tokens) : ∀ t ∈ tokens, t.Proper source.length := by
  have proper := proper_scanFrom done
  rwa [Nat.zero_add] at proper

theorem within_of_scan {source : String} {fault : SyntaxFault}
    (failed : scan source = .error fault) : fault.Within source.length := by
  have within := within_scanFrom failed
  rwa [Nat.zero_add] at within

end Reckon
