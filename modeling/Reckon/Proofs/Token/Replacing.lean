import Reckon.Proofs.Expr.Unwrap
import Reckon.Proofs.Expr.Words
import Reckon.Proofs.Token.Tiling

/-!
# Another text in place of a token

Of what follows a token only the first character matters (`lexeme?_of_head`). So if a text begins
with the same character as a token and is cut into tokens in front of what follows it, it can stand
in the place of the token, and the other tokens stay the same (`scan_replaced`).
-/

namespace Reckon

/-! ## The character behind a token -/

section Heads

variable {p : Char → Bool} {text rest rest' whole fraction : List Char} {kind : TokenKind}

/-- Behind a run, the run does not go on. -/
theorem stop_of_takeWhile (run : (text ++ rest).takeWhile p = text) :
    (∀ c ∈ text, p c = true) ∧ ∀ c ∈ rest.head?, p c = false := by
  have all : ∀ c ∈ text, p c = true := fun c member => by
    rw [← run] at member
    exact List.mem_takeWhile_imp member
  refine ⟨all, fun c member => ?_⟩
  obtain ⟨more, rfl⟩ := List.head?_eq_some_iff.1 member
  rw [List.takeWhile_append_of_pos all, List.append_right_eq_self] at run
  by_contra other
  rw [List.takeWhile_cons_of_pos (Bool.eq_true_of_not_eq_false other)] at run
  cases run

theorem takeWhile_of_head (run : (text ++ rest).takeWhile p = text)
    (same : rest'.head? = rest.head?) : (text ++ rest').takeWhile p = text := by
  obtain ⟨all, stop⟩ := stop_of_takeWhile run
  exact takeWhile_append_of_stop all (same ▸ stop)

theorem NumberText.of_head (number : NumberText whole fraction text rest)
    (same : rest'.head? = rest.head?) : NumberText whole fraction text rest' where
  wholeDigits := number.wholeDigits
  fractionDigits := number.fractionDigits
  nonempty := number.nonempty
  stop := same ▸ number.stop
  shape := same ▸ number.shape

theorem take_two_of_head {c : Char} {cs : List Char} (same : rest'.head? = rest.head?) :
    (c :: (cs ++ rest')).take 2 = (c :: (cs ++ rest)).take 2 := by
  cases cs with
  | cons d cs => rfl
  | nil => cases rest <;> cases rest' <;> simp_all

/-- A number shows in its first two characters. -/
theorem startsNumber_take (cs : List Char) : startsNumber (cs.take 2) = startsNumber cs := by
  match cs with
  | [] => rfl
  | [_] => rfl
  | c :: d :: cs =>
    by_cases point : c = '.'
    · rw [point]
      rfl
    · rw [List.take_succ_cons, List.take_succ_cons, List.take_zero, startsNumber, startsNumber] <;>
        simp [point]

/-- No operator is longer than two characters. -/
theorem matchOperator?_take (cs : List Char) : matchOperator? (cs.take 2) = matchOperator? cs := by
  have short : ∀ op : Operator,
      op.symbol.toList.isPrefixOf (cs.take 2) = op.symbol.toList.isPrefixOf cs := by
    intro op
    match cs with
    | [] => rfl
    | [_] => rfl
    | c :: d :: cs => cases op <;> simp [Operator.symbol, List.isPrefixOf]
  unfold matchOperator?
  simp only [short]

/-- A token does not change if something else follows that begins with the same character. -/
theorem lexeme?_of_head (found : lexeme? (text ++ rest) = some (kind, text))
    (same : rest'.head? = rest.head?) : lexeme? (text ++ rest') = some (kind, text) := by
  obtain ⟨c, cs, rfl⟩ := List.exists_cons_of_ne_nil (lexeme?_text found).1
  have run : ∀ {p : Char → Bool}, (cs ++ rest).takeWhile p = cs →
      (cs ++ rest').takeWhile p = cs := fun all => takeWhile_of_head all same
  have two : (c :: (cs ++ rest')).take 2 = (c :: (cs ++ rest)).take 2 := take_two_of_head same
  have starts : startsNumber (c :: (cs ++ rest')) = startsNumber (c :: (cs ++ rest)) := by
    rw [← startsNumber_take, two, startsNumber_take]
  have operator : matchOperator? (c :: (cs ++ rest')) = matchOperator? (c :: (cs ++ rest)) := by
    rw [← matchOperator?_take, two, matchOperator?_take]
  rw [List.cons_append, lexeme?_cons_iff] at found ⊢
  generalize whole : c :: cs = text at found
  cases found with
  | space blank =>
    have lexeme : Lexeme c (cs ++ rest') .space _ := .space blank
    rwa [run (List.cons.inj whole).2.symm, whole] at lexeme
  | number visible starts parts =>
    subst whole
    have number : NumberText _ _ (c :: cs) rest := numberText_of_numberParts starts parts
    have number := number.of_head same
    exact .number visible number.startsNumber number.numberParts
  | identifier visible noNumber letter =>
    have lexeme : Lexeme c (cs ++ rest') .identifier _ :=
      .identifier visible (starts.trans noNumber) letter
    rwa [run (List.cons.inj whole).2.symm, whole] at lexeme
  | operator visible noNumber noName matched =>
    exact .operator visible (starts.trans noNumber) noName (operator.trans matched)
  | mark visible noNumber noName unmatched mark =>
    exact .mark visible (starts.trans noNumber) noName (operator.trans unmatched) mark

end Heads

/-! ## Tokens in front of another rest -/

section Rest

variable {ts : List Token} {rest rest' : List Char}

theorem scans_tokens (found : ∀ before t after, ts = before ++ t :: after →
      lexeme? (t.text.toList ++ (Token.texts after ++ rest)) = some (t.kind, t.text.toList))
    (same : rest'.head? = rest.head?) (start : Nat) :
    ∃ us, List.Forall₂ Token.Same ts us ∧ Scans start (Token.texts ts) us rest' := by
  induction ts generalizing start with
  | nil => exact ⟨[], .nil, scans_nil start rest'⟩
  | cons t ts ih =>
    have here := found [] t ts rfl
    have heads : (Token.texts ts ++ rest').head? = (Token.texts ts ++ rest).head? := by
      rw [List.head?_append, List.head?_append, same]
    obtain ⟨us, alike, scans⟩ := ih
      (fun before u after shape => found (t :: before) u after (congrArg _ shape))
      (start + t.text.toList.length)
    have first : Scans start t.text.toList [⟨t.kind, String.ofList t.text.toList, start⟩]
        (Token.texts ts ++ rest') :=
      scans_lexeme (lexeme?_text here).1 (lexeme?_of_head here heads)
    refine ⟨⟨t.kind, String.ofList t.text.toList, start⟩ :: us,
      .cons ⟨rfl, String.ofList_toList.symm⟩ alike, ?_⟩
    rw [Token.texts_cons]
    exact first.cons scans

end Rest

/-- In the place of a token there can be a text that begins with the same character. -/
theorem scan_replaced {source : String} {before after : List Token} {t : Token}
    {text : List Char} {P : List Token → Prop}
    (scanned : scan source = .ok (before ++ t :: after))
    (first : text.head? = t.text.toList.head?) (nonempty : text ≠ [])
    (scans : ∀ start, ∃ us, P us ∧ Scans start text us (Token.texts after)) :
    ∃ before' us after',
      scan (String.ofList (Token.texts before ++ (text ++ Token.texts after))) =
        .ok (before' ++ (us ++ after')) ∧
      List.Forall₂ Token.Same before before' ∧ P us ∧ List.Forall₂ Token.Same after after' := by
  have found : ∀ before₁ u after₁, before ++ t :: after = before₁ ++ u :: after₁ →
      lexeme? (u.text.toList ++ Token.texts after₁) = some (u.kind, u.text.toList) := by
    intro before₁ u after₁ shape
    rw [scan, shape] at scanned
    exact (lexeme?_of_scanFrom scanned).2
  have some_char := (lexeme?_text (found before t after rfl)).1
  have heads : (text ++ Token.texts after).head? =
      (t.text.toList ++ Token.texts after).head? := by
    rw [List.head?_append_of_ne_nil _ nonempty, List.head?_append_of_ne_nil _ some_char, first]
  have foundBefore : ∀ before₁ u after₁, before = before₁ ++ u :: after₁ →
      lexeme? (u.text.toList ++ (Token.texts after₁ ++ (t.text.toList ++ Token.texts after))) =
        some (u.kind, u.text.toList) := by
    rintro before₁ u after₁ rfl
    have here := found before₁ u (after₁ ++ t :: after) (List.append_assoc ..)
    rwa [Token.texts_append, Token.texts_cons] at here
  have foundAfter : ∀ before₁ u after₁, after = before₁ ++ u :: after₁ →
      lexeme? (u.text.toList ++ (Token.texts after₁ ++ [])) = some (u.kind, u.text.toList) := by
    rintro before₁ u after₁ rfl
    rw [List.append_nil]
    exact found (before ++ t :: before₁) u after₁ (by simp)
  obtain ⟨before', same, scansBefore⟩ := scans_tokens foundBefore heads 0
  obtain ⟨us, holds, scansText⟩ := scans (0 + (Token.texts before).length)
  obtain ⟨after', same', scansAfter⟩ :=
    scans_tokens foundAfter rfl (0 + (Token.texts before).length + text.length)
  rw [← List.append_nil (Token.texts after)] at scansText scansBefore
  have rest := scansText.append scansAfter
  rw [← List.append_assoc] at scansBefore
  exact ⟨before', us, after', (scansBefore.append rest).scan, same, holds, same'⟩

end Reckon
