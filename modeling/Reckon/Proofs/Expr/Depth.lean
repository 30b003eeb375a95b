import Reckon.Proofs.Expr.Account
import Reckon.Proofs.Form.Read

/-!
# Reading with a number of frames

With any number of frames a text is read as without a limit, or refused because the frames are not
enough (`readWithin_or_deep`). Five frames for each character and three more are always enough
(`Vocabulary.readsWithin_of_le`). No fixed number is: what is in `n` pairs of parentheses takes
more than `4 * n` frames (`readWithin_enclosed`), although it is read without a limit.

That there is no operand is found three frames deep, and at most five frames are entered before a
token is taken. So the bound is shown by induction on the number of tokens, with `FitBelow` as what
the readers inside of an expression rely on.
-/

namespace Reckon

namespace Parser

variable {v : Vocabulary} {stop n frames : Nat} {spaced : Bool} {least : Binding} {st : State}

theorem Result.leaves_of_forall {α : Type} {result : Result α n}
    {p : (st : State) → st.size < n → Bool} (all : ∀ st fewer, p st fewer = true) :
    result.leaves p = true := by
  unfold Result.leaves
  split
  · rfl
  · exact all _ _

/-! ## Enough frames -/

/-- Where fewer than `n` tokens are left, five frames for each and three more are enough for an
expression. -/
def FitBelow (v : Vocabulary) (stop n : Nat) : Prop :=
  ∀ ⦃spaced : Bool⦄ ⦃least : Binding⦄ ⦃frames : Nat⦄ ⦃st : State⦄, st.size < n →
    5 * st.size + 3 ≤ frames → expressionFits v stop spaced least frames st = true

theorem chainFits_of_le (below : FitBelow v stop n) {st : State} (few : st.size < n)
    (enough : 5 * st.size + 3 ≤ frames) : chainFits v stop spaced least frames st = true := by
  rw [chainFits]
  split
  next op unwritten _ =>
    split
    next => rfl
    next =>
      obtain ⟨st₀, le⟩ := pastOperator unwritten st
      rw [Bool.and_eq_true]
      refine ⟨below (by omega) (by omega), Result.leaves_of_forall fun st₁ fewer => ?_⟩
      exact chainFits_of_le below (by omega) (by omega)
  next => rfl
termination_by st.size

theorem argumentsFit_of_le (below : FitBelow v stop n) {st : State} (few : st.size < n)
    (enough : 5 * st.size + 3 ≤ frames) : argumentsFit v stop frames st = true := by
  rw [argumentsFit, Bool.and_eq_true]
  refine ⟨below few enough, Result.leaves_of_forall fun st₁ fewer => ?_⟩
  split
  next st₂ fewer' _ => exact argumentsFit_of_le below (by omega) (by omega)
  next => rfl
termination_by st.size

theorem rowFits_of_le (below : FitBelow v stop n) {begun wanted : Bool} {st : State}
    (few : st.size < n) (enough : 5 * st.size + 3 ≤ frames) :
    rowFits v stop begun wanted frames st = true := by
  rw [rowFits]
  split
  next => rfl
  next t st₁ fewer _ =>
    split
    next => rfl
    next =>
      rw [rowFits_of_le below (by omega) (by omega), Bool.or_true]
    next =>
      rw [Bool.and_eq_true]
      refine ⟨below few enough, Result.leaves_of_forall fun st₂ fewer' => ?_⟩
      exact rowFits_of_le below (by omega) (by omega)
termination_by st.size

theorem moreRowsFit_of_le (below : FitBelow v stop n) {st : State} (few : st.size < n)
    (enough : 5 * st.size + 3 ≤ frames) : moreRowsFit v stop spaced frames st = true := by
  rw [moreRowsFit]
  split
  next =>
    split
    next => rfl
    next opening st₁ fewer _ =>
      rw [Bool.and_eq_true]
      refine ⟨rowFits_of_le below (by omega) (by omega), ?_⟩
      refine Result.leaves_of_forall fun st₂ fewer' => ?_
      exact moreRowsFit_of_le below (by omega) (by omega)
  next => rfl
termination_by st.size

theorem callFits_of_le (below : FitBelow v stop n) (few : st.size ≤ n)
    (enough : 5 * st.size ≤ frames) (some : 0 < frames) : callFits v stop frames st = true := by
  cases frames with
  | zero => omega
  | succ frames =>
    rw [callFits]
    split
    next => rfl
    next opening st₁ fewer _ =>
      split
      next => rfl
      next => exact argumentsFit_of_le below (by omega) (by omega)

theorem identifierFits_of_le (below : FitBelow v stop n) (t : Token) (few : st.size ≤ n)
    (enough : 5 * st.size + 2 ≤ frames) : identifierFits v stop spaced t frames st = true := by
  cases frames with
  | zero => omega
  | succ frames =>
    rw [identifierFits]
    split
    next => exact callFits_of_le below few (by omega) (by omega)
    next => rfl

theorem primaryFits_of_le (below : FitBelow v stop n) (t : Token) (few : st.size < n)
    (enough : 5 * st.size + 6 ≤ frames) : primaryFits v stop spaced t frames st = true := by
  cases frames with
  | zero => omega
  | succ frames =>
    rw [primaryFits]
    split
    next => exact identifierFits_of_le below t few.le (by omega)
    next => exact below few (by omega)
    next =>
      rw [Bool.and_eq_true, Bool.and_eq_true, decide_eq_true_eq]
      refine ⟨⟨by omega, rowFits_of_le below few (by omega)⟩, ?_⟩
      exact Result.leaves_of_forall fun st₁ fewer =>
        moreRowsFit_of_le below (by omega) (by omega)
    next => rfl

theorem operandFits_of_le (below : FitBelow v stop n) (few : st.size ≤ n)
    (enough : 5 * st.size + 2 ≤ frames) : operandFits v stop spaced frames st = true := by
  cases frames with
  | zero => omega
  | succ frames =>
    rw [operandFits]
    split
    next => exact decide_eq_true (by omega)
    next t st₁ fewer _ =>
      split
      next => exact below (by omega) (by omega)
      next => exact primaryFits_of_le below t (by omega) (by omega)

theorem fitBelow (v : Vocabulary) (stop n : Nat) : FitBelow v stop n := by
  induction n with
  | zero => exact fun _ _ _ _ few => absurd few (Nat.not_lt_zero _)
  | succ n below =>
    intro spaced least frames st few enough
    cases frames with
    | zero => omega
    | succ frames =>
      rw [expressionFits, Bool.and_eq_true]
      refine ⟨operandFits_of_le below (by omega) (by omega), ?_⟩
      exact Result.leaves_of_forall fun st₁ fewer => chainFits_of_le below (by omega) (by omega)

/-- Five frames for each token and three more are enough for an expression. -/
theorem expressionFits_of_le (enough : 5 * st.size + 3 ≤ frames) :
    expressionFits v stop spaced least frames st = true :=
  fitBelow v stop (st.size + 1) (Nat.lt_succ_self _) enough

/-! ## Parentheses -/

/-- An opening parenthesis takes four frames. -/
theorem expressionFits_openParen {t : Token} {ts : List Token} (kind : t.kind = .openParen)
    (shape : skipBlanks st.rest = t :: ts)
    (tooFew : expressionFits v stop false 0 (frames - 4) ⟨some t, ts⟩ = false) :
    expressionFits v stop spaced least frames st = false := by
  obtain ⟨_, found⟩ := exists_next shape
  have noSign : (signOf? t).isSome = false := by
    rw [signOf?, kind]
    rfl
  -- no frame for the expression, none for its operand, none for what the operand is
  rcases frames with _ | _ | _ | frames
  · rw [expressionFits]
  · rw [expressionFits, operandFits, Bool.false_and]
  · rw [expressionFits, operandFits, found]
    dsimp only
    rw [noSign, if_neg Bool.false_ne_true, primaryFits, Bool.false_and]
  · rw [expressionFits, operandFits, found]
    dsimp only
    rw [noSign, if_neg Bool.false_ne_true, primaryFits, kind]
    dsimp only
    rw [show frames - 1 = frames + 3 - 4 by omega, tooFew, Bool.false_and]

end Parser

namespace Form

variable {v : Vocabulary} {frames n : Nat}

/-- A form in pairs of parentheses. -/
def enclosed (f : Form) : Nat → Form
  | 0 => f
  | n + 1 => .paren (f.enclosed n)

theorem chars_enclosed (f : Form) (n : Nat) :
    (f.enclosed n).chars = List.replicate n '(' ++ (f.chars ++ List.replicate n ')') := by
  induction n with
  | zero => simp [enclosed]
  | succ n ih =>
    rw [enclosed, chars, ih, List.replicate_succ, List.replicate_succ', List.cons_append,
      List.append_assoc, List.append_assoc]

theorem WellFormed.enclosed {f : Form} (wellFormed : f.WellFormed v) :
    ∀ n, (f.enclosed n).WellFormed v
  | 0 => wellFormed
  | n + 1 => wellFormed.enclosed n

theorem tree_enclosed (f : Form) : ∀ n, (f.enclosed n).tree = f.tree
  | 0 => rfl
  | n + 1 => f.tree_enclosed n

theorem expressionFits_enclosed (f : Form) {stop start : Nat} {spaced : Bool} {least : Binding}
    {before : Option Token} {rest : List Token} (few : frames ≤ 4 * n) :
    Parser.expressionFits v stop spaced least frames
      ⟨before, (f.enclosed n).tokens start ++ rest⟩ = false := by
  induction n generalizing frames start spaced least before rest with
  | zero =>
    obtain rfl := Nat.le_zero.1 few
    rw [Parser.expressionFits]
  | succ n ih =>
    have shape : Parser.skipBlanks ((f.enclosed (n + 1)).tokens start ++ rest) =
        ⟨.openParen, "(", start⟩ :: ((f.enclosed n).tokens (start + 1) ++
          ([⟨.closeParen, ")", start + 1 + (f.enclosed n).chars.length⟩] ++ rest)) := by
      rw [skipBlanks_tokens, Form.enclosed, tokens, List.cons_append, List.append_assoc]
    exact Parser.expressionFits_openParen rfl shape (ih (by omega))

/-- The text of a form is no definition, so that its tokens are read as an expression. -/
theorem readsWithin_chars {f : Form} (readable : f.Readable v) (frames : Nat) :
    v.readsWithin frames (String.ofList f.chars) =
      Parser.expressionFits v (String.ofList f.chars).length false 0 frames
        ⟨none, f.tokens 0⟩ := by
  have visible : Parser.skipBlanks (f.tokens 0) = f.tokens 0 := by
    simpa using f.skipBlanks_tokens 0 []
  obtain ⟨t, ts, shape, -⟩ := f.exists_tokens 0
  have nonempty : (Parser.skipBlanks (f.tokens 0)).isEmpty = false := by
    rw [visible, shape]
    rfl
  rw [Vocabulary.readsWithin, scan_chars readable]
  dsimp only
  rw [Parser.tokensFit, nonempty, Parser.definitionHead?_eq_none (f.noEquals_tokens 0)]
  rfl

end Form

/-! ## Texts -/

/-- Five frames for each character and three more are enough for a text. -/
theorem Vocabulary.readsWithin_of_le (v : Vocabulary) {frames : Nat} {source : String}
    (enough : 5 * source.length + 3 ≤ frames) : v.readsWithin frames source = true := by
  unfold readsWithin
  split
  next => rfl
  next tokens scanned =>
    have few := length_le_of_scan scanned
    unfold Parser.tokensFit
    split
    next => rfl
    split
    next name params rest head =>
      have fewer := (Parser.head_of_definitionHead? head).length_lt
      rw [Parser.expressionFits_of_le (by dsimp only [Parser.State.size]; omega), Bool.or_true]
    next => exact Parser.expressionFits_of_le (by dsimp only [Parser.State.size]; omega)

/-- With any number of frames, reading a text ends as it does without a limit, with a tree or with
a fault whose place is in the text or right behind it; or the frames are not enough, and then there
are fewer of them than five for each character and three more. -/
theorem readWithin_or_deep (ctx : Context) (frames : Nat) (source : String) (names : List String) :
    (∃ e, ctx.readWithin frames source names = .ok e ∧ ctx.read source names = .ok e) ∨
    (∃ fault, ctx.readWithin frames source names = .error (.badSyntax fault source) ∧
      ctx.read source names = .error (.badSyntax fault source) ∧ fault.Within source.length) ∨
    (ctx.readWithin frames source names = .error (.depth .evaluating) ∧
      frames < 5 * source.length + 3) := by
  unfold Context.readWithin
  split
  next =>
    obtain ⟨e, done⟩ | ⟨fault, failed, within⟩ := read_or_within ctx source names
    · exact .inl ⟨e, done, done⟩
    · exact .inr (.inl ⟨fault, failed, failed, within⟩)
  next tooFew =>
    refine .inr (.inr ⟨rfl, ?_⟩)
    by_contra enough
    exact tooFew (Vocabulary.readsWithin_of_le _ (not_lt.1 enough))

/-- In more pairs of parentheses than there are frames for, four for each, a text is refused,
although it is read as its tree. -/
theorem readWithin_enclosed (ctx : Context) (names : List String) {f : Form} {frames n : Nat}
    (wellFormed : f.WellFormed (ctx.vocabulary.extend names)) (few : frames ≤ 4 * n) :
    let source := String.ofList (List.replicate n '(' ++ (f.chars ++ List.replicate n ')'))
    ctx.readWithin frames source names = .error (.depth .evaluating) ∧
      ctx.read source names = .ok f.tree := by
  intro source
  have whole := wellFormed.enclosed n
  have text : source = String.ofList (f.enclosed n).chars := by rw [Form.chars_enclosed]
  have tooFew : (ctx.vocabulary.extend names).readsWithin frames source = false := by
    have refused : Parser.expressionFits (ctx.vocabulary.extend names)
        (String.ofList (f.enclosed n).chars).length false 0 frames
          ⟨none, (f.enclosed n).tokens 0 ++ []⟩ = false := f.expressionFits_enclosed few
    rw [List.append_nil] at refused
    rw [text, Form.readsWithin_chars whole.readable, refused]
  constructor
  · rw [Context.readWithin, tooFew]
    rfl
  · rw [Context.read, text, Form.parse_chars whole, Form.tree_enclosed]

/-- Three hundred pairs of parentheses around a number are too many. -/
theorem readWithin_three_hundred :
    let source := String.ofList (List.replicate 300 '(' ++ ('1' :: List.replicate 300 ')'))
    Context.initial.readWithin frameLimit source [] = .error (.depth .evaluating) ∧
      Context.initial.read source [] = .ok (.literal 1 true) := by
  have few : frameLimit ≤ 4 * 300 := by decide
  have wellFormed : (Form.number (Decimal.positionalNumeral 1 0)).WellFormed
      (Context.initial.vocabulary.extend []) := trivial
  have refused := readWithin_enclosed Context.initial [] wellFormed few
  rwa [show (Form.number (Decimal.positionalNumeral 1 0)).chars = ['1'] from rfl,
    List.singleton_append] at refused

end Reckon
