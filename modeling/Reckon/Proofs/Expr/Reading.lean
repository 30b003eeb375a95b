import Reckon.Expr.Depth

/-!
# Rules of reading

`Parser.Reads` forgets that a reader leaves fewer tokens, and there is one rule for each way in
which a reader goes on. Callers use the rules and never open the readers.
-/

namespace Reckon

namespace Vocabulary

/-- The tree of a word with arguments after it. -/
def called (v : Vocabulary) (word : String) (args : List Expr) : Expr :=
  if v.isFunction word then .call word args
  else
    match v.functionEnding? [] word.toList with
    | some (front, function) => .juxtaposed (v.productOfNames front) (.call function args)
    | none => .call word args

end Vocabulary

namespace Parser

variable {v : Vocabulary} {stop : Nat} {spaced : Bool} {least : Binding} {st st₁ st₂ : State}
  {t : Token} {ts ts' : List Token} {left right e : Expr}

/-- The reader succeeds with this result and these tokens left. -/
def Reads {α : Type} {n : Nat} (result : Result α n) (a : α) (st : State) : Prop :=
  ∃ fewer, result = .ok (a, ⟨st, fewer⟩)

/-! ## Blanks -/

theorem mem_of_mem_skipBlanks : ∀ {ts : List Token}, t ∈ skipBlanks ts → t ∈ ts
  | [], member => member
  | t' :: ts, member => by
    rw [skipBlanks] at member
    split at member
    · exact .tail _ (mem_of_mem_skipBlanks member)
    · exact member

theorem skipBlanks_skipBlanks (ts : List Token) : skipBlanks (skipBlanks ts) = skipBlanks ts := by
  induction ts with
  | nil => rfl
  | cons t ts ih =>
    rw [skipBlanks]
    split
    next => exact ih
    next visible => rw [skipBlanks, if_neg visible]

theorem mem_of_skipBlanks (shape : skipBlanks ts = t :: ts') : t ∈ ts ∧ ts' ⊆ ts :=
  have all : ∀ u ∈ t :: ts', u ∈ ts := fun _ member => mem_of_mem_skipBlanks (shape ▸ member)
  List.forall_mem_cons.1 all

theorem length_lt_of_skipBlanks (shape : skipBlanks ts = t :: ts') : ts'.length < ts.length := by
  have fewer := length_skipBlanks_le ts
  rw [shape, List.length_cons] at fewer
  omega

theorem exists_next (shape : skipBlanks st.rest = t :: ts) :
    ∃ fewer, next st = some (t, ⟨⟨some t, ts⟩, fewer⟩) := by
  unfold next
  split
  next none =>
    rw [shape] at none
    cases none
  next t' ts' found =>
    obtain ⟨rfl, rfl⟩ := List.cons.inj (found.symm.trans shape)
    exact ⟨length_lt_of_skipBlanks shape, rfl⟩

theorem next_eq_none (shape : skipBlanks st.rest = []) : next st = none := by
  unfold next
  split
  next => rfl
  next found =>
    rw [shape] at found
    cases found

/-! ## Expressions -/

theorem reads_expression (operandRead : Reads (operand v stop spaced st) left st₁)
    (chainRead : Reads (chain v stop spaced least left st₁) e st₂) :
    Reads (expression v stop spaced least st) e st₂ := by
  obtain ⟨_, first⟩ := operandRead
  obtain ⟨_, second⟩ := chainRead
  rw [expression]
  simp only [first, second]
  exact ⟨_, rfl⟩

/-- Nothing that binds as tightly as `bound` goes on with the expression. -/
def Loose (spaced : Bool) (bound : Binding) (st : State) : Prop :=
  ∃ found, upcoming spaced st = .ok found ∧ ∀ entry ∈ found, entry.1.binding < bound

theorem Loose.mono {bound bound' : Binding} (loose : Loose spaced bound st) (le : bound ≤ bound') :
    Loose spaced bound' st := by
  obtain ⟨found, ahead, below⟩ := loose
  exact ⟨found, ahead, fun entry member => Nat.lt_of_lt_of_le (below entry member) le⟩

theorem reads_chain_nil (v : Vocabulary) (stop : Nat) (left : Expr)
    (loose : Loose spaced least st) :
    Reads (chain v stop spaced least left st) left st := by
  obtain ⟨found, ahead, below⟩ := loose
  rw [chain]
  cases found with
  | none =>
    simp only [ahead]
    exact ⟨_, rfl⟩
  | some entry =>
    obtain ⟨op, unwritten⟩ := entry
    have less := below _ rfl
    cases unwritten <;>
    · simp only [ahead, less, if_true]
      exact ⟨_, rfl⟩

theorem reads_chain_operator {op : Operator} (ahead : upcoming spaced st = .ok (some (op, false)))
    (tight : least ≤ op.binding) (shape : skipBlanks st.rest = t :: ts)
    (operandRead : Reads (expression v stop spaced (rightBinding op) ⟨some t, ts⟩) right st₁)
    (chainRead : Reads (chain v stop spaced least (.binary op false left right) st₁) e st₂) :
    Reads (chain v stop spaced least left st) e st₂ := by
  obtain ⟨_, found⟩ := exists_next shape
  obtain ⟨_, first⟩ := operandRead
  obtain ⟨_, second⟩ := chainRead
  rw [chain]
  simp only [ahead, Nat.not_lt.2 tight, if_false, found, first, second]
  exact ⟨_, rfl⟩

theorem reads_chain_attached {op : Operator} (ahead : upcoming spaced st = .ok (some (op, true)))
    (tight : least ≤ op.binding)
    (operandRead : Reads (expression v stop spaced (rightBinding op) st) right st₁)
    (chainRead : Reads (chain v stop spaced least (.binary op true left right) st₁) e st₂) :
    Reads (chain v stop spaced least left st) e st₂ := by
  obtain ⟨_, first⟩ := operandRead
  obtain ⟨_, second⟩ := chainRead
  rw [chain]
  simp only [ahead, Nat.not_lt.2 tight, if_false, first, second]
  exact ⟨_, rfl⟩

/-! ## Operands -/

theorem reads_operand_sign {sign : Sign} (shape : skipBlanks st.rest = t :: ts)
    (isSign : signOf? t = some sign)
    (operandRead : Reads (expression v stop spaced Binding.unary ⟨some t, ts⟩) e st₁) :
    Reads (operand v stop spaced st) (.unary sign e) st₁ := by
  obtain ⟨_, found⟩ := exists_next shape
  obtain ⟨_, first⟩ := operandRead
  rw [operand]
  simp only [found, isSign, first]
  exact ⟨_, rfl⟩

theorem reads_operand_number {n : Decimal} (shape : skipBlanks st.rest = t :: ts)
    (kind : t.kind = .number n) :
    Reads (operand v stop spaced st) (.literal n true) ⟨some t, ts⟩ := by
  obtain ⟨_, found⟩ := exists_next shape
  rw [operand]
  simp only [found, signOf?, kind]
  rw [primary]
  simp only [kind]
  exact ⟨_, rfl⟩

theorem reads_operand_paren {closing : Token} (shape : skipBlanks st.rest = t :: ts)
    (kind : t.kind = .openParen)
    (innerRead : Reads (expression v stop false 0 ⟨some t, ts⟩) e st₁)
    (rest : skipBlanks st₁.rest = closing :: ts') (closes : closing.kind = .closeParen) :
    Reads (operand v stop spaced st) e ⟨some closing, ts'⟩ := by
  obtain ⟨_, found⟩ := exists_next shape
  obtain ⟨_, first⟩ := innerRead
  obtain ⟨_, last⟩ := exists_next rest
  rw [operand]
  simp only [found, signOf?, kind]
  rw [primary]
  simp only [kind, first, close, last, closes]
  exact ⟨_, rfl⟩

/-- An operand that begins with an identifier. -/
theorem reads_operand_identifier (shape : skipBlanks st.rest = t :: ts)
    (kind : t.kind = .identifier)
    (read : ∀ {st₀ : State} (h : State.size ⟨some t, ts⟩ < st₀.size),
      Reads (identifier v stop spaced t st₀ ⟨some t, ts⟩ h) e st₁) :
    Reads (operand v stop spaced st) e st₁ := by
  obtain ⟨_, found⟩ := exists_next shape
  rw [operand]
  simp only [found, signOf?, kind]
  rw [primary]
  simp only [kind]
  exact read _

/-- An identifier with no parenthesis beside it. -/
def Apart (spaced : Bool) (t : Token) (ts : List Token) : Prop :=
  (adjacent spaced ⟨some t, ts⟩).any (·.kind == .openParen) = false

/-- No parenthesis follows, with or without blanks in between. -/
theorem apart_of_next (notCalled : ∀ t' ∈ (skipBlanks ts).head?, t'.kind ≠ .openParen) :
    Apart spaced t ts := by
  unfold Apart adjacent
  split
  · cases ts with
    | nil => rfl
    | cons t' ts' =>
      rw [List.head?_cons, Option.any_some, beq_eq_false_iff_ne]
      intro kind
      have visible : skipBlanks (t' :: ts') = t' :: ts' := by
        rw [skipBlanks, Token.isSpace, kind]
        rfl
      rw [visible] at notCalled
      exact notCalled t' rfl kind
  · cases after : skipBlanks ts with
    | nil => simp [@next_eq_none ⟨some t, ts⟩ after]
    | cons t' ts' =>
      obtain ⟨_, next⟩ := @exists_next ⟨some t, ts⟩ _ _ after
      rw [after] at notCalled
      simpa [next] using notCalled t' rfl

/-- A word that is no call. -/
theorem reads_operand_word (shape : skipBlanks st.rest = t :: ts) (kind : t.kind = .identifier)
    (apart : Apart spaced t ts) (known : v.isFunction t.text = true → v.isKnown t.text = true) :
    Reads (operand v stop spaced st) (v.productOfNames t.text) ⟨some t, ts⟩ := by
  have value : (v.isFunction t.text && !v.isKnown t.text) = false := by
    cases isFunction : v.isFunction t.text with
    | false => rfl
    | true => simp [known isFunction]
  refine reads_operand_identifier shape kind fun h => ?_
  rw [identifier]
  simp only [show (adjacent spaced ⟨some t, ts⟩).any (·.kind == .openParen) = false from apart,
    value, Bool.false_eq_true, if_false]
  exact ⟨_, rfl⟩

/-- A call right behind the name of a function. -/
theorem reads_operand_function (shape : skipBlanks st.rest = t :: ts) (kind : t.kind = .identifier)
    (isFunction : v.isFunction t.text = true) (beside : ¬ Apart spaced t ts)
    (callRead : Reads (call v stop t.text ⟨some t, ts⟩) e st₁) :
    Reads (operand v stop spaced st) e st₁ := by
  refine reads_operand_identifier shape kind fun h => ?_
  obtain ⟨_, first⟩ := callRead
  rw [identifier, if_pos (Bool.not_eq_false _ ▸ beside), if_pos isFunction]
  simp only [first]
  exact ⟨_, rfl⟩

/-- A word with arguments right behind it. -/
theorem reads_operand_call {args : List Expr} {opening : Token}
    (shape : skipBlanks st.rest = t :: opening :: ts) (kind : t.kind = .identifier)
    (isCalled : v.isCalled t.text = true) (opens : opening.kind = .openParen)
    (callRead : ∀ name, Reads (call v stop name ⟨some t, opening :: ts⟩) (.call name args) st₁) :
    Reads (operand v stop spaced st) (v.called t.text args) st₁ := by
  have visible : skipBlanks (opening :: ts) = opening :: ts := by
    rw [skipBlanks, Token.isSpace, opens]
    rfl
  obtain ⟨_, next⟩ := @exists_next ⟨some t, opening :: ts⟩ _ _ visible
  have adjacent : (adjacent spaced ⟨some t, opening :: ts⟩).any (·.kind == .openParen) = true := by
    cases spaced <;> simp [adjacent, next, opens]
  refine reads_operand_identifier shape kind fun h => ?_
  rw [identifier]
  simp only [adjacent, if_true]
  unfold Vocabulary.called
  cases isFunction : v.isFunction t.text with
  | true =>
    obtain ⟨_, first⟩ := callRead t.text
    simp only [if_true, first]
    exact ⟨_, rfl⟩
  | false =>
    simp only [Bool.false_eq_true, if_false]
    cases ending : v.functionEnding? [] t.text.toList with
    | some parts =>
      obtain ⟨_, first⟩ := callRead parts.2
      simp only [first]
      exact ⟨_, rfl⟩
    | none =>
      have unknown : (v.pieces t.text).all v.isKnown = false := by
        simpa [Vocabulary.isCalled, isFunction, ending] using isCalled
      obtain ⟨_, first⟩ := callRead t.text
      simp only [unknown, Bool.false_eq_true, if_false, first]
      exact ⟨_, rfl⟩

/-! ## Calls -/

theorem reads_call_nil {name : String} {opening closing : Token}
    (shape : skipBlanks st.rest = opening :: ts) (after : skipBlanks ts = closing :: ts')
    (closes : closing.kind = .closeParen) :
    Reads (call v stop name st) (.call name []) ⟨some closing, ts'⟩ := by
  obtain ⟨_, found⟩ := exists_next shape
  obtain ⟨_, last⟩ := @exists_next ⟨some opening, ts⟩ _ _ after
  obtain ⟨kind, text, start⟩ := closing
  cases closes
  rw [call]
  simp only [found, last]
  exact ⟨_, rfl⟩

theorem reads_call {name : String} {opening : Token} {args : List Expr}
    (shape : skipBlanks st.rest = opening :: ts)
    (more : ∀ t ∈ (skipBlanks ts).head?, t.kind ≠ .closeParen)
    (argumentsRead : Reads (arguments v stop opening [] ⟨some opening, ts⟩) args st₁) :
    Reads (call v stop name st) (.call name args) st₁ := by
  obtain ⟨_, found⟩ := exists_next shape
  obtain ⟨_, first⟩ := argumentsRead
  rw [call]
  simp only [found]
  split
  next text start st₂ _ last =>
    cases after : skipBlanks ts with
    | nil =>
      rw [@next_eq_none ⟨some opening, ts⟩ after] at last
      cases last
    | cons t ts' =>
      obtain ⟨_, next⟩ := @exists_next ⟨some opening, ts⟩ _ _ after
      rw [next] at last
      obtain ⟨rfl, -⟩ := Prod.mk.inj (Option.some.inj last)
      exact absurd rfl (more _ (by rw [after]; rfl))
  next =>
    simp only [first]
    exact ⟨_, rfl⟩

theorem reads_arguments_last {opening closing : Token} {before : List Expr}
    (argumentRead : Reads (expression v stop false 0 st) e st₁)
    (rest : skipBlanks st₁.rest = closing :: ts) (closes : closing.kind = .closeParen) :
    Reads (arguments v stop opening before st) (before ++ [e]) ⟨some closing, ts⟩ := by
  obtain ⟨_, first⟩ := argumentRead
  obtain ⟨_, last⟩ := exists_next rest
  rw [arguments]
  simp only [first, last]
  split
  next equal =>
    cases equal
    cases closes
  next =>
    simp only [close, last, closes]
    exact ⟨_, rfl⟩

theorem reads_arguments_cons {opening comma : Token} {before args : List Expr}
    (argumentRead : Reads (expression v stop false 0 st) e st₁)
    (rest : skipBlanks st₁.rest = comma :: ts) (separates : comma.kind = .comma)
    (argumentsRead :
      Reads (arguments v stop opening (before ++ [e]) ⟨some comma, ts⟩) args st₂) :
    Reads (arguments v stop opening before st) args st₂ := by
  obtain ⟨_, first⟩ := argumentRead
  obtain ⟨_, next⟩ := exists_next rest
  obtain ⟨_, second⟩ := argumentsRead
  obtain ⟨kind, text, start⟩ := comma
  cases separates
  rw [arguments]
  simp only [first, next, second]
  exact ⟨_, rfl⟩

/-! ## Brackets -/

theorem reads_operand_bracket {es : List Expr} {rows : List (List Expr)}
    (shape : skipBlanks st.rest = t :: ts) (kind : t.kind = .openBracket)
    (rowRead : Reads (row v stop t [] false ⟨some t, ts⟩) es st₁)
    (moreRead : Reads (moreRows v stop spaced [es] st₁) rows st₂)
    (tree : bracketOf rows t.start st₂.stop = .ok e) : Reads (operand v stop spaced st) e st₂ := by
  obtain ⟨_, found⟩ := exists_next shape
  obtain ⟨_, first⟩ := rowRead
  obtain ⟨_, second⟩ := moreRead
  rw [operand]
  simp only [found, signOf?, kind]
  rw [primary]
  simp only [kind, first, second, tree]
  exact ⟨_, rfl⟩

theorem reads_row_nil {opening : Token} (before : List Expr) (shape : skipBlanks st.rest = t :: ts)
    (closes : t.kind = .closeBracket) :
    Reads (row v stop opening before false st) before ⟨some t, ts⟩ := by
  obtain ⟨_, found⟩ := exists_next shape
  rw [row]
  simp only [found, closes, Bool.false_eq_true, if_false]
  exact ⟨_, rfl⟩

theorem reads_row_comma {opening : Token} {before es : List Expr}
    (shape : skipBlanks st.rest = t :: ts) (kind : t.kind = .comma)
    (some_element : before.isEmpty = false)
    (rowRead : Reads (row v stop opening before true ⟨some t, ts⟩) es st₁) :
    Reads (row v stop opening before false st) es st₁ := by
  obtain ⟨_, found⟩ := exists_next shape
  obtain ⟨_, first⟩ := rowRead
  rw [row]
  simp only [found, kind, some_element, Bool.or_false, Bool.false_eq_true, if_false, first]
  exact ⟨_, rfl⟩

theorem reads_row_cons {opening : Token} {before es : List Expr} {wanted : Bool}
    (shape : skipBlanks st.rest = t :: ts) (more : t.kind ≠ .closeBracket) (bare : t.kind ≠ .comma)
    (elementRead : Reads (expression v stop true 0 st) e st₁)
    (rowRead : Reads (row v stop opening (before ++ [e]) false st₁) es st₂) :
    Reads (row v stop opening before wanted st) es st₂ := by
  obtain ⟨_, found⟩ := exists_next shape
  obtain ⟨_, first⟩ := elementRead
  obtain ⟨_, second⟩ := rowRead
  rw [row]
  simp only [found]
  cases kind : t.kind with
  | closeBracket => exact absurd kind more
  | comma => exact absurd kind bare
  | _ =>
    simp only [first, second]
    exact ⟨_, rfl⟩

theorem reads_moreRows_nil (v : Vocabulary) (stop : Nat) (before : List (List Expr))
    (apart : (adjacent spaced st).any (·.kind == .openBracket) = false) :
    Reads (moreRows v stop spaced before st) before st := by
  rw [moreRows]
  simp only [apart, Bool.false_eq_true, if_false]
  exact ⟨_, rfl⟩

/-- A row that follows, where blanks count right behind the one before. -/
theorem reads_moreRows_beside {es : List Expr} {before rows : List (List Expr)}
    (shape : skipBlanks st.rest = t :: ts)
    (beside : (adjacent spaced st).any (·.kind == .openBracket) = true)
    (rowRead : Reads (row v stop t [] false ⟨some t, ts⟩) es st₁)
    (moreRead : Reads (moreRows v stop spaced (before ++ [es]) st₁) rows st₂) :
    Reads (moreRows v stop spaced before st) rows st₂ := by
  obtain ⟨_, found⟩ := exists_next shape
  obtain ⟨_, first⟩ := rowRead
  obtain ⟨_, second⟩ := moreRead
  rw [moreRows]
  simp only [beside, if_true, found, first, second]
  exact ⟨_, rfl⟩

/-- A row right behind another one. -/
theorem reads_moreRows_cons {es : List Expr} {before rows : List (List Expr)}
    (shape : st.rest = t :: ts) (opens : t.kind = .openBracket)
    (rowRead : Reads (row v stop t [] false ⟨some t, ts⟩) es st₁)
    (moreRead : Reads (moreRows v stop spaced (before ++ [es]) st₁) rows st₂) :
    Reads (moreRows v stop spaced before st) rows st₂ := by
  have visible : skipBlanks st.rest = t :: ts := by
    rw [shape, skipBlanks, Token.isSpace, opens]
    rfl
  obtain ⟨_, found⟩ := exists_next visible
  have beside : (adjacent spaced st).any (·.kind == .openBracket) = true := by
    cases spaced <;> simp [adjacent, shape, found, opens]
  exact reads_moreRows_beside visible beside rowRead moreRead

end Parser

end Reckon
