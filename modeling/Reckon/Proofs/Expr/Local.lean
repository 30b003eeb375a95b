import Reckon.Proofs.Expr.Spans

/-!
# Reading a part of a text

What a reader does depends on the tokens that it takes, not on where they stand in the text. A
closing parenthesis behind them is as good as the end of the text. So an expression is read from the
same tokens alone as it is read inside of parentheses.

Results: `Parser.State.Alike.expression`.
-/

namespace Reckon

/-- The tokens are the same up to their place in the text. -/
structure Token.Same (t u : Token) : Prop where
  kind : t.kind = u.kind
  text : t.text = u.text

theorem Token.Same.symm {t u : Token} (same : t.Same u) : u.Same t :=
  ⟨same.kind.symm, same.text.symm⟩

theorem Token.Same.isSpace {t u : Token} (same : t.Same u) : t.isSpace = u.isSpace := by
  rw [Token.isSpace, Token.isSpace, same.kind]

theorem Token.Same.isNumber {t u : Token} (same : t.Same u) : t.isNumber = u.isNumber := by
  rw [Token.isNumber, Token.isNumber, same.kind]

theorem Token.Same.startsOperand {t u : Token} (same : t.Same u) :
    t.startsOperand = u.startsOperand := by
  rw [Token.startsOperand, Token.startsOperand, same.kind]

namespace Parser

theorem signOf?_same {t u : Token} (same : t.Same u) : signOf? t = signOf? u := by
  rw [signOf?, signOf?, same.kind]

/-- No operand begins with a closing parenthesis. -/
theorem kind_of_primary {v : Vocabulary} {stop : Nat} {spaced : Bool} {t : Token} {st₀ st : State}
    {h : st.size < st₀.size} {e : Expr} {st₁ : { s : State // s.size < st₀.size }}
    (done : primary v stop spaced t st₀ st h = .ok (e, st₁)) : t.kind ≠ .closeParen := by
  intro kind
  rw [primary, kind] at done
  cases done

/-- An expression begins with a token that closes no parenthesis. -/
theorem exists_next_of_expression {v : Vocabulary} {stop : Nat} {spaced : Bool} {least : Binding}
    {st : State} {st' : { s : State // s.size < st.size }} {e : Expr}
    (done : expression v stop spaced least st = .ok (e, st')) :
    ∃ t st₁, next st = some (t, st₁) ∧ t.kind ≠ .closeParen := by
  rw [expression] at done
  split at done
  next => cases done
  next first =>
    rw [operand] at first
    split at first
    next => cases first
    next t st₁ h₁ found =>
      refine ⟨t, _, found, ?_⟩
      split at first
      next isSign =>
        obtain ⟨op, kind, -⟩ := kind_of_sign isSign
        simp [kind]
      next => exact kind_of_primary first

theorem exists_next_of_arguments {v : Vocabulary} {stop : Nat} {opening : Token}
    {before args : List Expr} {st : State} {st' : { s : State // s.size < st.size }}
    (done : arguments v stop opening before st = .ok (args, st')) :
    ∃ t st₁, next st = some (t, st₁) ∧ t.kind ≠ .closeParen := by
  rw [arguments] at done
  split at done
  next => cases done
  next first => exact exists_next_of_expression first

theorem next_of_close {opening : Token} {st : State} {st' : { s : State // s.size < st.size }}
    (done : close opening st = .ok ((), st')) :
    ∃ t, next st = some (t, st') ∧ t.kind = .closeParen := by
  unfold close at done
  split at done
  next => cases done
  next t st₁ found =>
    split at done
    next closes =>
      cases done
      exact ⟨t, found, eq_of_beq closes⟩
    next => cases done

theorem exists_next_of_adjacent {spaced : Bool} {st : State} {kind : TokenKind}
    (beside : (adjacent spaced st).any (·.kind == kind) = true) (visible : kind ≠ .space) :
    ∃ t st', next st = some (t, st') := by
  cases found : next st with
  | some entry => exact ⟨entry.1, entry.2, rfl⟩
  | none =>
    have blank := skipBlanks_of_next found
    unfold adjacent at beside
    split at beside
    · cases shape : st.rest with
      | nil =>
        rw [shape] at beside
        cases beside
      | cons t ts =>
        -- the first token is visible, so blanks are not all there is
        rw [shape, List.head?_cons, Option.any_some, beq_iff_eq] at beside
        have notBlank : t.isSpace = false := by
          rw [Token.isSpace, beside, beq_eq_false_iff_ne]
          exact visible
        rw [shape, skipBlanks, notBlank] at blank
        cases blank
    · rw [found] at beside
      cases beside

/-- No expression goes on here: the tokens are at an end, or there is a closing parenthesis. -/
def Ended (ts : List Token) : Prop :=
  ∀ t ∈ (skipBlanks ts).head?, t.kind = .closeParen

/-- The same is left to be read in front of the one and of the other tail, where an expression has
to end. -/
structure State.Alike (tail tail' : List Token) (st st' : State) : Prop where
  ended : Ended tail
  ended' : Ended tail'
  rest : ∃ ts us, st.rest = ts ++ tail ∧ st'.rest = us ++ tail' ∧ List.Forall₂ Token.Same ts us
  last : st.last.any Token.isNumber = st'.last.any Token.isNumber

/-! ## Blanks -/

theorem skipBlanks_append (ts tail : List Token) :
    skipBlanks (ts ++ tail) = match skipBlanks ts with
      | [] => skipBlanks tail
      | t :: ts => t :: (ts ++ tail) := by
  induction ts with
  | nil => rfl
  | cons t ts ih =>
    rw [List.cons_append, skipBlanks, skipBlanks]
    split
    next => exact ih
    next => rfl

theorem skipBlanks_same {ts us : List Token} (same : List.Forall₂ Token.Same ts us) :
    List.Forall₂ Token.Same (skipBlanks ts) (skipBlanks us) := by
  induction same with
  | nil => exact .nil
  | @cons t u ts us here rest ih =>
    rw [skipBlanks, skipBlanks, here.isSpace]
    split
    · exact ih
    · exact .cons here rest

/-- What stands first where an expression ends is neither an operand nor a bracket. -/
theorem Ended.any_head? {tail : List Token} (ended : Ended tail) {f : Token → Bool}
    (blank : ∀ t, t.kind = .space → f t = false)
    (closing : ∀ t, t.kind = .closeParen → f t = false) : tail.head?.any f = false := by
  cases tail with
  | nil => rfl
  | cons t tail =>
    rw [List.head?_cons, Option.any_some]
    cases space : t.isSpace with
    | true => exact blank t (eq_of_beq space)
    | false =>
      rw [Ended, skipBlanks, space] at ended
      exact closing t (ended t rfl)

theorem head?_next (st : State) : (next st).map (·.1) = (skipBlanks st.rest).head? := by
  cases shape : skipBlanks st.rest with
  | nil => rw [next_eq_none shape, Option.map_none, List.head?_nil]
  | cons t ts =>
    obtain ⟨fewer, found⟩ := exists_next shape
    rw [found, Option.map_some, List.head?_cons]

theorem upcoming_ended {spaced : Bool} {st : State} (ended : Ended st.rest) :
    upcoming spaced st = .ok none := by
  unfold upcoming
  split
  next => rfl
  next t ts shape =>
    rw [Ended, shape] at ended
    have kind := ended t rfl
    have starts : t.startsOperand = false := by rw [Token.startsOperand, kind]
    simp only [kind, starts, Bool.not_false, Bool.or_true, if_true]

namespace State.Alike

variable {v : Vocabulary} {stop stop' : Nat} {tail tail' : List Token}

section Next

variable {st st' : State}

/-- Either both go on with the same token, or both are at their tails. -/
theorem next_or_ended (alike : st.Alike tail tail' st') :
    (∃ t u ts us, skipBlanks st.rest = t :: (ts ++ tail) ∧
      skipBlanks st'.rest = u :: (us ++ tail') ∧ t.Same u ∧ List.Forall₂ Token.Same ts us) ∨
    (skipBlanks st.rest = skipBlanks tail ∧ skipBlanks st'.rest = skipBlanks tail') := by
  obtain ⟨ts, us, shape, shape', same⟩ := alike.rest
  have visible := skipBlanks_same same
  rw [shape, shape', skipBlanks_append, skipBlanks_append]
  cases visible' : skipBlanks ts with
  | nil =>
    rw [visible'] at visible
    rw [List.forall₂_nil_left_iff.1 visible]
    exact .inr ⟨rfl, rfl⟩
  | cons t ts₁ =>
    rw [visible'] at visible
    obtain ⟨u, us₁, here, rest, other⟩ := List.forall₂_cons_left_iff.1 visible
    rw [other]
    exact .inl ⟨t, u, ts₁, us₁, rfl, rfl, here, rest⟩

/-- A token in front of the tail is the same in both. -/
theorem next (alike : st.Alike tail tail' st') {t : Token}
    {st₁ : { s : State // s.size < st.size }} (found : Parser.next st = some (t, st₁))
    (within : tail.length ≤ st₁.1.size) :
    ∃ u st₁', Parser.next st' = some (u, st₁') ∧ t.Same u ∧ st₁.1.Alike tail tail' st₁'.1 := by
  obtain ⟨last, shape⟩ := shape_of_next found
  rcases alike.next_or_ended with ⟨t', u, ts, us, first, second, same, rest⟩ | ⟨first, -⟩
  · obtain ⟨rfl, other⟩ := List.cons.inj (shape.symm.trans first)
    obtain ⟨fewer, found'⟩ := exists_next second
    refine ⟨u, _, found', same, alike.ended, alike.ended', ⟨ts, us, other, rfl, rest⟩, ?_⟩
    rw [last]
    exact same.isNumber
  · have fits := length_skipBlanks_le tail
    rw [← first, shape, List.length_cons] at fits
    exact absurd (within.trans_lt (Nat.lt_of_succ_le fits)) (lt_irrefl _)

/-- Only a closing parenthesis can belong to the tail. -/
theorem next_of_ne (alike : st.Alike tail tail' st') {t : Token}
    {st₁ : { s : State // s.size < st.size }} (found : Parser.next st = some (t, st₁))
    (other : t.kind ≠ .closeParen) :
    ∃ u st₁', Parser.next st' = some (u, st₁') ∧ t.Same u ∧ st₁.1.Alike tail tail' st₁'.1 := by
  obtain ⟨last, shape⟩ := shape_of_next found
  rcases alike.next_or_ended with ⟨t', u, ts, us, first, second, same, rest⟩ | ⟨first, -⟩
  · obtain ⟨rfl, here⟩ := List.cons.inj (shape.symm.trans first)
    obtain ⟨fewer, found'⟩ := exists_next second
    refine ⟨u, _, found', same, alike.ended, alike.ended', ⟨ts, us, here, rfl, rest⟩, ?_⟩
    rw [last]
    exact same.isNumber
  · have ended := alike.ended
    rw [Ended, ← first, shape] at ended
    exact absurd (ended t rfl) other

theorem upcoming (alike : st.Alike tail tail' st') {spaced : Bool}
    {found : Option (Operator × Bool)} (done : Parser.upcoming spaced st = .ok found) :
    Parser.upcoming spaced st' = .ok found := by
  rcases alike.next_or_ended with ⟨t, u, ts, us, first, second, same, rest⟩ | ⟨first, second⟩
  · have apart : (st.rest.head?.any Token.isSpace) = st'.rest.head?.any Token.isSpace := by
      obtain ⟨ts', us', shape, shape', all⟩ := alike.rest
      cases all with
      | nil =>
        -- something in front of the tail is to be read
        rw [shape, List.nil_append] at first
        have fits := length_skipBlanks_le tail
        rw [first, List.length_cons, List.length_append] at fits
        omega
      | cons here _ =>
        rw [shape, shape']
        exact here.isSpace
    have after : ((ts ++ tail).head?.any Token.startsOperand) =
        (us ++ tail').head?.any Token.startsOperand := by
      cases rest with
      | nil =>
        rw [List.nil_append, List.nil_append, alike.ended.any_head?, alike.ended'.any_head?] <;>
        · intro t kind
          rw [Token.startsOperand, kind]
      | cons here _ => exact here.startsOperand
    unfold Parser.upcoming at done ⊢
    rw [first] at done
    rw [second]
    dsimp only at done ⊢
    rw [← same.kind, ← apart, ← same.startsOperand, ← same.isNumber, ← after, ← alike.last]
    split at done
    next => exact done
    next =>
      split at done
      next none =>
        rw [if_pos none]
        exact done
      next =>
        split at done
        next => cases done
        next more apart =>
          rw [if_neg more, if_neg apart]
          exact done
  · have done' : Parser.upcoming spaced st = .ok none := upcoming_ended (by
      rw [Ended, first]
      exact alike.ended)
    rw [done'] at done
    cases done
    exact upcoming_ended (by
      rw [Ended, second]
      exact alike.ended')

theorem adjacent (alike : st.Alike tail tail' st') (spaced : Bool) {kind : TokenKind}
    (blank : kind ≠ .space) (closing : kind ≠ .closeParen) :
    (Parser.adjacent spaced st).any (·.kind == kind) =
      (Parser.adjacent spaced st').any (·.kind == kind) := by
  have none : ∀ {tail : List Token}, Ended tail → tail.head?.any (·.kind == kind) = false :=
    fun ended => ended.any_head? (fun t same => by rw [same, beq_eq_false_iff_ne]; exact blank.symm)
      (fun t same => by rw [same, beq_eq_false_iff_ne]; exact closing.symm)
  unfold Parser.adjacent
  split
  · obtain ⟨ts, us, shape, shape', same⟩ := alike.rest
    rw [shape, shape']
    cases same with
    | nil => rw [List.nil_append, List.nil_append, none alike.ended, none alike.ended']
    | cons here _ => simp [here.kind]
  · rw [head?_next, head?_next]
    rcases alike.next_or_ended with ⟨t, u, ts, us, first, second, same, -⟩ | ⟨first, second⟩
    · rw [first, second, List.head?_cons, List.head?_cons, Option.any_some, Option.any_some,
        same.kind]
    · have none : ∀ {tail : List Token}, Ended tail →
          (skipBlanks tail).head?.any (·.kind == kind) = false := by
        intro tail ended
        rw [Option.any_eq_false]
        intro t member
        rw [ended t member, beq_eq_false_iff_ne]
        exact closing.symm
      rw [first, second, none alike.ended, none alike.ended']

theorem close (alike : st.Alike tail tail' st') {opening : Token} (opening' : Token)
    {st₁ : { s : State // s.size < st.size }} (done : Parser.close opening st = .ok ((), st₁))
    (within : tail.length ≤ st₁.1.size) :
    ∃ st₁', Parser.close opening' st' = .ok ((), st₁') ∧ st₁.1.Alike tail tail' st₁'.1 := by
  unfold Parser.close at done
  split at done
  next => cases done
  next found =>
    split at done
    next closes =>
      cases done
      obtain ⟨u, st₁', found', same, alike⟩ := alike.next found within
      rw [same.kind] at closes
      refine ⟨st₁', ?_, alike⟩
      rw [Parser.close, found']
      dsimp only
      rw [if_pos closes]
    next => cases done

end Next

/-! ## Brackets -/

theorem bracketOf {rows : List (List Expr)} {start last : Nat} {e : Expr} (start' last' : Nat)
    (done : Parser.bracketOf rows start last = .ok e) :
    Parser.bracketOf rows start' last' = .ok e := by
  have matrix : ∀ {rows : List Expr}, matrixOf rows start last = .ok e →
      matrixOf rows start' last' = .ok e := by
    intro rows done
    unfold matrixOf at done ⊢
    split at done
    next => exact done
    next =>
      dsimp only at done ⊢
      split at done
      next => cases done
      next regular =>
        split at done
        next => cases done
        next wide =>
          rw [if_neg regular, if_neg wide]
          exact done
  unfold Parser.bracketOf at done ⊢
  split at done
  next => exact done
  next =>
    split at done
    next several =>
      rw [if_pos several]
      exact matrix done
    next single =>
      rw [if_neg single]
      exact done
  next => exact matrix done

/-! ## The readers -/

-- by recursion on what is left to read, as the readers themselves
mutual

theorem expression {spaced : Bool} {least : Binding} {st st' : State} {e : Expr}
    {st₁ : { s : State // s.size < st.size }} (alike : st.Alike tail tail' st')
    (done : Parser.expression v stop spaced least st = .ok (e, st₁))
    (within : tail.length ≤ st₁.1.size) :
    ∃ st₁', Parser.expression v stop' spaced least st' = .ok (e, st₁') ∧
      st₁.1.Alike tail tail' st₁'.1 := by
  rw [Parser.expression] at done ⊢
  split at done
  next => cases done
  next left st₂ h₂ first =>
    split at done
    next => cases done
    next st₃ h₃ second =>
      cases done
      have within : tail.length ≤ st₃.size := within
      obtain ⟨⟨st₂', _⟩, first', alike⟩ := alike.operand first (by dsimp only; omega)
      obtain ⟨⟨st₃', _⟩, second', alike⟩ := alike.chain second within
      rw [first']
      dsimp only
      rw [second']
      exact ⟨_, rfl, alike⟩
termination_by 8 * st.size + 4

theorem chain {spaced : Bool} {least : Binding} {left e : Expr} {st st' : State}
    {st₁ : { s : State // s.size < st.size + 1 }} (alike : st.Alike tail tail' st')
    (done : Parser.chain v stop spaced least left st = .ok (e, st₁))
    (within : tail.length ≤ st₁.1.size) :
    ∃ st₁', Parser.chain v stop' spaced least left st' = .ok (e, st₁') ∧
      st₁.1.Alike tail tail' st₁'.1 := by
  rw [Parser.chain] at done ⊢
  split at done
  next => cases done
  next ahead =>
    cases done
    rw [alike.upcoming ahead]
    exact ⟨_, rfl, alike⟩
  next op ahead =>
    rw [alike.upcoming ahead]
    dsimp only
    split at done
    next loose =>
      cases done
      rw [if_pos loose]
      exact ⟨_, rfl, alike⟩
    next tight =>
      rw [if_neg tight]
      split at done
      next => cases done
      next right st₂ h₂ first =>
        split at done
        next => cases done
        next st₃ h₃ second =>
          cases done
          have within : tail.length ≤ st₃.size := within
          obtain ⟨⟨st₂', _⟩, first', alike⟩ := alike.expression first (by dsimp only; omega)
          obtain ⟨⟨st₃', _⟩, second', alike⟩ := alike.chain second within
          rw [first']
          dsimp only
          rw [second']
          exact ⟨_, rfl, alike⟩
  next op ahead =>
    rw [alike.upcoming ahead]
    dsimp only
    split at done
    next loose =>
      cases done
      rw [if_pos loose]
      exact ⟨_, rfl, alike⟩
    next tight =>
      rw [if_neg tight]
      split at done
      next none =>
        rw [upcoming_of_next none] at ahead
        cases ahead
      next t st₀ h₀ found =>
        split at done
        next => cases done
        next right st₂ h₂ first =>
          split at done
          next => cases done
          next st₃ h₃ second =>
            cases done
            have within : tail.length ≤ st₃.size := within
            obtain ⟨u, ⟨st₀', _⟩, found', -, alike⟩ := alike.next found (by dsimp only; omega)
            obtain ⟨⟨st₂', _⟩, first', alike⟩ :=
              alike.expression first (by dsimp only; omega)
            obtain ⟨⟨st₃', _⟩, second', alike⟩ := alike.chain second within
            rw [found']
            dsimp only
            rw [first']
            dsimp only
            rw [second']
            exact ⟨_, rfl, alike⟩
termination_by 8 * st.size + 5

theorem operand {spaced : Bool} {st st' : State} {e : Expr}
    {st₁ : { s : State // s.size < st.size }} (alike : st.Alike tail tail' st')
    (done : Parser.operand v stop spaced st = .ok (e, st₁)) (within : tail.length ≤ st₁.1.size) :
    ∃ st₁', Parser.operand v stop' spaced st' = .ok (e, st₁') ∧
      st₁.1.Alike tail tail' st₁'.1 := by
  rw [Parser.operand] at done ⊢
  split at done
  next => cases done
  next t st₂ h₂ found =>
    split at done
    next sign isSign =>
      split at done
      next => cases done
      next e st₃ h₃ first =>
        cases done
        obtain ⟨op, kind, -⟩ := kind_of_sign isSign
        obtain ⟨u, ⟨st₂', _⟩, found', same, alike⟩ :=
          alike.next_of_ne found (by simp [kind])
        obtain ⟨⟨st₃', _⟩, first', alike⟩ := alike.expression first within
        rw [found']
        dsimp only
        rw [← signOf?_same same, isSign]
        dsimp only
        rw [first']
        exact ⟨_, rfl, alike⟩
    next noSign =>
      obtain ⟨u, ⟨st₂', _⟩, found', same, alike⟩ :=
        alike.next_of_ne found (kind_of_primary done)
      obtain ⟨st₁', done', alike⟩ := alike.primary same done within
      rw [found']
      dsimp only
      rw [← signOf?_same same, noSign]
      exact ⟨st₁', done', alike⟩
termination_by 8 * st.size + 3

theorem primary {spaced : Bool} {t u : Token} {st₀ st st₀' st' : State} {h : st.size < st₀.size}
    {h' : st'.size < st₀'.size} {e : Expr} {st₁ : { s : State // s.size < st₀.size }}
    (alike : st.Alike tail tail' st') (same : t.Same u)
    (done : Parser.primary v stop spaced t st₀ st h = .ok (e, st₁))
    (within : tail.length ≤ st₁.1.size) :
    ∃ st₁', Parser.primary v stop' spaced u st₀' st' h' = .ok (e, st₁') ∧
      st₁.1.Alike tail tail' st₁'.1 := by
  rw [Parser.primary] at done ⊢
  rw [← same.kind]
  split at done
  next =>
    cases done
    exact ⟨_, rfl, alike⟩
  next => exact alike.identifier same done within
  next =>
    split at done
    next => cases done
    next e st₂ h₂ first =>
      split at done
      next => cases done
      next st₃ h₃ second =>
        cases done
        have within : tail.length ≤ st₃.size := within
        obtain ⟨⟨st₂', _⟩, first', alike⟩ := alike.expression first (by dsimp only; omega)
        obtain ⟨⟨st₃', _⟩, second', alike⟩ := alike.close u second within
        rw [first']
        dsimp only
        rw [second']
        exact ⟨_, rfl, alike⟩
  next =>
    split at done
    next => cases done
    next es st₂ h₂ first =>
      split at done
      next => cases done
      next rows st₃ h₃ second =>
        split at done
        next => cases done
        next e third =>
          cases done
          have within : tail.length ≤ st₃.size := within
          obtain ⟨⟨st₂', _⟩, first', alike⟩ := alike.row u first (by dsimp only; omega)
          obtain ⟨⟨st₃', _⟩, second', alike⟩ := alike.moreRows second within
          rw [first']
          dsimp only
          rw [second']
          dsimp only
          rw [bracketOf u.start st₃'.stop third]
          exact ⟨_, rfl, alike⟩
  next => cases done
termination_by 8 * st₀.size + 2

theorem identifier {spaced : Bool} {t u : Token} {st₀ st st₀' st' : State}
    {h : st.size < st₀.size} {h' : st'.size < st₀'.size} {e : Expr}
    {st₁ : { s : State // s.size < st₀.size }} (alike : st.Alike tail tail' st')
    (same : t.Same u) (done : Parser.identifier v stop spaced t st₀ st h = .ok (e, st₁))
    (within : tail.length ≤ st₁.1.size) :
    ∃ st₁', Parser.identifier v stop' spaced u st₀' st' h' = .ok (e, st₁') ∧
      st₁.1.Alike tail tail' st₁'.1 := by
  rw [Parser.identifier] at done ⊢
  rw [← alike.adjacent spaced (by decide) (by decide), ← same.text]
  split at done
  next opens =>
    rw [if_pos opens]
    split at done
    next isFunction =>
      rw [if_pos isFunction]
      split at done
      next => cases done
      next first =>
        cases done
        obtain ⟨st₁', first', alike⟩ := alike.call first within
        rw [first']
        exact ⟨_, rfl, alike⟩
    next other =>
      rw [if_neg other]
      split at done
      next =>
        split at done
        next => cases done
        next first =>
          cases done
          obtain ⟨st₁', first', alike⟩ := alike.call first within
          rw [first']
          exact ⟨_, rfl, alike⟩
      next =>
        split at done
        next known =>
          cases done
          rw [if_pos known]
          exact ⟨_, rfl, alike⟩
        next unknown =>
          rw [if_neg unknown]
          split at done
          next => cases done
          next first =>
            cases done
            obtain ⟨st₁', first', alike⟩ := alike.call first within
            rw [first']
            exact ⟨_, rfl, alike⟩
  next apart =>
    rw [if_neg apart]
    split at done
    next => cases done
    next word =>
      cases done
      rw [if_neg word]
      exact ⟨_, rfl, alike⟩
termination_by 8 * st₀.size + 1

theorem call {name : String} {st st' : State} {e : Expr}
    {st₁ : { s : State // s.size < st.size }} (alike : st.Alike tail tail' st')
    (done : Parser.call v stop name st = .ok (e, st₁)) (within : tail.length ≤ st₁.1.size) :
    ∃ st₁', Parser.call v stop' name st' = .ok (e, st₁') ∧ st₁.1.Alike tail tail' st₁'.1 := by
  rw [Parser.call] at done ⊢
  split at done
  next => cases done
  next opening st₂ h₂ found =>
    split at done
    next st₃ h₃ closed =>
      cases done
      have within : tail.length ≤ st₃.size := within
      obtain ⟨u, ⟨st₂', _⟩, found', -, alike⟩ := alike.next found (by dsimp only; omega)
      obtain ⟨⟨kind', text', start'⟩, ⟨st₃', _⟩, closed', same, alike⟩ := alike.next closed within
      obtain rfl : .closeParen = kind' := same.kind
      rw [found']
      dsimp only
      rw [closed']
      exact ⟨_, rfl, alike⟩
    next open' =>
      split at done
      next => cases done
      next args st₃ h₃ first =>
        cases done
        have within : tail.length ≤ st₃.size := within
        obtain ⟨u, ⟨st₂', _⟩, found', -, alike₂⟩ := alike.next found (by dsimp only; omega)
        obtain ⟨⟨st₃', _⟩, first', alike⟩ := alike₂.arguments u first within
        rw [found']
        dsimp only
        split
        next closed' =>
          obtain ⟨t, _, visible, other⟩ := exists_next_of_arguments first
          obtain ⟨u, _, visible', same, -⟩ := alike₂.next_of_ne visible other
          rw [visible'] at closed'
          obtain ⟨rfl, -⟩ := Prod.mk.inj (Option.some.inj closed')
          exact absurd same.kind other
        next =>
          rw [first']
          exact ⟨_, rfl, alike⟩
termination_by 8 * st.size

theorem arguments {opening : Token} (opening' : Token) {before args : List Expr} {st st' : State}
    {st₁ : { s : State // s.size < st.size }} (alike : st.Alike tail tail' st')
    (done : Parser.arguments v stop opening before st = .ok (args, st₁))
    (within : tail.length ≤ st₁.1.size) :
    ∃ st₁', Parser.arguments v stop' opening' before st' = .ok (args, st₁') ∧
      st₁.1.Alike tail tail' st₁'.1 := by
  rw [Parser.arguments] at done ⊢
  split at done
  next => cases done
  next e st₂ h₂ first =>
    split at done
    next st₃ h₃ comma =>
      split at done
      next => cases done
      next st₄ h₄ second =>
        cases done
        have within : tail.length ≤ st₄.size := within
        obtain ⟨⟨st₂', _⟩, first', alike⟩ := alike.expression first (by dsimp only; omega)
        obtain ⟨⟨kind', text', start'⟩, ⟨st₃', _⟩, comma', same, alike⟩ :=
          alike.next comma (by dsimp only; omega)
        obtain rfl : .comma = kind' := same.kind
        obtain ⟨⟨st₄', _⟩, second', alike⟩ := alike.arguments opening' second within
        rw [first']
        dsimp only
        rw [comma']
        dsimp only
        rw [second']
        exact ⟨_, rfl, alike⟩
    next =>
      split at done
      next => cases done
      next st₃ h₃ second =>
        cases done
        have within : tail.length ≤ st₃.size := within
        obtain ⟨⟨st₂', _⟩, first', alike⟩ := alike.expression first (by dsimp only; omega)
        obtain ⟨⟨st₃', _⟩, second', alike⟩ := alike.close opening' second within
        obtain ⟨⟨kind', text', start'⟩, closed', kind⟩ := next_of_close second'
        obtain rfl : kind' = .closeParen := kind
        rw [first']
        dsimp only
        rw [closed']
        dsimp only
        rw [second']
        exact ⟨_, rfl, alike⟩
termination_by 8 * st.size + 5

theorem row {opening : Token} (opening' : Token) {before es : List Expr} {wanted : Bool}
    {st st' : State} {st₁ : { s : State // s.size < st.size + 1 }}
    (alike : st.Alike tail tail' st')
    (done : Parser.row v stop opening before wanted st = .ok (es, st₁))
    (within : tail.length ≤ st₁.1.size) :
    ∃ st₁', Parser.row v stop' opening' before wanted st' = .ok (es, st₁') ∧
      st₁.1.Alike tail tail' st₁'.1 := by
  rw [Parser.row] at done ⊢
  split at done
  next => cases done
  next t st₂ h₂ found =>
    have other : t.kind ≠ .closeParen := by
      intro kind
      rw [kind] at done
      dsimp only at done
      split at done
      next => cases done
      next first =>
        obtain ⟨t', _, visible, other⟩ := exists_next_of_expression first
        rw [found] at visible
        obtain ⟨rfl, -⟩ := Prod.mk.inj (Option.some.inj visible)
        exact other kind
    obtain ⟨u, ⟨st₂', _⟩, found', same, alike₂⟩ := alike.next_of_ne found other
    rw [found']
    dsimp only
    rw [← same.kind]
    split at done
    next =>
      split at done
      next => cases done
      next complete =>
        cases done
        rw [if_neg complete]
        exact ⟨_, rfl, alike₂⟩
    next =>
      split at done
      next => cases done
      next complete =>
        rw [if_neg complete]
        split at done
        next => cases done
        next st₃ h₃ first =>
          cases done
          obtain ⟨⟨st₃', _⟩, first', alike⟩ := alike₂.row opening' first within
          rw [first']
          exact ⟨_, rfl, alike⟩
    next =>
      split at done
      next => cases done
      next e st₃ h₃ first =>
        split at done
        next => cases done
        next st₄ h₄ second =>
          cases done
          have within : tail.length ≤ st₄.size := within
          obtain ⟨⟨st₃', _⟩, first', alike⟩ := alike.expression first (by dsimp only; omega)
          obtain ⟨⟨st₄', _⟩, second', alike⟩ := alike.row opening' second within
          rw [first']
          dsimp only
          rw [second']
          exact ⟨_, rfl, alike⟩
termination_by 8 * st.size + 6

theorem moreRows {spaced : Bool} {before rows : List (List Expr)} {st st' : State}
    {st₁ : { s : State // s.size < st.size + 1 }} (alike : st.Alike tail tail' st')
    (done : Parser.moreRows v stop spaced before st = .ok (rows, st₁))
    (within : tail.length ≤ st₁.1.size) :
    ∃ st₁', Parser.moreRows v stop' spaced before st' = .ok (rows, st₁') ∧
      st₁.1.Alike tail tail' st₁'.1 := by
  rw [Parser.moreRows] at done ⊢
  rw [← alike.adjacent spaced (by decide) (by decide)]
  split at done
  next opens =>
    rw [if_pos opens]
    split at done
    next none =>
      obtain ⟨t, st₂, found⟩ := exists_next_of_adjacent opens (by decide)
      rw [none] at found
      cases found
    next opening st₂ h₂ found =>
      split at done
      next => cases done
      next es st₃ h₃ first =>
        split at done
        next => cases done
        next st₄ h₄ second =>
          cases done
          have within : tail.length ≤ st₄.size := within
          obtain ⟨u, ⟨st₂', _⟩, found', -, alike⟩ := alike.next found (by dsimp only; omega)
          obtain ⟨⟨st₃', _⟩, first', alike⟩ := alike.row u first (by dsimp only; omega)
          obtain ⟨⟨st₄', _⟩, second', alike⟩ := alike.moreRows second within
          rw [found']
          dsimp only
          rw [first']
          dsimp only
          rw [second']
          exact ⟨_, rfl, alike⟩
  next apart =>
    cases done
    rw [if_neg apart]
    exact ⟨_, rfl, alike⟩
termination_by 8 * st.size + 7

end

end State.Alike

end Parser

end Reckon
