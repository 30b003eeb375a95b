import Reckon.Proofs.Expr.Account

/-!
# What a reader takes

A reader takes tokens from the front of what is left. Parentheses come in pairs among them, there is
no equals sign, and the last one ends an operand.

Results: `Parser.takes_expression`.
-/

namespace Reckon

/-- The token can end an operand. -/
def Token.endsOperand (t : Token) : Bool :=
  match t.kind with
  | .number _ | .identifier | .closeParen | .closeBracket => true
  | _ => false

namespace Parser

variable {v : Vocabulary} {stop : Nat}

section Taken

variable {st st₁ st₂ : State} {t : Token} {ts us : List Token}

/-- Every parenthesis has its partner, and there is no equals sign. -/
inductive Paired : List Token → Prop
  | nil : Paired []
  | plain {t : Token} {ts : List Token} (opening : t.kind ≠ .openParen)
      (closing : t.kind ≠ .closeParen) (equals : t.kind ≠ .equals) (rest : Paired ts) :
      Paired (t :: ts)
  | group {opening closing : Token} {inner ts : List Token} (opens : opening.kind = .openParen)
      (closes : closing.kind = .closeParen) (inside : Paired inner) (rest : Paired ts) :
      Paired (opening :: (inner ++ closing :: ts))

theorem Paired.append (first : Paired ts) (second : Paired us) : Paired (ts ++ us) := by
  induction first with
  | nil => exact second
  | plain opening closing equals _ ih => exact .plain opening closing equals ih
  | group opens closes inside _ _ ih =>
    rw [List.cons_append, List.append_assoc, List.cons_append]
    exact .group opens closes inside ih

theorem Paired.noEquals (paired : Paired ts) : NoEquals ts := by
  induction paired with
  | nil => exact fun _ member => absurd member List.not_mem_nil
  | plain _ _ equals _ ih => exact List.forall_mem_cons.2 ⟨equals, ih⟩
  | group opens closes _ _ innerIh ih =>
    refine List.forall_mem_cons.2 ⟨by simp [opens], fun t member => ?_⟩
    rcases List.mem_append.1 member with inside | after
    · exact innerIh t inside
    · rcases List.mem_cons.1 after with rfl | rest
      · simp [closes]
      · exact ih t rest

/-! ## What is taken -/

/-- The tokens in between are paired. -/
def Passes (st st' : State) : Prop :=
  ∃ used, st.rest = used ++ st'.rest ∧ Paired used

/-- The tokens in between are paired, and if there are any the last one ends an operand. -/
def Takes (st st' : State) : Prop :=
  ∃ used, st.rest = used ++ st'.rest ∧ Paired used ∧
    ∀ t ∈ used.getLast?, t.endsOperand = true

/-- The tokens in between close a parenthesis that was open before. -/
def Closes (st st' : State) : Prop :=
  ∃ used closing, st.rest = used ++ closing :: st'.rest ∧ Paired used ∧
    closing.kind = .closeParen

theorem Takes.refl (st : State) : Takes st st :=
  ⟨[], rfl, .nil, fun _ member => absurd member (Option.some_ne_none _).symm⟩

theorem Takes.passes (takes : Takes st st₁) : Passes st st₁ := by
  obtain ⟨used, shape, paired, -⟩ := takes
  exact ⟨used, shape, paired⟩

theorem Passes.closes (passes : Passes st st₁) (closes : Closes st₁ st₂) : Closes st st₂ := by
  obtain ⟨first, shape, paired⟩ := passes
  obtain ⟨second, closing, shape', paired', kind⟩ := closes
  refine ⟨first ++ second, closing, ?_, paired.append paired', kind⟩
  rw [shape, shape', List.append_assoc]

/-- What is passed over may be anything, as long as something is taken after it. -/
theorem Passes.takes (passes : Passes st st₁) (takes : Takes st₁ st₂)
    (fewer : st₂.size < st₁.size) : Takes st st₂ := by
  obtain ⟨first, shape, paired⟩ := passes
  obtain ⟨second, shape', paired', ends⟩ := takes
  refine ⟨first ++ second, by rw [shape, shape', List.append_assoc], paired.append paired', ?_⟩
  have nonempty : second ≠ [] := by
    rintro rfl
    rw [List.nil_append] at shape'
    rw [State.size, State.size, shape'] at fewer
    exact absurd fewer (lt_irrefl _)
  rwa [List.getLast?_append_of_ne_nil _ nonempty]

theorem Takes.trans (first : Takes st st₁) (second : Takes st₁ st₂) : Takes st st₂ := by
  obtain ⟨used, shape, paired, ends⟩ := second
  cases used with
  | nil =>
    rw [List.nil_append] at shape
    obtain ⟨used', shape', rest⟩ := first
    exact ⟨used', by rw [shape', shape], rest⟩
  | cons t used =>
    refine first.passes.takes ⟨t :: used, shape, paired, ends⟩ ?_
    simp only [State.size, shape, List.length_append, List.length_cons]
    omega

/-! ## The next token -/

/-- Blanks in front of the tokens. -/
theorem exists_blanks (ts : List Token) :
    ∃ blanks, ts = blanks ++ skipBlanks ts ∧ ∀ t ∈ blanks, t.isSpace = true := by
  induction ts with
  | nil => exact ⟨[], rfl, by simp⟩
  | cons t ts ih =>
    rw [skipBlanks]
    split
    next space =>
      obtain ⟨blanks, shape, all⟩ := ih
      exact ⟨t :: blanks, congrArg _ shape, List.forall_mem_cons.2 ⟨space, all⟩⟩
    next => exact ⟨[], rfl, by simp⟩

theorem paired_blanks (all : ∀ t ∈ ts, t.isSpace = true) : Paired ts := by
  induction ts with
  | nil => exact .nil
  | cons t ts ih =>
    obtain ⟨space, all⟩ := List.forall_mem_cons.1 all
    have kind : t.kind = .space := eq_of_beq space
    exact .plain (by simp [kind]) (by simp [kind]) (by simp [kind]) (ih all)

/-- The next token and the blanks in front of it. -/
theorem exists_of_next {st' : { s : State // s.size < st.size }} (found : next st = some (t, st')) :
    ∃ blanks, st.rest = blanks ++ t :: st'.1.rest ∧ Paired blanks := by
  obtain ⟨blanks, shape, all⟩ := exists_blanks st.rest
  rw [(shape_of_next found).2] at shape
  exact ⟨blanks, shape, paired_blanks all⟩

theorem passes_next {st' : { s : State // s.size < st.size }} (found : next st = some (t, st'))
    (opening : t.kind ≠ .openParen) (closing : t.kind ≠ .closeParen) (equals : t.kind ≠ .equals) :
    Passes st st'.1 := by
  obtain ⟨blanks, shape, paired⟩ := exists_of_next found
  refine ⟨blanks ++ [t], by rw [shape, List.append_assoc]; rfl, ?_⟩
  exact paired.append (.plain opening closing equals .nil)

/-- A single token that is an operand, or closes a bracket. -/
theorem takes_next {st' : { s : State // s.size < st.size }} (found : next st = some (t, st'))
    (opening : t.kind ≠ .openParen) (closing : t.kind ≠ .closeParen) (equals : t.kind ≠ .equals)
    (ends : t.endsOperand = true) : Takes st st'.1 := by
  obtain ⟨blanks, shape, paired⟩ := exists_of_next found
  refine ⟨blanks ++ [t], by rw [shape, List.append_assoc]; rfl,
    paired.append (.plain opening closing equals .nil), ?_⟩
  rw [List.getLast?_concat]
  rintro u ⟨⟩
  exact ends

theorem closes_next {st' : { s : State // s.size < st.size }} (found : next st = some (t, st'))
    (kind : t.kind = .closeParen) : Closes st st'.1 := by
  obtain ⟨blanks, shape, paired⟩ := exists_of_next found
  exact ⟨blanks, t, shape, paired, kind⟩

/-- An opening parenthesis and everything up to its partner. -/
theorem Closes.takes {st' : { s : State // s.size < st.size }} (found : next st = some (t, st'))
    (opens : t.kind = .openParen) (closes : Closes st'.1 st₂) : Takes st st₂ := by
  obtain ⟨blanks, shape, paired⟩ := exists_of_next found
  obtain ⟨inner, closing, shape', paired', kind⟩ := closes
  have group : Paired (t :: (inner ++ [closing])) := .group opens kind paired' .nil
  refine ⟨blanks ++ t :: (inner ++ [closing]), ?_, paired.append group, ?_⟩
  · rw [shape, shape']
    simp
  · rw [← List.cons_append, ← List.append_assoc, List.getLast?_concat]
    rintro u ⟨⟩
    rw [Token.endsOperand, kind]

theorem closes_close {opening : Token} {st' : { s : State // s.size < st.size }}
    (done : close opening st = .ok ((), st')) : Closes st st'.1 := by
  unfold close at done
  split at done
  next => cases done
  next found =>
    split at done
    next closes =>
      cases done
      exact closes_next found (eq_of_beq closes)
    next => cases done

end Taken

/-! ## The readers -/

-- by recursion on what is left to read, as the readers themselves
mutual

theorem takes_expression {spaced : Bool} {least : Binding} {st : State} {e : Expr}
    {st' : { s : State // s.size < st.size }}
    (done : expression v stop spaced least st = .ok (e, st')) : Takes st st'.1 := by
  rw [expression] at done
  split at done
  next => cases done
  next first =>
    split at done
    next => cases done
    next second =>
      cases done
      exact (takes_operand first).trans (takes_chain second)
termination_by 8 * st.size + 4

theorem takes_chain {spaced : Bool} {least : Binding} {left e : Expr} {st : State}
    {st' : { s : State // s.size < st.size + 1 }}
    (done : chain v stop spaced least left st = .ok (e, st')) : Takes st st'.1 := by
  rw [chain] at done
  split at done
  next => cases done
  next =>
    cases done
    exact .refl st
  next =>
    split at done
    next =>
      cases done
      exact .refl st
    next =>
      split at done
      next => cases done
      next st₁ h₁ first =>
        split at done
        next => cases done
        next second =>
          cases done
          exact (takes_expression first).trans (takes_chain second)
  next op ahead =>
    split at done
    next =>
      cases done
      exact .refl st
    next =>
      split at done
      next =>
        cases done
        exact .refl st
      next t st₀ h₀ found =>
        split at done
        next => cases done
        next st₁ h₁ first =>
          split at done
          next => cases done
          next second =>
            cases done
            have kind := kind_of_upcoming ahead found
            have operator : Passes st st₀ :=
              passes_next found (by simp [kind]) (by simp [kind]) (by simp [kind])
            exact (operator.takes (takes_expression first) h₁).trans (takes_chain second)
termination_by 8 * st.size + 5

theorem takes_operand {spaced : Bool} {st : State} {e : Expr}
    {st' : { s : State // s.size < st.size }}
    (done : operand v stop spaced st = .ok (e, st')) : Takes st st'.1 := by
  rw [operand] at done
  split at done
  next => cases done
  next t st₁ h₁ found =>
    split at done
    next sign isSign =>
      split at done
      next => cases done
      next h₂ first =>
        cases done
        obtain ⟨op, kind⟩ := kind_of_sign isSign
        have signed : Passes st st₁ :=
          passes_next found (by simp [kind]) (by simp [kind]) (by simp [kind])
        exact signed.takes (takes_expression first) h₂
    next => exact takes_primary found done
termination_by 8 * st.size + 3

theorem takes_primary {spaced : Bool} {t : Token} {st₀ st : State} {h : st.size < st₀.size}
    {e : Expr}
    {st' : { s : State // s.size < st₀.size }} (found : next st₀ = some (t, ⟨st, h⟩))
    (done : primary v stop spaced t st₀ st h = .ok (e, st')) : Takes st₀ st'.1 := by
  rw [primary] at done
  split at done
  next kind =>
    cases done
    exact takes_next found (by simp [kind]) (by simp [kind]) (by simp [kind])
      (by rw [Token.endsOperand, kind])
  next kind => exact takes_identifier found kind done
  next kind =>
    split at done
    next => cases done
    next first =>
      split at done
      next => cases done
      next second =>
        cases done
        exact ((takes_expression first).passes.closes (closes_close second)).takes found kind
  next kind =>
    have opened : Passes st₀ st :=
      passes_next found (by simp [kind]) (by simp [kind]) (by simp [kind])
    split at done
    next => cases done
    next st₁ h₁ first =>
      split at done
      next => cases done
      next second =>
        split at done
        next => cases done
        next =>
          cases done
          obtain ⟨takes, fewer⟩ := takes_row first
          exact (opened.takes takes fewer).trans (takes_moreRows second)
  next => cases done
termination_by 8 * st₀.size + 2

theorem takes_identifier {spaced : Bool} {t : Token} {st₀ st : State} {h : st.size < st₀.size}
    {e : Expr}
    {st' : { s : State // s.size < st₀.size }} (found : next st₀ = some (t, ⟨st, h⟩))
    (kind : t.kind = .identifier) (done : identifier v stop spaced t st₀ st h = .ok (e, st')) :
    Takes st₀ st'.1 := by
  have word : Takes st₀ st :=
    takes_next found (by simp [kind]) (by simp [kind]) (by simp [kind])
      (by rw [Token.endsOperand, kind])
  rw [identifier] at done
  split at done
  next opens =>
    split at done
    next =>
      split at done
      next => cases done
      next first =>
        cases done
        exact word.trans (takes_call opens first)
    next =>
      split at done
      next =>
        split at done
        next => cases done
        next first =>
          cases done
          exact word.trans (takes_call opens first)
      next =>
        split at done
        next =>
          cases done
          exact word
        next =>
          split at done
          next => cases done
          next first =>
            cases done
            exact word.trans (takes_call opens first)
  next =>
    split at done
    next => cases done
    next =>
      cases done
      exact word
termination_by 8 * st₀.size + 1

theorem takes_call {name : String} {spaced : Bool} {st : State} {e : Expr}
    {st' : { s : State // s.size < st.size }}
    (opens : (adjacent spaced st).any (·.kind == .openParen) = true)
    (done : call v stop name st = .ok (e, st')) : Takes st st'.1 := by
  rw [call] at done
  split at done
  next => cases done
  next opening st₁ h₁ found =>
    have kind := kind_of_adjacent opens found (by decide)
    split at done
    next closed =>
      cases done
      exact (closes_next closed rfl).takes found kind
    next =>
      split at done
      next => cases done
      next first =>
        cases done
        exact (closes_arguments first).takes found kind
termination_by 8 * st.size

theorem closes_arguments {opening : Token} {before args : List Expr} {st : State}
    {st' : { s : State // s.size < st.size }}
    (done : arguments v stop opening before st = .ok (args, st')) : Closes st st'.1 := by
  rw [arguments] at done
  split at done
  next => cases done
  next st₁ h₁ first =>
    have argument := (takes_expression first).passes
    split at done
    next comma =>
      split at done
      next => cases done
      next second =>
        cases done
        have separator : Passes st₁ _ :=
          passes_next comma (by simp) (by simp) (by simp)
        exact argument.closes (separator.closes (closes_arguments second))
    next =>
      split at done
      next => cases done
      next second =>
        cases done
        exact argument.closes (closes_close second)
termination_by 8 * st.size + 5

theorem takes_row {opening : Token} {before es : List Expr} {wanted : Bool} {st : State}
    {st' : { s : State // s.size < st.size + 1 }}
    (done : row v stop opening before wanted st = .ok (es, st')) :
    Takes st st'.1 ∧ st'.1.size < st.size := by
  rw [row] at done
  split at done
  next => cases done
  next t st₁ h₁ found =>
    split at done
    next kind =>
      split at done
      next => cases done
      next =>
        cases done
        exact ⟨takes_next found (by simp [kind]) (by simp [kind]) (by simp [kind])
          (by rw [Token.endsOperand, kind]), h₁⟩
    next kind =>
      split at done
      next => cases done
      next =>
        split at done
        next => cases done
        next first =>
          cases done
          have separator : Passes st st₁ :=
            passes_next found (by simp [kind]) (by simp [kind]) (by simp [kind])
          obtain ⟨takes, fewer⟩ := takes_row first
          exact ⟨separator.takes takes fewer, fewer.trans h₁⟩
    next =>
      split at done
      next => cases done
      next e st₂ h₂ first =>
        split at done
        next => cases done
        next second =>
          cases done
          obtain ⟨takes, fewer⟩ := takes_row second
          exact ⟨(takes_expression first).trans takes, fewer.trans h₂⟩
termination_by 8 * st.size + 6

theorem takes_moreRows {spaced : Bool} {before rows : List (List Expr)} {st : State}
    {st' : { s : State // s.size < st.size + 1 }}
    (done : moreRows v stop spaced before st = .ok (rows, st')) : Takes st st'.1 := by
  rw [moreRows] at done
  split at done
  next opens =>
    split at done
    next =>
      cases done
      exact .refl st
    next opening st₁ h₁ found =>
      split at done
      next => cases done
      next first =>
        split at done
        next => cases done
        next second =>
          cases done
          have kind := kind_of_adjacent opens found (by decide)
          have opened : Passes st st₁ :=
            passes_next found (by simp [kind]) (by simp [kind]) (by simp [kind])
          obtain ⟨takes, fewer⟩ := takes_row first
          exact (opened.takes takes fewer).trans (takes_moreRows second)
  next =>
    cases done
    exact .refl st
termination_by 8 * st.size + 7

end

end Parser

end Reckon
