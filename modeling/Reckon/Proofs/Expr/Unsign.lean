import Reckon.Proofs.Expr.Meaning
import Reckon.Proofs.Expr.Unwrap

/-!
# Reading a text without its sign

A minus in front of a text takes powers with it, and the factors that follow without an operator
are multiplied to it. Where no other operator stands outside of parentheses, the text without the
minus is read as a tree of the opposite value.

Results: `parse_unsigned`.
-/

namespace Reckon

/-- The trees denote opposite values, whatever the other operations mean. -/
def Expr.Opposite (e e' : Expr) : Prop :=
  ∀ {K : Type} [Ring K] [Algebra ℚ K] (I : Interpretation K) (ρ : String → K),
    e.value I ρ = -e'.value I ρ

namespace Expr

theorem opposite_unary (e : Expr) : (unary .negative e).Opposite e := by
  intro K _ _ I ρ
  rw [value, signed]

theorem Opposite.times {l l' : Expr} (opposite : l.Opposite l') (attached : Bool) (r : Expr) :
    (binary .times attached l r).Opposite (binary .times attached l' r) := by
  intro K _ _ I ρ
  rw [value, value, Interpretation.apply, Interpretation.apply, opposite, neg_mul]

end Expr

/-! ## Chains -/

namespace Parser

variable {v : Vocabulary} {stop : Nat} {least : Binding} {left e : Expr} {st st' st₁ : State}

/-- A chain is at its end, or it goes on with a factor, or with an operator. -/
theorem chain_cases {spaced : Bool} (done : Reads (chain v stop spaced least left st) e st') :
    (e = left ∧ st' = st ∧ Loose spaced least st) ∨
    (∃ op right st₁, upcoming spaced st = .ok (some (op, true)) ∧ least ≤ op.binding ∧
      Reads (expression v stop spaced (rightBinding op) st) right st₁ ∧
      Reads (chain v stop spaced least (.binary op true left right) st₁) e st') ∨
    (∃ op t ts right st₁, upcoming spaced st = .ok (some (op, false)) ∧ least ≤ op.binding ∧
      skipBlanks st.rest = t :: ts ∧ t.kind = .operator op ∧
      Reads (expression v stop spaced (rightBinding op) ⟨some t, ts⟩) right st₁ ∧
      Reads (chain v stop spaced least (.binary op false left right) st₁) e st') := by
  obtain ⟨fewer, done⟩ := done
  rw [chain] at done
  split at done
  next => cases done
  next ahead =>
    cases done
    exact .inl ⟨rfl, rfl, none, ahead, fun _ member => absurd member (Option.some_ne_none _).symm⟩
  next op ahead =>
    split at done
    next below =>
      cases done
      refine .inl ⟨rfl, rfl, _, ahead, ?_⟩
      rintro _ ⟨⟩
      exact below
    next tight =>
      split at done
      next => cases done
      next right st₁ h₁ first =>
        split at done
        next => cases done
        next h₂ second =>
          cases done
          exact .inr (.inl ⟨op, right, st₁, ahead, Nat.not_lt.1 tight, ⟨h₁, first⟩, h₂, second⟩)
  next op ahead =>
    split at done
    next below =>
      cases done
      refine .inl ⟨rfl, rfl, _, ahead, ?_⟩
      rintro _ ⟨⟩
      exact below
    next tight =>
      split at done
      next none =>
        rw [upcoming_of_next none] at ahead
        cases ahead
      next t st₀ h₀ found =>
        split at done
        next => cases done
        next right st₁ h₁ first =>
          split at done
          next => cases done
          next h₂ second =>
            cases done
            obtain ⟨last, shape⟩ := shape_of_next found
            obtain ⟨_, ts⟩ := st₀
            obtain rfl : _ = some t := last
            exact .inr (.inr ⟨op, t, ts, right, st₁, ahead, Nat.not_lt.1 tight, shape,
              kind_of_upcoming ahead found, ⟨h₁, first⟩, h₂, second⟩)

/-- The operator that is not written is that of products. -/
theorem eq_times_of_upcoming {spaced : Bool} {op : Operator}
    (ahead : upcoming spaced st = .ok (some (op, true))) : op = .times := by
  unfold upcoming at ahead
  split at ahead
  next => cases ahead
  next =>
    dsimp only at ahead
    split at ahead
    next => split at ahead <;> cases ahead
    next =>
      split at ahead
      next => cases ahead
      next =>
        split at ahead <;> cases ahead
        rfl

theorem size_lt_of_skipBlanks {t : Token} {ts : List Token} (shape : skipBlanks st.rest = t :: ts) :
    State.size ⟨some t, ts⟩ < st.size :=
  length_lt_of_skipBlanks shape

/-- Where a chain ends, nothing goes on with it. -/
theorem loose_of_chain {left e : Expr} {st st' : State}
    (done : Reads (chain v stop false least left st) e st') : Loose false least st' := by
  rcases chain_cases done with ⟨-, rfl, loose⟩ | ⟨op, right, st₁, -, -, ⟨fewer, -⟩, second⟩ |
    ⟨op, t, ts, right, st₁, -, -, shape, -, ⟨fewer, -⟩, second⟩
  · exact loose
  · exact loose_of_chain second
  · have fewer := fewer.trans (size_lt_of_skipBlanks shape)
    exact loose_of_chain second
termination_by st.size

theorem loose_of_expression (done : Reads (expression v stop false least st) e st') :
    Loose false least st' := by
  obtain ⟨left, st₁, -, second⟩ := exists_of_reads_expression done
  exact loose_of_chain second

/-- A chain that goes on with looser operators where a tighter one ends. -/
theorem reads_chain_lower {least' : Binding} {left e e' : Expr} {st st' st₁ : State}
    (lower : least' ≤ least) (first : Reads (chain v stop false least left st) e st₁)
    (second : Reads (chain v stop false least' e st₁) e' st') :
    Reads (chain v stop false least' left st) e' st' := by
  rcases chain_cases first with ⟨rfl, rfl, -⟩ | ⟨op, right, st₂, ahead, tight, read, rest⟩ |
    ⟨op, t, ts, right, st₂, ahead, tight, shape, -, read, rest⟩
  · exact second
  · have fewer := read.1
    exact reads_chain_attached ahead (lower.trans tight) read (reads_chain_lower lower rest second)
  · have fewer := read.1.trans (size_lt_of_skipBlanks shape)
    exact reads_chain_operator ahead (lower.trans tight) shape read
      (reads_chain_lower lower rest second)
termination_by st.size

end Parser

/-! ## Texts that bind tightly -/

/-- A bound on the whole is a bound on what follows a balanced beginning. -/
theorem Balanced.le_loosenessFrom {cs rest : List Char} (balanced : Balanced cs)
    {previous : Option Char} {bound : Binding}
    (le : bound ≤ loosenessFrom 0 previous (cs ++ rest)) :
    bound ≤ loosenessFrom 0 (lastOf previous cs) rest := by
  rw [balanced.loosenessFrom_zero] at le
  exact le.trans (min_le_right _ _)

theorem Token.exists_lastOf {ts : List Token} (nonempty : ts ≠ []) (spelled : ∀ t ∈ ts, t.Spelled)
    (ends : ∀ t ∈ ts.getLast?, (∀ op, t.kind ≠ .operator op) ∧ t.kind ≠ .equals)
    (previous : Option Char) :
    ∃ p, lastOf previous (Token.texts ts) = some p ∧ isOperatorChar p = false := by
  obtain ⟨ts, t, rfl⟩ := (List.eq_nil_or_concat ts).resolve_left nonempty
  rw [List.concat_eq_append] at *
  obtain ⟨operand, notEquals⟩ := ends t (by simp)
  have here := spelled t (by simp)
  rw [Token.texts_append, lastOf_append, Token.texts_cons]
  obtain ⟨p, last, apart⟩ := Form.exists_lastOf (p := fun c => !isOperatorChar c) here.nonempty
    (fun c member => by rw [here.apart operand notEquals c member]; rfl)
    (lastOf previous (Token.texts ts))
  refine ⟨p, ?_, by simpa using apart⟩
  rw [show Token.texts [] = [] from rfl, List.append_nil]
  exact last

namespace Parser

/-- What is left goes on after an operand, and as a text it is as tight as `bound`. -/
structure State.Tight (bound : Binding) (st : State) : Prop where
  spelled : ∀ t ∈ st.rest, t.Spelled
  tight : ∃ p, isOperatorChar p = false ∧ bound ≤ loosenessFrom 0 (some p) (Token.texts st.rest)

variable {v : Vocabulary} {stop : Nat} {bound : Binding} {st st₁ : State}

theorem exists_lastOf_taken {used : List Token} (nonempty : used ≠ [])
    (spelled : ∀ t ∈ used, t.Spelled) (ends : ∀ t ∈ used.getLast?, t.endsOperand = true)
    (previous : Option Char) :
    ∃ p, lastOf previous (Token.texts used) = some p ∧ isOperatorChar p = false := by
  refine Token.exists_lastOf nonempty spelled (fun t member => ?_) previous
  have ends := ends t member
  unfold Token.endsOperand at ends
  constructor
  · intro op kind
    rw [kind] at ends
    cases ends
  · intro kind
    rw [kind] at ends
    cases ends

theorem State.Tight.takes (tight : st.Tight bound) (takes : Takes st st₁) : st₁.Tight bound := by
  obtain ⟨spelled, p, operand, le⟩ := tight
  obtain ⟨used, shape, paired, ends⟩ := takes
  rw [shape] at spelled le
  obtain ⟨spelled₁, spelled₂⟩ := List.forall_mem_append.1 spelled
  rw [Token.texts_append] at le
  have le := (paired.balanced spelled₁).le_loosenessFrom le
  refine ⟨spelled₂, ?_⟩
  cases used with
  | nil => exact ⟨p, operand, le⟩
  | cons t ts =>
    obtain ⟨q, last, operand⟩ := exists_lastOf_taken (List.cons_ne_nil t ts) spelled₁ ends (some p)
    rw [last] at le
    exact ⟨q, operand, le⟩

/-- An operator that comes next is as tight as the text. -/
theorem State.Tight.le_binding (tight : st.Tight bound) {t : Token} {ts : List Token}
    {op : Operator} (shape : skipBlanks st.rest = t :: ts) (kind : t.kind = .operator op) :
    bound ≤ op.binding := by
  obtain ⟨spelled, p, operand, le⟩ := tight
  obtain ⟨blanks, front, all⟩ := exists_blanks st.rest
  rw [front, shape] at spelled le
  obtain ⟨spelled₁, spelled₂⟩ := List.forall_mem_append.1 spelled
  rw [Token.texts_append, Token.texts_cons, (spelled₂ t (.head _)).symbol op kind] at le
  have le := ((paired_blanks all).balanced spelled₁).le_loosenessFrom le
  have after : ∃ q, lastOf (some p) (Token.texts blanks) = some q ∧ isOperatorChar q = false := by
    cases blanks with
    | nil => exact ⟨p, rfl, operand⟩
    | cons b bs =>
      refine Token.exists_lastOf (List.cons_ne_nil b bs) spelled₁ (fun t member => ?_) (some p)
      have space : t.kind = .space := eq_of_beq (all t (List.mem_of_mem_getLast? member))
      simp [space]
  obtain ⟨q, last, operand⟩ := after
  rw [last, loosenessFrom_symbol op operand] at le
  exact le.trans (min_le_left _ _)

/-! ## Taking the sign away -/

/-- What follows a minus is the operand of the sign. -/
theorem exists_of_reads_minus {t : Token} {ts : List Token} {e : Expr}
    (kind : t.kind = .operator .minus) (done : Reads (operand v stop false ⟨none, t :: ts⟩) e st₁) :
    ∃ e₁, e = .unary .negative e₁ ∧
      Reads (expression v stop false Binding.unary ⟨some t, ts⟩) e₁ st₁ := by
  obtain ⟨fewer, done⟩ := done
  have visible : t.isSpace = false := by
    rw [Token.isSpace, kind]
    rfl
  have shape : skipBlanks (State.mk none (t :: ts)).rest = t :: ts := skipBlanks_cons ts visible
  obtain ⟨_, found⟩ := exists_next shape
  have isSign : signOf? t = some .negative := by rw [signOf?, kind]
  rw [operand, found] at done
  dsimp only at done
  rw [isSign] at done
  dsimp only at done
  split at done
  next => cases done
  next e₁ _ fewer read =>
    cases done
    exact ⟨e₁, rfl, fewer, read⟩

theorem State.Alike.next_eq_none {st' : State} (alike : st.Alike [] [] st')
    (last : Parser.next st = none) : Parser.next st' = none := by
  rcases alike.next_or_ended with ⟨t, u, ts, us, first, -⟩ | ⟨-, second⟩
  · rw [skipBlanks_of_next last] at first
    cases first
  · exact Parser.next_eq_none second

/-- The same tokens are read as the same tree, up to the end of the text. -/
theorem State.Alike.exists_reads {least : Binding} {e : Expr} {st st₁ st' : State} (stop' : Nat)
    (alike : st.Alike [] [] st') (done : Reads (Parser.expression v stop false least st) e st₁) :
    ∃ st₁', Reads (Parser.expression v stop' false least st') e st₁' ∧ st₁.Alike [] [] st₁' := by
  obtain ⟨⟨st₁', fewer⟩, read, alike⟩ := alike.expression done.2 (Nat.zero_le _)
  exact ⟨st₁', ⟨fewer, read⟩, alike⟩

/-- After an operand whose sign has been taken away, the same factors follow. -/
theorem exists_opposite (stop' : Nat) {left left' e : Expr} {st st₁ st' : State}
    (opposite : left.Opposite left') (loose : Loose false Binding.unary st)
    (tight : st.Tight Binding.unary) (alike : st.Alike [] [] st')
    (done : Reads (chain v stop false 0 left st) e st₁) :
    ∃ e' st₁', Reads (chain v stop' false 0 left' st') e' st₁' ∧ e.Opposite e' ∧
      st₁.Alike [] [] st₁' := by
  rcases chain_cases done with ⟨rfl, rfl, loose'⟩ | ⟨op, right, st₂, ahead, -, read, rest⟩ |
    ⟨op, t, ts, right, st₂, ahead, -, shape, kind, -, -⟩
  · obtain ⟨found, ahead, below⟩ := loose'
    exact ⟨left', st', reads_chain_nil v stop' left' ⟨found, alike.upcoming ahead, below⟩, opposite,
      alike⟩
  · obtain rfl := eq_times_of_upcoming ahead
    have loose := loose_of_expression read
    obtain ⟨st₂', read', alike₂⟩ := alike.exists_reads stop' read
    obtain ⟨fewer, read⟩ := read
    obtain ⟨e', st₁', rest', opposite, alike₁⟩ := exists_opposite stop' (opposite.times true right)
      loose (tight.takes (takes_expression read)) alike₂ rest
    exact ⟨e', st₁', reads_chain_attached (alike.upcoming ahead) (Nat.zero_le _) read' rest',
      opposite, alike₁⟩
  · -- no other operator stands outside of parentheses
    obtain ⟨found, ahead', below⟩ := loose
    rw [ahead] at ahead'
    cases ahead'
    exact absurd (tight.le_binding shape kind) (Nat.not_le.2 (below _ rfl))
termination_by st.size

end Parser

/-! ## Whole texts -/

open Reckon.Parser

/-- A minus in front of a text is a token of its own. -/
theorem scans_minus (start : Nat) (rest : List Char) :
    Scans start ['-'] [⟨.operator .minus, "-", start⟩] rest := by
  refine @scans_lexeme start ['-'] rest (.operator .minus) (by simp) ?_
  obtain ⟨blank, -, point, letter⟩ := isMark_classes (by decide : isMark '-' = true)
  have found : matchOperator? ('-' :: rest) = some .minus := by
    simp [matchOperator?, Operator.longestFirst, Operator.symbol, List.isPrefixOf]
  simp only [List.cons_append, List.nil_append, lexeme?, blank,
    startsNumber_eq_false rest (by decide : Char.isDigit '-' = false) point, letter,
    Bool.false_eq_true, if_false, found]
  rfl

/-- Behind the sign of a text and its operand, what is left is as tight as the text. -/
theorem tight_of_signed {cs : List Char} {v : Vocabulary} {stop : Nat} {minus : Token}
    {ts : List Token} {e : Expr} {st : State} (texts : Token.texts ts = cs)
    (spelled : ∀ t ∈ ts, t.Spelled)
    (tight : Binding.unary ≤ looseness (String.ofList ('-' :: cs)))
    (read : Reads (expression v stop false Binding.unary ⟨some minus, ts⟩) e st) :
    st.Tight Binding.unary := by
  obtain ⟨fewer, read⟩ := read
  obtain ⟨used, shape, paired, ends⟩ := takes_expression read
  have shape : ts = used ++ st.rest := shape
  have nonempty : used ≠ [] := by
    rintro rfl
    rw [List.nil_append] at shape
    rw [State.size, State.size, shape] at fewer
    exact absurd fewer (lt_irrefl _)
  rw [shape] at spelled
  obtain ⟨spelled₁, spelled₂⟩ := List.forall_mem_append.1 spelled
  obtain ⟨p, last, operand⟩ := exists_lastOf_taken nonempty spelled₁ ends (some '-')
  rw [looseness, String.toList_ofList, ← texts, shape, Token.texts_append, ← List.cons_append]
    at tight
  have signed : Balanced ('-' :: Token.texts used) :=
    .plain (by decide) (by decide) (paired.balanced spelled₁)
  have le := signed.le_loosenessFrom tight
  rw [lastOf, last] at le
  exact ⟨spelled₂, p, operand, le⟩

/-- The tokens of a text with a sign, and those of the text alone. -/
theorem exists_of_scan_signed {cs : List Char} {tokens : List Token}
    (scanned : scan (String.ofList ('-' :: cs)) = .ok tokens) :
    ∃ ts us, tokens = ⟨.operator .minus, "-", 0⟩ :: ts ∧ (∀ t ∈ ts, t.Spelled) ∧
      Token.texts ts = cs ∧ scan (String.ofList cs) = .ok us ∧ List.Forall₂ Token.Same ts us := by
  have signed := scans_minus 0 cs
  rw [Scans, List.singleton_append] at signed
  rw [scan, String.toList_ofList, signed] at scanned
  cases rest : scanFrom (0 + ['-'].length) cs with
  | error fault =>
    rw [rest] at scanned
    cases scanned
  | ok ts =>
    rw [rest] at scanned
    cases scanned
    obtain ⟨us, alone, same⟩ := scanFrom_same rest 0
    exact ⟨ts, us, rfl, spelled_scanFrom rest, texts_scanFrom rest,
      by rw [scan, String.toList_ofList, alone], same⟩

/-- Where no operator looser than a sign stands outside of parentheses, a text is read without its
sign as a tree of the opposite value. -/
theorem parse_unsigned {v : Vocabulary} {cs : List Char} {e : Expr}
    (tight : Binding.unary ≤ looseness (String.ofList ('-' :: cs)))
    (done : parse v (String.ofList ('-' :: cs)) = .ok e) :
    ∃ e', parse v (String.ofList cs) = .ok e' ∧ e.Opposite e' := by
  obtain ⟨tokens, scanned, read⟩ := exists_of_parse done
  obtain ⟨ts, us, rfl, spelled, texts, alone, same⟩ := exists_of_scan_signed scanned
  rcases read with ⟨-, blank⟩ | ⟨_, _, _, _, _, _, -, head, -⟩ | ⟨-, -, st, read, last⟩
  · cases blank
  · -- a definition begins with a name
    cases head
  · obtain ⟨left, st₁, first, second⟩ := exists_of_reads_expression ⟨st.2, read⟩
    obtain ⟨e₁, rfl, signed⟩ := exists_of_reads_minus rfl first
    have alike : State.Alike [] [] ⟨some ⟨.operator .minus, "-", 0⟩, ts⟩ ⟨none, us⟩ :=
      ⟨fun _ member => absurd member (Option.some_ne_none _).symm,
        fun _ member => absurd member (Option.some_ne_none _).symm,
        ⟨ts, us, (List.append_nil ts).symm, (List.append_nil us).symm, same⟩, rfl⟩
    obtain ⟨st₁', signed', alike₁⟩ := alike.exists_reads (String.ofList cs).length signed
    obtain ⟨e', st', second', opposite, alike'⟩ := exists_opposite (String.ofList cs).length
      (Expr.opposite_unary e₁) (loose_of_expression signed)
      (tight_of_signed texts spelled tight signed) alike₁ second
    obtain ⟨left', st₀, first', rest⟩ := exists_of_reads_expression signed'
    have whole := reads_expression first' (reads_chain_lower (Nat.zero_le _) rest second')
    exact ⟨e', parse_of_reads alone whole (alike'.next_eq_none last), opposite⟩

end Reckon
