import Reckon.Proofs.Expr.Head
import Reckon.Proofs.Form.Scan

/-!
# Reading the tokens of a form

The tokens of a readable form are read as the tree `Form.read`. The induction is over the form, with
what follows it left open: after the form, the reader stands where `chain` would with this tree as
the left operand, provided that nothing that follows binds more tightly than `Form.tail`.

Results: `Form.reads_expression`, `Form.parse_read`, `Form.parse_chars`.
-/

namespace Reckon

open Reckon.Parser

/-! ## The first and the last token -/

/-- The token can be the first one of a form that begins like this. -/
def Edge.Opens : Edge → Token → Prop
  | .number, t => t.isNumber = true
  | .name, t => t.kind = .identifier
  | .paren, t => t.kind = .openParen
  | .sign, t => ∃ sign, signOf? t = some sign

theorem Edge.Opens.isSpace {edge : Edge} {t : Token} (opens : edge.Opens t) :
    t.isSpace = false := by
  obtain ⟨kind, text, start⟩ := t
  cases edge <;> cases kind <;> simp_all [Opens, Token.isSpace, Token.isNumber, signOf?]

theorem Edge.Opens.ne_closeParen {edge : Edge} {t : Token} (opens : edge.Opens t) :
    t.kind ≠ .closeParen := by
  obtain ⟨kind, text, start⟩ := t
  cases edge <;> cases kind <;> simp_all [Opens, Token.isNumber, signOf?]

theorem skipBlanks_cons {t : Token} (ts : List Token) (visible : t.isSpace = false) :
    skipBlanks (t :: ts) = t :: ts := by
  rw [skipBlanks, visible]
  rfl

/-- The token ends an expression. -/
def Closing (t : Token) : Prop :=
  t.kind = .closeParen ∨ t.kind = .comma ∨ t.kind = .closeBracket

theorem Closing.isSpace {t : Token} (closing : Closing t) : t.isSpace = false := by
  rcases closing with kind | kind | kind <;> simp [Token.isSpace, kind]

theorem Closing.ne_openParen {t : Token} (closing : Closing t) : t.kind ≠ .openParen := by
  rcases closing with kind | kind | kind <;> simp [kind]

theorem loose_of_closing {spaced : Bool} {t : Token} (bound : Binding) (last : Option Token)
    (ts : List Token) (closing : Closing t) : Loose spaced bound ⟨last, t :: ts⟩ := by
  refine ⟨none, ?_, by simp⟩
  rw [upcoming, skipBlanks_cons ts closing.isSpace]
  rcases closing with kind | kind | kind <;> simp [kind, Token.startsOperand]

theorem upcoming_operator {spaced : Bool} {op : Operator} (last : Option Token) {t : Token}
    (ts : List Token) (kind : t.kind = .operator op) :
    upcoming spaced ⟨last, t :: ts⟩ = .ok (some (op, false)) := by
  have visible : t.isSpace = false := by simp [Token.isSpace, kind]
  rw [upcoming, skipBlanks_cons ts visible]
  simp [kind, visible]

/-- What begins like this goes on with an expression as a factor. -/
theorem upcoming_attached (spaced : Bool) {left right : Edge} {last t : Token} (ts : List Token)
    (adjoins : left.adjoins right = true) (isNumber : last.isNumber = (left == .number))
    (opens : right.Opens t) :
    upcoming spaced ⟨some last, t :: ts⟩ = .ok (some (.times, true)) := by
  have beside : (spaced && (t :: ts).head?.any Token.isSpace) = false := by
    simp [opens.isSpace]
  rw [upcoming, skipBlanks_cons ts opens.isSpace]
  simp only [beside]
  obtain ⟨kind, text, start⟩ := t
  cases right with
  | sign => cases left <;> cases adjoins
  | number =>
    cases kind with
    | number n =>
      have apart : (left == .number) = false := by cases left <;> first | rfl | cases adjoins
      simp [Token.startsOperand, isNumber, apart]
    | _ => cases opens
  | name =>
    cases opens
    simp [Token.startsOperand, Token.isNumber]
  | paren =>
    cases opens
    simp [Token.startsOperand, Token.isNumber]

namespace Form

variable {v : Vocabulary} {stop : Nat} {spaced : Bool}

theorem exists_tokens : ∀ (f : Form) (start : Nat),
    ∃ t ts, f.tokens start = t :: ts ∧ f.first.Opens t
  | .number .., _ => ⟨_, _, rfl, rfl⟩
  | .word _, _ => ⟨_, _, rfl, rfl⟩
  | .signed .positive _, _ => ⟨_, _, rfl, _, rfl⟩
  | .signed .negative _, _ => ⟨_, _, rfl, _, rfl⟩
  | .binary _ true l _, start => by
    obtain ⟨t, ts, shape, opens⟩ := exists_tokens l start
    exact ⟨t, _, by rw [tokens, shape, List.cons_append], opens⟩
  | .binary _ false l _, start => by
    obtain ⟨t, ts, shape, opens⟩ := exists_tokens l start
    exact ⟨t, _, by rw [tokens, shape, List.cons_append], opens⟩
  | .call .., _ => ⟨_, _, rfl, rfl⟩
  | .paren _, _ => ⟨_, _, rfl, rfl⟩

theorem skipBlanks_tokens (f : Form) (start : Nat) (rest : List Token) :
    skipBlanks (f.tokens start ++ rest) = f.tokens start ++ rest := by
  obtain ⟨t, ts, shape, opens⟩ := f.exists_tokens start
  rw [shape, List.cons_append, skipBlanks_cons _ opens.isSpace]

theorem tokensOf_cons_cons (f g : Form) (fs : List Form) (start : Nat) :
    tokensOf start (f :: g :: fs) =
      f.tokens start ++ ⟨.comma, ",", start + f.chars.length⟩ ::
        ⟨.space, " ", start + f.chars.length + 1⟩ ::
          tokensOf (start + f.chars.length + 2) (g :: fs) :=
  rfl

theorem exists_tokensOf (f : Form) (fs : List Form) (start : Nat) :
    ∃ t ts, tokensOf start (f :: fs) = t :: ts ∧ f.first.Opens t := by
  obtain ⟨t, ts, shape, opens⟩ := f.exists_tokens start
  cases fs with
  | nil => exact ⟨t, ts, shape, opens⟩
  | cons g fs => exact ⟨t, _, by rw [tokensOf_cons_cons, shape, List.cons_append], opens⟩

theorem skipBlanks_tokensOf (f : Form) (fs : List Form) (start : Nat) (rest : List Token) :
    skipBlanks (tokensOf start (f :: fs) ++ rest) = tokensOf start (f :: fs) ++ rest := by
  obtain ⟨t, ts, shape, opens⟩ := exists_tokensOf f fs start
  rw [shape, List.cons_append, skipBlanks_cons _ opens.isSpace]

theorem isNumber_last : ∀ (f : Form) (start : Nat),
    (f.last start).isNumber = (f.final == .number)
  | .number .., _ => rfl
  | .word _, _ => rfl
  | .signed _ f, start => isNumber_last f (start + 1)
  | .binary _ true _ r, _ => isNumber_last r _
  | .binary _ false _ r, _ => isNumber_last r _
  | .call .., _ => rfl
  | .paren _, _ => rfl

/-! ## What may follow -/

/-- An operator that may follow a form does not go on with its last operand. -/
theorem lt_tail {op : Operator} :
    ∀ {f : Form}, f.Readable v → leftBinding op ≤ f.binding → op.binding < f.tail
  | .number .., _, _ => lt_atom op
  | .word _, _, _ => lt_atom op
  | .signed _ _, ⟨operand, tight⟩, follows => by
    have less := lt_unary follows
    exact lt_min less (lt_tail operand (leftBinding_le_of_lt (less.trans_le tight)))
  | .binary _ _ _ _, ⟨_, right, _, tight, _⟩, follows => by
    have less := lt_rightBinding follows
    exact lt_min less (lt_tail right (leftBinding_le_of_lt (less.trans_le tight)))
  | .call .., _, _ => lt_atom op
  | .paren _, _, _ => lt_atom op

/-- The tokens end the form: they bind more loosely and do not make its last name a call. -/
structure Ends (spaced : Bool) (f : Form) (start : Nat) (rest : List Token) : Prop where
  loose : Loose spaced f.tail ⟨some (f.last start), rest⟩
  apart : f.final = .name → Apart spaced (f.last start) rest

theorem ends_of_closing (f : Form) (start : Nat) {t : Token} (ts : List Token)
    (closing : Closing t) : f.Ends spaced start (t :: ts) := by
  refine ⟨loose_of_closing _ _ _ closing, fun _ => apart_of_next fun t' member => ?_⟩
  rw [skipBlanks_cons ts closing.isSpace] at member
  obtain rfl : t = t' := by simpa using member
  exact closing.ne_openParen

theorem ends_nil (f : Form) (start : Nat) : f.Ends spaced start [] :=
  ⟨⟨none, rfl, by simp⟩, fun _ => apart_of_next (by simp [skipBlanks])⟩

/-- A left operand ends at its operator. -/
theorem ends_operator {f : Form} {op : Operator} {t : Token} (start : Nat) (ts : List Token)
    (readable : f.Readable v) (follows : leftBinding op ≤ f.binding)
    (kind : t.kind = .operator op) :
    f.Ends spaced start (t :: ts) := by
  refine ⟨⟨_, upcoming_operator _ ts kind, by simpa using lt_tail readable follows⟩, ?_⟩
  refine fun _ => apart_of_next fun t' member => ?_
  rw [skipBlanks_cons ts (by simp [Token.isSpace, kind])] at member
  obtain rfl : t = t' := by simpa using member
  simp [kind]

/-- A left factor ends at the right one. -/
theorem ends_attached {f g : Form} (start start' : Nat) (rest : List Token)
    (readable : f.Readable v) (follows : leftBinding .times ≤ f.binding)
    (adjoins : f.final.adjoins g.first = true) : f.Ends spaced start (g.tokens start' ++ rest) := by
  obtain ⟨t, ts, shape, opens⟩ := g.exists_tokens start'
  rw [shape, List.cons_append]
  have ahead := upcoming_attached spaced (ts ++ rest) adjoins (f.isNumber_last start) opens
  refine ⟨⟨_, ahead, by simpa using lt_tail readable follows⟩, ?_⟩
  refine fun final => apart_of_next fun t' member => ?_
  rw [skipBlanks_cons _ opens.isSpace] at member
  obtain rfl : t = t' := by simpa using member
  rw [final] at adjoins
  cases first : g.first with
  | number =>
    rw [first] at opens
    intro kind
    simp [Edge.Opens, Token.isNumber, kind] at opens
  | _ => rw [first] at adjoins; cases adjoins

/-! ## Reading -/

mutual

/-- After the tokens of a form, the reader goes on with its tree as the left operand. -/
theorem reads_expression : ∀ {f : Form}, f.Readable v → ∀ {spaced : Bool} {start : Nat}
    {least : Binding} {st st' : State} {rest : List Token} {e : Expr},
      least ≤ f.binding → skipBlanks st.rest = f.tokens start ++ rest → f.Ends spaced start rest →
      Reads (chain v stop spaced least (f.read v) ⟨some (f.last start), rest⟩) e st' →
      Reads (expression v stop spaced least st) e st'
  | .number .., _, _, _, _, _, _, _, _, _, shape, _, after =>
    Parser.reads_expression (reads_operand_number shape rfl) after
  | .word name, ⟨_, known⟩, _, _, _, _, _, _, _, _, shape, ends, after =>
    Parser.reads_expression (reads_operand_word shape rfl (ends.apart rfl) known) after
  | .signed sign f, ⟨operand, tight⟩, spaced, start, _, _, _, rest, _, _, shape, ends, after => by
    have inner : f.Ends spaced (start + 1) rest :=
      ⟨ends.loose.mono (min_le_right _ _), ends.apart⟩
    have read := reads_chain_nil v stop (f.read v)
      (ends.loose.mono (min_le_left Binding.unary f.tail))
    refine Parser.reads_expression ?_ after
    cases sign with
    | positive =>
      exact reads_operand_sign shape rfl
        (reads_expression operand tight (f.skipBlanks_tokens _ _) inner read)
    | negative =>
      exact reads_operand_sign shape rfl
        (reads_expression operand tight (f.skipBlanks_tokens _ _) inner read)
  | .binary op true l r, ⟨left, right, leftTight, rightTight, apart⟩, spaced, start, least, st, st',
      rest, e, bound, shape, ends, after => by
    obtain ⟨rfl, adjoins⟩ := apart rfl
    rw [tokens, List.append_assoc] at shape
    have rightEnds : r.Ends spaced (start + l.chars.length) rest :=
      ⟨ends.loose.mono (min_le_right _ _), ends.apart⟩
    have stops := reads_chain_nil v stop (r.read v)
      (ends.loose.mono (min_le_left _ r.tail))
    obtain ⟨t, ts, first, opens⟩ := r.exists_tokens (start + l.chars.length)
    have ahead := upcoming_attached spaced (ts ++ rest) adjoins (l.isNumber_last start) opens
    rw [← List.cons_append, ← first] at ahead
    exact reads_expression left (le_trans bound leftTight) shape
      (ends_attached start _ rest left leftTight adjoins)
      (reads_chain_attached ahead bound
        (reads_expression right rightTight (r.skipBlanks_tokens _ _) rightEnds stops) after)
  | .binary op false l r, ⟨left, right, leftTight, rightTight, _⟩, spaced, start, least, st, st',
      rest, e, bound, shape, ends, after => by
    rw [tokens, List.append_assoc, List.cons_append] at shape
    have rightEnds : r.Ends spaced (start + l.chars.length + op.symbol.toList.length) rest :=
      ⟨ends.loose.mono (min_le_right _ _), ends.apart⟩
    have stops := reads_chain_nil v stop (r.read v)
      (ends.loose.mono (min_le_left _ r.tail))
    exact reads_expression left (bound.trans (binding_le_leftBinding op |>.trans leftTight)) shape
      (ends_operator start _ left leftTight rfl)
      (reads_chain_operator (upcoming_operator _ _ rfl) bound (skipBlanks_cons _ rfl)
        (reads_expression right rightTight (r.skipBlanks_tokens _ _) rightEnds stops) after)
  | .call name args, ⟨_, isCalled, all⟩, _, start, _, _, _, rest, _, _, shape, _, after => by
    rw [tokens, List.cons_append, List.cons_append, List.append_assoc] at shape
    refine Parser.reads_expression
      (reads_operand_call shape rfl isCalled rfl fun called => ?_) after
    cases args with
    | nil => exact reads_call_nil (skipBlanks_cons _ rfl) (skipBlanks_cons _ rfl) rfl
    | cons f fs =>
      obtain ⟨t, ts, first, opens⟩ := exists_tokensOf f fs (start + name.toList.length + 1)
      have visible := skipBlanks_tokensOf f fs (start + name.toList.length + 1)
        (⟨.closeParen, ")", start + name.toList.length + 1 + (listed (f :: fs)).length⟩ :: rest)
      refine reads_call (skipBlanks_cons _ rfl) ?_
        (reads_arguments [] (List.cons_ne_nil f fs) all visible rfl)
      change ∀ t ∈ (skipBlanks (tokensOf _ (f :: fs) ++ _ :: rest)).head?, t.kind ≠ .closeParen
      rw [visible, first]
      simpa using opens.ne_closeParen
  | .paren f, inner, _, start, _, _, _, rest, _, _, shape, _, after => by
    rw [tokens, List.cons_append, List.append_assoc] at shape
    exact Parser.reads_expression
      (reads_operand_paren shape rfl
        (reads_expression (f := f) inner (Nat.zero_le _) (f.skipBlanks_tokens _ _)
          (f.ends_of_closing _ _ (Or.inl rfl))
          (reads_chain_nil _ _ _ (loose_of_closing _ _ _ (Or.inl rfl))))
        (skipBlanks_cons _ rfl) rfl) after

/-- The arguments of a call up to the closing parenthesis. -/
theorem reads_arguments : ∀ {fs : List Form} (before : List Expr), fs ≠ [] → AllReadable v fs →
    ∀ {start : Nat} {st : State} {opening closing : Token} {rest : List Token},
      skipBlanks st.rest = tokensOf start fs ++ closing :: rest → closing.kind = .closeParen →
      Reads (arguments v stop opening before st) (before ++ reads v fs) ⟨some closing, rest⟩
  | [], _, nonempty, _, _, _, _, _, _, _, _ => absurd rfl nonempty
  | [f], _, _, ⟨head, _⟩, _, _, _, _, _, shape, closes =>
    reads_arguments_last
      (reads_expression head (Nat.zero_le _) shape (f.ends_of_closing _ _ (Or.inl closes))
        (reads_chain_nil _ _ _ (loose_of_closing _ _ _ (Or.inl closes))))
      (skipBlanks_cons _ (by simp [Token.isSpace, closes])) closes
  | f :: g :: fs, before, _, ⟨head, all⟩, start, _, opening, closing, rest, shape, closes => by
    have ends : f.Ends false start (⟨.comma, ",", start + f.chars.length⟩ ::
        ⟨.space, " ", start + f.chars.length + 1⟩ ::
          (tokensOf (start + f.chars.length + 2) (g :: fs) ++ closing :: rest)) :=
      f.ends_of_closing start _ (Or.inr (Or.inl rfl))
    rw [tokensOf_cons_cons, List.append_assoc, List.cons_append, List.cons_append] at shape
    have accumulated : before ++ reads v (f :: g :: fs) =
        (before ++ [f.read v]) ++ reads v (g :: fs) := by
      rw [List.append_assoc]
      rfl
    rw [accumulated]
    exact reads_arguments_cons
      (reads_expression head (Nat.zero_le _) shape ends
        (reads_chain_nil _ _ _ (loose_of_closing _ _ _ (Or.inr (Or.inl rfl)))))
      (skipBlanks_cons _ rfl) rfl
      (reads_arguments (before ++ [f.read v]) (List.cons_ne_nil g fs) all (skipBlanks_tokensOf ..)
        closes)

end

/-! ## The whole text -/

mutual

/-- A form is no definition: it has no equals sign. -/
theorem noEquals_tokens : ∀ (f : Form) (start : Nat), NoEquals (f.tokens start)
  | .number .., _, t, member => by
    obtain rfl := List.mem_singleton.1 member
    simp
  | .word _, _, t, member => by
    obtain rfl := List.mem_singleton.1 member
    simp
  | .signed .positive f, start, t, member => by
    rcases List.mem_cons.1 member with rfl | member
    · simp
    · exact noEquals_tokens f _ t member
  | .signed .negative f, start, t, member => by
    rcases List.mem_cons.1 member with rfl | member
    · simp
    · exact noEquals_tokens f _ t member
  | .binary _ true l r, start, t, member => by
    rcases List.mem_append.1 member with member | member
    · exact noEquals_tokens l _ t member
    · exact noEquals_tokens r _ t member
  | .binary _ false l r, start, t, member => by
    rcases List.mem_append.1 member with member | member
    · exact noEquals_tokens l _ t member
    rcases List.mem_cons.1 member with rfl | member
    · simp
    · exact noEquals_tokens r _ t member
  | .call name args, start, t, member => by
    rcases List.mem_cons.1 member with rfl | member
    · simp
    rcases List.mem_cons.1 member with rfl | member
    · simp
    rcases List.mem_append.1 member with member | member
    · exact noEquals_tokensOf args _ t member
    · obtain rfl := List.mem_singleton.1 member
      simp
  | .paren f, start, t, member => by
    rcases List.mem_cons.1 member with rfl | member
    · simp
    rcases List.mem_append.1 member with member | member
    · exact noEquals_tokens f _ t member
    · obtain rfl := List.mem_singleton.1 member
      simp

theorem noEquals_tokensOf : ∀ (fs : List Form) (start : Nat), NoEquals (tokensOf start fs)
  | [], _, t, member => by cases member
  | [f], start, t, member => noEquals_tokens f start t member
  | f :: g :: fs, start, t, member => by
    rw [tokensOf_cons_cons] at member
    rcases List.mem_append.1 member with member | member
    · exact noEquals_tokens f _ t member
    rcases List.mem_cons.1 member with rfl | member
    · simp
    rcases List.mem_cons.1 member with rfl | member
    · simp
    · exact noEquals_tokensOf (g :: fs) _ t member

end

/-- The text of a readable form. -/
theorem parse_read {f : Form} (readable : f.Readable v) :
    parse v (String.ofList f.chars) = .ok (f.read v) := by
  have visible : skipBlanks (f.tokens 0) = f.tokens 0 := by simpa using f.skipBlanks_tokens 0 []
  have read : Reads (expression v (String.ofList f.chars).length false 0 ⟨none, f.tokens 0⟩)
      (f.read v) ⟨some (f.last 0), []⟩ :=
    reads_expression readable (Nat.zero_le _) (by rw [visible, List.append_nil]) (f.ends_nil 0)
      (reads_chain_nil _ _ _ ⟨none, rfl, by simp⟩)
  obtain ⟨_, result⟩ := read
  have nonempty : (skipBlanks (f.tokens 0)).isEmpty = false := by
    obtain ⟨t, ts, shape, -⟩ := f.exists_tokens 0
    rw [visible, shape]
    rfl
  have noHead : definitionHead? (f.tokens 0) = none :=
    definitionHead?_eq_none (f.noEquals_tokens 0)
  rw [parse, scan_chars readable]
  simp only [ofTokens, nonempty, noHead, result, Bool.false_eq_true, if_false]
  rw [next_eq_none rfl]

/-- The text of a well-formed form is read as its tree. -/
theorem parse_chars {f : Form} (wellFormed : f.WellFormed v) :
    parse v (String.ofList f.chars) = .ok f.tree := by
  rw [parse_read wellFormed.readable, wellFormed.read_eq]

end Form

end Reckon
