import Reckon.Proofs.Expr.Regrouped
import Reckon.Proofs.Expr.Unsign
import Reckon.Proofs.Expr.Words

/-!
# Words that are cut into factors

The reader cuts a word like `ab` into names and takes the product of them for an operand. Written as
`a*b`, the names are read one by one instead, and what stands in front of the word goes with the
first of them. This makes no difference but for the grouping of factors, as long as neither a
quotient nor a power stands right in front of the word, with or without signs in between, and no
power stands behind it.

`Joins` relates the tokens of the two texts. Everything in front of the word is read in the same
way. The operand that begins with the word may end early in the second text, with further factors
ahead (`Pending`); an operator that binds no more tightly than a product reads them.

Results: `State.Joins.expression`.
-/

namespace Reckon

namespace Parser

/-! ## Places -/

/-- What of the tokens before it matters to a token. -/
structure Place where
  /-- For each open bracket, the innermost one first, that it is square. -/
  brackets : List Bool
  /-- There is a quotient or a power before it, with nothing but signs in between. -/
  tight : Bool

namespace Place

/-- Blanks separate elements. -/
def spaced (p : Place) : Bool :=
  p.brackets.headD false

/-- The place behind an operand. -/
def behind (p : Place) : Place :=
  { p with tight := false }

/-- The place behind the closing bracket. -/
def closed (p : Place) : Place :=
  ⟨p.brackets.tail, false⟩

def after (p : Place) (t : Token) : Place :=
  match t.kind with
  | .space | .operator .plus | .operator .minus => p
  | .operator .divide | .operator .power => { p with tight := true }
  | .openParen => ⟨false :: p.brackets, false⟩
  | .openBracket => ⟨true :: p.brackets, false⟩
  | .closeParen | .closeBracket => p.closed
  | _ => p.behind

/-- The place behind all of the tokens of an expression so far. -/
def of (ts : List Token) : Place :=
  ts.foldl after ⟨[], false⟩

variable {p : Place} {t : Token}

theorem after_space (space : t.isSpace = true) : p.after t = p := by
  rw [after, eq_of_beq space]

theorem after_sign {sign : Sign} (isSign : signOf? t = some sign) : p.after t = p := by
  unfold signOf? at isSign
  split at isSign
  next kind => rw [after, kind]
  next kind => rw [after, kind]
  next => cases isSign

/-- Where no products are read behind an operator and the place is not tight, a factor is read. -/
theorem eq_times_of_after {op : Operator} (kind : t.kind = .operator op)
    (tight : Binding.unary ≤ rightBinding op) (loose : (p.after t).tight = false) :
    op = .times := by
  rw [after, kind] at loose
  cases op with
  | times => rfl
  | divide => cases loose
  | power => cases loose
  | _ => exact absurd tight (by decide)

theorem spaced_after {op : Operator} (kind : t.kind = .operator op) :
    (p.after t).spaced = p.spaced := by
  rw [after, kind]
  cases op <;> rfl

theorem behind_after {op : Operator} (kind : t.kind = .operator op) :
    (p.after t).behind = p.behind := by
  rw [after, kind]
  cases op <;> rfl

end Place

/-! ## Words and their factors -/

/-- No power follows. -/
def Unpowered (ts : List Token) : Prop :=
  ∀ t ∈ (skipBlanks ts).head?, t.kind ≠ .operator .power

/-- The tokens behind the parentheses that are open, `depth` of them. -/
def behindParens (depth : Nat) : List Token → List Token
  | [] => []
  | t :: ts =>
    match t.kind with
    | .openParen => behindParens (depth + 1) ts
    | .closeParen => if depth ≤ 1 then ts else behindParens (depth - 1) ts
    | _ => behindParens depth ts

/-- The tokens of names with signs of multiplication in between, of which `last` is the last. -/
inductive Joined : List String → String → List Token → Prop
  | last {t : Token} (kind : t.kind = .identifier) : Joined [] t.text [t]
  | cons {t star : Token} {names : List String} {last : String} {ts : List Token}
      (kind : t.kind = .identifier) (times : star.kind = .operator .times)
      (rest : Joined names last ts) : Joined (t.text :: names) last (t :: star :: ts)

/-- At its place and in front of what comes after it, the word stands for the product of names, the
last of which may be the function of a call. If there are several, nothing around them binds more
tightly than a product, and no name would be refused if it stood alone. -/
structure Splits (v : Vocabulary) (p : Place) (word : Token) (after : List Token)
    (names : List String) (last : String) : Prop where
  kind : word.kind = .identifier
  loose : names ≠ [] → p.tight = false
  values : ∀ name ∈ names, v.isFunction name = true → v.isKnown name = true
  cut : (Apart p.spaced word after ∧ v.pieces word.text = names ++ [last] ∧
      (v.isFunction last = true → v.isKnown last = true) ∧ (names ≠ [] → Unpowered after)) ∨
    ∃ front, ¬ Apart p.spaced word after ∧ v.isFunction word.text = false ∧
      v.functionEnding? [] word.text.toList = some (front, last) ∧ v.pieces front = names ∧
      Unpowered (behindParens 0 after)

/-- The same tokens, but for a word that is replaced by the names it is cut into. -/
inductive Joins (v : Vocabulary) : Place → List Token → List Token → Prop
  | same {p : Place} {ts us : List Token} (same : List.Forall₂ Token.Same ts us) : Joins v p ts us
  | cons {p : Place} {t u : Token} {ts us : List Token} (same : t.Same u)
      (rest : Joins v (p.after t) ts us) : Joins v p (t :: ts) (u :: us)
  | word {p : Place} {word : Token} {ts us us' : List Token} {names : List String} {last : String}
      (splits : Splits v p word ts names last) (joined : Joined names last us)
      (rest : List.Forall₂ Token.Same ts us') : Joins v p (word :: ts) (us ++ us')

/-- The tokens that are left differ in the word at most. -/
structure State.Joins (v : Vocabulary) (p : Place) (st st' : State) : Prop where
  rest : Parser.Joins v p st.rest st'.rest
  last : st.last.any Token.isNumber = st'.last.any Token.isNumber

theorem Joined.exists_cons {names : List String} {last : String} {ts : List Token}
    (joined : Joined names last ts) : ∃ t ts', ts = t :: ts' ∧ t.kind = .identifier := by
  cases joined with
  | last kind => exact ⟨_, _, rfl, kind⟩
  | cons kind _ _ => exact ⟨_, _, rfl, kind⟩

theorem isSpace_of_identifier {t : Token} (kind : t.kind = .identifier) : t.isSpace = false := by
  rw [Token.isSpace, kind]
  rfl

section Tokens

variable {v : Vocabulary} {p : Place} {ts us : List Token}

theorem Joins.skipBlanks (joins : Joins v p ts us) :
    Joins v p (skipBlanks ts) (skipBlanks us) := by
  induction joins with
  | same same => exact .same (skipBlanks_same same)
  | @cons p t u ts us same rest ih =>
    rw [Parser.skipBlanks, Parser.skipBlanks, ← same.isSpace]
    split
    next space => rwa [Place.after_space space] at ih
    next => exact .cons same rest
  | word splits joined rest =>
    obtain ⟨u, us, rfl, kind⟩ := joined.exists_cons
    rw [List.cons_append, Parser.skipBlanks, Parser.skipBlanks, isSpace_of_identifier splits.kind,
      isSpace_of_identifier kind]
    exact .word splits joined rest

/-- The next tokens are of the same kind. -/
theorem Joins.head? (joins : Joins v p ts us) {f : Token → Bool}
    (same : ∀ {t u : Token}, t.kind = u.kind → f t = f u) : ts.head?.any f = us.head?.any f := by
  cases joins with
  | same alike =>
    cases alike with
    | nil => rfl
    | cons here _ => exact same here.kind
  | cons here _ => exact same here.kind
  | word splits joined _ =>
    obtain ⟨u, us, rfl, kind⟩ := joined.exists_cons
    exact same (splits.kind.trans kind.symm)

/-- Both are at an end, or the same token is next, or the word is. -/
theorem Joins.cases (joins : Joins v p ts us) :
    (ts = [] ∧ us = []) ∨
    (∃ t u ts' us', ts = t :: ts' ∧ us = u :: us' ∧ t.Same u ∧ Joins v (p.after t) ts' us') ∨
    ∃ word ts' names last us₁ us₂, ts = word :: ts' ∧ us = us₁ ++ us₂ ∧
      Splits v p word ts' names last ∧ Joined names last us₁ ∧
      List.Forall₂ Token.Same ts' us₂ := by
  cases joins with
  | same same =>
    cases same with
    | nil => exact .inl ⟨rfl, rfl⟩
    | cons here rest => exact .inr (.inl ⟨_, _, _, _, rfl, rfl, here, .same rest⟩)
  | cons here rest => exact .inr (.inl ⟨_, _, _, _, rfl, rfl, here, rest⟩)
  | word splits joined rest =>
    exact .inr (.inr ⟨_, _, _, _, _, _, rfl, rfl, splits, joined, rest⟩)

end Tokens

namespace State.Joins

variable {v : Vocabulary} {stop stop' : Nat}

section Next

variable {p : Place} {st st' : State}

theorem next {t : Token} {st₁ : { s : State // s.size < st.size }} (joins : st.Joins v p st')
    (found : Parser.next st = some (t, st₁)) :
    (∃ u us, skipBlanks st'.rest = u :: us ∧ t.Same u ∧
      st₁.1.Joins v (p.after t) ⟨some u, us⟩) ∨
    ∃ names last us us', skipBlanks st'.rest = us ++ us' ∧ Splits v p t st₁.1.rest names last ∧
      Joined names last us ∧ List.Forall₂ Token.Same st₁.1.rest us' := by
  obtain ⟨last, shape⟩ := shape_of_next found
  have ahead := joins.rest.skipBlanks
  rw [shape] at ahead
  rcases ahead.cases with ⟨nothing, -⟩ | ⟨t', u, ts, us, here, other, same, rest⟩ |
    ⟨word, ts, names, last', us, us', here, other, splits, joined, rest⟩
  · cases nothing
  · obtain ⟨rfl, rfl⟩ := List.cons.inj here
    exact .inl ⟨u, us, other, same, rest, by rw [last]; exact same.isNumber⟩
  · obtain ⟨rfl, rfl⟩ := List.cons.inj here
    exact .inr ⟨names, last', us, us', other, splits, joined, rest⟩

/-- Only a name can be the word. -/
theorem next_of_ne {t : Token} {st₁ : { s : State // s.size < st.size }}
    (joins : st.Joins v p st') (found : Parser.next st = some (t, st₁))
    (other : t.kind ≠ .identifier) :
    ∃ u us, skipBlanks st'.rest = u :: us ∧ t.Same u ∧
      st₁.1.Joins v (p.after t) ⟨some u, us⟩ :=
  (joins.next found).resolve_right fun ⟨_, _, _, _, _, splits, _⟩ => other splits.kind

theorem kind_next {t : Token} {st₁ : { s : State // s.size < st.size }} (joins : st.Joins v p st')
    (found : Parser.next st = some (t, st₁)) :
    ∃ u us, skipBlanks st'.rest = u :: us ∧ t.kind = u.kind := by
  rcases joins.next found with ⟨u, us, shape, same, -⟩ | ⟨_, _, us, us', shape, splits, joined, -⟩
  · exact ⟨u, us, shape, same.kind⟩
  · obtain ⟨u, us, rfl, kind⟩ := joined.exists_cons
    exact ⟨u, us ++ us', shape, splits.kind.trans kind.symm⟩

theorem adjacent (joins : st.Joins v p st') (spaced : Bool) (kind : TokenKind) :
    (Parser.adjacent spaced st).any (·.kind == kind) =
      (Parser.adjacent spaced st').any (·.kind == kind) := by
  unfold Parser.adjacent
  split
  · exact joins.rest.head? fun same => by rw [same]
  · rw [head?_next, head?_next]
    exact joins.rest.skipBlanks.head? fun same => by rw [same]

theorem upcoming (joins : st.Joins v p st') {spaced : Bool} {found : Option (Operator × Bool)}
    (done : Parser.upcoming spaced st = .ok found) : Parser.upcoming spaced st' = .ok found := by
  have blank : st.rest.head?.any Token.isSpace = st'.rest.head?.any Token.isSpace :=
    joins.rest.head? fun same => by rw [Token.isSpace, Token.isSpace, same]
  unfold Parser.upcoming at done ⊢
  rcases joins.rest.skipBlanks.cases with ⟨first, second⟩ |
    ⟨t, u, ts, us, first, second, same, rest⟩ |
    ⟨word, ts, names, last, us, us', first, second, splits, joined, rest⟩
  · rw [first] at done
    rw [second]
    exact done
  · have after : ts.head?.any Token.startsOperand = us.head?.any Token.startsOperand :=
      rest.head? fun same => by rw [Token.startsOperand, Token.startsOperand, same]
    rw [first] at done
    rw [second]
    dsimp only at done ⊢
    rw [← same.kind, ← blank, ← same.startsOperand, ← same.isNumber, ← after, ← joins.last]
    split at done
    next => exact done
    next =>
      split at done
      next none =>
        rw [if_pos none]
        exact done
      next =>
        split at done
        next => cases done
        next more apart =>
          rw [if_neg more, if_neg apart]
          exact done
  · obtain ⟨u, us, rfl, kind⟩ := joined.exists_cons
    rw [first] at done
    rw [second, List.cons_append]
    simp only [splits.kind, kind, Token.startsOperand, Token.isNumber, ← blank] at done ⊢
    exact done

end Next

end State.Joins

/-! ## Factors that are still to be read -/

/-- Up to the second state, factors of a product follow. -/
inductive Trail (v : Vocabulary) (stop : Nat) (spaced : Bool) :
    State → List Expr → State → Prop
  | nil (st : State) : Trail v stop spaced st [] st
  | cons {last : Option Token} {star : Token} {ts : List Token} {f : Expr} {fs : List Expr}
      {st₁ st₂ : State} (times : star.kind = .operator .times)
      (factor : Reads (expression v stop spaced Binding.unary ⟨some star, ts⟩) f st₁)
      (rest : Trail v stop spaced st₁ fs st₂) :
      Trail v stop spaced ⟨last, star :: ts⟩ (f :: fs) st₂

/-- The same is left to be read, but for factors that come first. -/
structure Pending (v : Vocabulary) (stop : Nat) (spaced : Bool) (e : Expr) (st : State)
    (e' : Expr) (st' : State) : Prop where
  trail : ∃ f fs st₁, Trail v stop spaced st' (f :: fs) st₁ ∧
    e.Regrouped (e'.product (f :: fs)) ∧ st.Matches true st₁
  loose : Loose spaced Binding.unary st

/-- What reading an operand at a place gives: the trees are alike, and what is left differs in the
word at most; or, where this is possible, factors are still to be read. -/
def Outcome (v : Vocabulary) (stop : Nat) (spaced : Bool) (p : Place) (possible : Prop)
    (e : Expr) (st : State) (e' : Expr) (st' : State) : Prop :=
  (e.Regrouped e' ∧ st.Joins v p.behind st') ∨ (possible ∧ Pending v stop spaced e st e' st')

section Factors

variable {v : Vocabulary} {stop : Nat} {spaced : Bool} {least : Binding} {e e' : Expr}
  {st st' st₁ : State}

theorem State.Matches.joins (alike : st.Matches true st') (p : Place) : st.Joins v p st' :=
  ⟨.same (alike.rest.blanks (.inl rfl)), alike.last⟩

/-- A chain that takes products takes the factors. -/
theorem Trail.reads_chain {fs : List Expr} {left : Expr}
    (trail : Trail v stop spaced st fs st₁) (least_le : least ≤ Binding.multiplicative)
    (read : Reads (chain v stop spaced least (left.product fs) st₁) e st') :
    Reads (chain v stop spaced least left st) e st' := by
  induction trail generalizing left with
  | nil => exact read
  | @cons last star ts f fs st₁ st₂ times factor _ ih =>
    have visible : skipBlanks (star :: ts) = star :: ts :=
      skipBlanks_cons ts (by rw [Token.isSpace, times]; rfl)
    exact reads_chain_operator (upcoming_operator last ts times) least_le visible factor (ih read)

theorem Trail.loose {f : Expr} {fs : List Expr} (trail : Trail v stop spaced st (f :: fs) st₁) :
    Loose spaced Binding.unary st := by
  cases trail with
  | @cons last star ts f fs st₁ st₂ times _ _ =>
    refine ⟨_, upcoming_operator last ts times, ?_⟩
    rintro _ ⟨⟩
    exact Nat.lt_succ_self _

theorem Pending.unary (pending : Pending v stop spaced e st e' st') (sign : Sign) :
    Pending v stop spaced (.unary sign e) st (.unary sign e') st' := by
  obtain ⟨⟨f, fs, st₁, trail, alike, left⟩, loose⟩ := pending
  exact ⟨⟨f, fs, st₁, trail, (alike.unary sign).trans (Expr.regrouped_unary_product ..), left⟩,
    loose⟩

theorem Pending.times {l l' : Expr} (pending : Pending v stop spaced e st e' st')
    (alike : l.Regrouped l') (attached : Bool) :
    Pending v stop spaced (.binary .times attached l e) st (.binary .times attached l' e') st' := by
  obtain ⟨⟨f, fs, st₁, trail, alike', left⟩, loose⟩ := pending
  exact ⟨⟨f, fs, st₁, trail,
    (alike.binary alike' .times attached).trans (Expr.regrouped_times_product ..), left⟩, loose⟩

/-- A chain that takes products goes on from a state where no factors are ahead. -/
theorem Pending.settles (pending : Pending v stop spaced e st e' st')
    (least_le : least ≤ Binding.multiplicative) (p : Place) :
    ∃ e'' st'', e.Regrouped e'' ∧ st.Joins v p st'' ∧ ∀ {f st₁},
      Reads (chain v stop spaced least e'' st'') f st₁ →
        Reads (chain v stop spaced least e' st') f st₁ := by
  obtain ⟨⟨f, fs, st₁, trail, alike, left⟩, -⟩ := pending
  exact ⟨_, st₁, alike, left.joins p, trail.reads_chain least_le⟩

namespace Outcome

variable {p : Place} {possible : Prop}

theorem settled (outcome : Outcome v stop spaced p possible e st e' st') (not : ¬ possible) :
    e.Regrouped e' ∧ st.Joins v p.behind st' :=
  outcome.resolve_right fun pending => not pending.1

theorem unary (outcome : Outcome v stop spaced p possible e st e' st') {possible' : Prop}
    (weaker : possible → possible') (sign : Sign) :
    Outcome v stop spaced p possible' (.unary sign e) st (.unary sign e') st' :=
  outcome.imp (fun ⟨alike, joins⟩ => ⟨alike.unary sign, joins⟩)
    fun ⟨here, pending⟩ => ⟨weaker here, pending.unary sign⟩

/-- With its right operand read, the chain goes on from a state where no factors are ahead. -/
theorem continues (outcome : Outcome v stop spaced p possible e st e' st') {l l' : Expr}
    (alike : l.Regrouped l') {op : Operator} (product : possible → op = .times)
    (tight : least ≤ op.binding) (attached : Bool) :
    ∃ e'' st'', (Expr.binary op attached l e).Regrouped e'' ∧ st.Joins v p.behind st'' ∧
      ∀ {f st₁}, Reads (chain v stop spaced least e'' st'') f st₁ →
        Reads (chain v stop spaced least (.binary op attached l' e') st') f st₁ := by
  rcases outcome with ⟨alike', joins⟩ | ⟨here, pending⟩
  · exact ⟨_, st', alike.binary alike' op attached, joins, id⟩
  · obtain rfl := product here
    exact (pending.times alike attached).settles tight p.behind

end Outcome

end Factors

/-! ## The word -/

/-- A chain does nothing if what follows is looser. -/
theorem eq_of_reads_chain {v : Vocabulary} {stop : Nat} {spaced : Bool} {least : Binding}
    {left e : Expr} {st st' : State} (loose : Loose spaced least st)
    (done : Reads (chain v stop spaced least left st) e st') : e = left ∧ st' = st := by
  obtain ⟨_, here⟩ := reads_chain_nil v stop left loose
  obtain ⟨_, done⟩ := done
  rw [here] at done
  cases done
  exact ⟨rfl, rfl⟩

/-- A chain that is read begins in front of something that can be there. -/
theorem upcoming_of_chain {v : Vocabulary} {stop : Nat} {spaced : Bool} {least : Binding}
    {left e : Expr} {st st' : State} (done : Reads (chain v stop spaced least left st) e st') :
    ∃ found, upcoming spaced st = .ok found := by
  rcases chain_cases done with ⟨-, -, found, ahead, -⟩ | ⟨_, _, _, ahead, -⟩ |
    ⟨_, _, _, _, _, ahead, -⟩
  · exact ⟨found, ahead⟩
  · exact ⟨_, ahead⟩
  · exact ⟨_, ahead⟩

section Word

variable {v : Vocabulary} {stop : Nat} {spaced : Bool} {st st₁ : State} {t : Token}
  {ts : List Token} {e : Expr}

/-- If no power follows, nothing that follows binds more tightly than a product. -/
theorem loose_of_unpowered {found : Option (Operator × Bool)}
    (ahead : upcoming spaced st = .ok found) (free : Unpowered st.rest) :
    Loose spaced Binding.unary st := by
  refine ⟨found, ahead, ?_⟩
  rintro ⟨op, attached⟩ ⟨⟩
  cases attached with
  | true =>
    rw [eq_times_of_upcoming ahead]
    exact Nat.lt_succ_self _
  | false =>
    cases next' : next st with
    | none =>
      rw [upcoming_of_next next'] at ahead
      cases ahead
    | some entry =>
      obtain ⟨t, st₁⟩ := entry
      have kind := kind_of_upcoming ahead next'
      have other := free t (by rw [(shape_of_next next').2]; rfl)
      cases op with
      | power => exact absurd kind other
      | _ => decide

theorem behindParens_skipBlanks (depth : Nat) (ts : List Token) :
    behindParens depth (skipBlanks ts) = behindParens depth ts := by
  induction ts with
  | nil => rfl
  | cons t ts ih =>
    rw [skipBlanks]
    split
    next space => rw [ih, behindParens, eq_of_beq space]
    next => rfl

theorem behindParens_paired {used : List Token} (paired : Paired used) (depth : Nat)
    (rest : List Token) :
    behindParens (depth + 1) (used ++ rest) = behindParens (depth + 1) rest := by
  induction paired generalizing depth rest with
  | nil => rfl
  | plain opening closing equals _ ih =>
    rw [List.cons_append, behindParens]
    split
    next kind => exact absurd kind opening
    next kind => exact absurd kind closing
    next => exact ih depth rest
  | group opens closes _ _ ihInner ih =>
    rw [List.cons_append, List.append_assoc, List.cons_append, behindParens]
    simp only [opens]
    rw [ihInner, behindParens]
    simp only [closes]
    rw [if_neg (by omega), Nat.add_sub_cancel, ih]

/-- A call ends where the parenthesis behind the name is closed. -/
theorem behindParens_of_call {name : String} {st' : { s : State // s.size < st.size }}
    (beside : (adjacent spaced st).any (·.kind == .openParen) = true)
    (done : call v stop name st = .ok (e, st')) : behindParens 0 st.rest = st'.1.rest := by
  have ends : ∀ {opening : Token} {st₁ : { s : State // s.size < st.size }} {st₂ : State},
      next st = some (opening, st₁) → Closes st₁.1 st₂ → behindParens 0 st.rest = st₂.rest := by
    rintro opening st₁ st₂ found ⟨used, closing, shape, paired, closes⟩
    have opens : opening.kind = .openParen := kind_of_adjacent beside found (by decide)
    rw [← behindParens_skipBlanks, (shape_of_next found).2, behindParens]
    simp only [opens]
    rw [shape, behindParens_paired paired, behindParens]
    simp only [closes]
    rw [if_pos le_rfl]
  rw [call] at done
  split at done
  next => cases done
  next found =>
    split at done
    next closed =>
      cases done
      exact ends found (closes_next closed rfl)
    next =>
      split at done
      next => cases done
      next first =>
        cases done
        exact ends found (closes_arguments first)

theorem pieces_ne_nil_of_toList {word : String} (nonempty : word.toList ≠ []) :
    v.pieces word ≠ [] := by
  unfold Vocabulary.pieces
  split
  · exact List.cons_ne_nil _ _
  · exact Vocabulary.cut_ne_nil nonempty

theorem pieces_of_mem_pieces {word name : String} (member : name ∈ v.pieces word) :
    v.pieces name = [name] := by
  unfold Vocabulary.pieces at member
  split at member
  next known =>
    obtain rfl := List.mem_singleton.1 member
    exact Form.pieces_word (.inl known)
  next => exact Form.pieces_word (v.forall_mem_cut _ name member).1

theorem productOfNames_of_single {name : String} (single : v.pieces name = [name]) :
    v.productOfNames name = .var name := by
  rw [Vocabulary.productOfNames, single]
  rfl

/-- The product of the names in a word is the product of its first name and the others. -/
theorem regrouped_productOfNames {word first : String} {others : List String}
    (pieces : v.pieces word = first :: others) :
    (v.productOfNames word).Regrouped ((Expr.var first).product (others.map .var)) := by
  rw [Vocabulary.productOfNames, pieces]
  dsimp only
  rw [← List.foldl_map (f := Expr.var) (g := Expr.juxtaposed)]
  exact Expr.regrouped_foldl_juxtaposed _ _

/-- The names in front of the last one are read one by one, and so is the last one, if it can be
read in front of what follows. -/
theorem reads_joined {names : List String} {last : String} {us us' : List Token} {f : Expr}
    {Q : State → Prop} (joined : Joined names last us)
    (single : ∀ name ∈ names, v.pieces name = [name])
    (values : ∀ name ∈ names, v.isFunction name = true → v.isKnown name = true)
    (final : ∀ {t st}, t.kind = .identifier → t.text = last → skipBlanks st.rest = t :: us' →
      ∃ st₁, Reads (operand v stop spaced st) f st₁ ∧ Loose spaced Binding.unary st₁ ∧ Q st₁)
    (shape : skipBlanks st.rest = us ++ us') :
    ∃ e fs st₁ st₂, Reads (operand v stop spaced st) e st₁ ∧ Loose spaced Binding.unary st₁ ∧
      Trail v stop spaced st₁ fs st₂ ∧ Q st₂ ∧ e :: fs = names.map .var ++ [f] := by
  induction joined generalizing st with
  | last kind =>
    obtain ⟨st₁, read, loose, rest⟩ := final kind rfl shape
    exact ⟨f, [], st₁, st₁, read, loose, .nil st₁, rest, rfl⟩
  | @cons t star names last us kind times joined ih =>
    obtain ⟨single, singles⟩ := List.forall_mem_cons.1 single
    obtain ⟨value, values⟩ := List.forall_mem_cons.1 values
    obtain ⟨u, us₁, rfl, uKind⟩ := joined.exists_cons
    have behind : skipBlanks (star :: (u :: us₁ ++ us')) = star :: (u :: us₁ ++ us') :=
      skipBlanks_cons _ (by rw [Token.isSpace, times]; rfl)
    have apart : Apart spaced t (star :: (u :: us₁ ++ us')) :=
      apart_of_next (by rw [behind]; rintro _ ⟨⟩; simp [times])
    have word : Reads (operand v stop spaced st) (v.productOfNames t.text) _ :=
      reads_operand_word shape kind apart value
    rw [productOfNames_of_single single] at word
    have ahead : skipBlanks (State.rest ⟨some star, u :: us₁ ++ us'⟩) = u :: us₁ ++ us' :=
      skipBlanks_cons _ (isSpace_of_identifier uKind)
    obtain ⟨e, fs, st₁, st₂, first, loose, trail, rest, factors⟩ := ih singles values final ahead
    have factor := reads_expression first (reads_chain_nil v stop e loose)
    have trail : Trail v stop spaced ⟨some t, star :: (u :: us₁ ++ us')⟩ (e :: fs) st₂ :=
      .cons times factor trail
    refine ⟨_, _, _, st₂, word, trail.loose, trail, rest, ?_⟩
    rw [factors, List.map_cons, List.cons_append]

variable {p : Place} {word : Token} {names : List String} {last : String} {us us' : List Token}

/-- The names are read one by one up to the last one, which leaves what the word leaves. -/
theorem outcome_of_joined {f : Expr} {st' : State} (joined : Joined names last us)
    (single : ∀ name ∈ names, v.pieces name = [name])
    (values : ∀ name ∈ names, v.isFunction name = true → v.isKnown name = true)
    (shape : skipBlanks st'.rest = us ++ us') (loose : names ≠ [] → Loose spaced Binding.unary st)
    (final : ∀ {t st'}, t.kind = .identifier → t.text = last → skipBlanks st'.rest = t :: us' →
      ∃ st₁, Reads (operand v stop spaced st') f st₁ ∧ st.Matches true st₁)
    (alike : ∀ {a fs}, a :: fs = names.map .var ++ [f] → e.Regrouped (a.product fs)) :
    ∃ e' st₁, Reads (operand v stop spaced st') e' st₁ ∧
      Outcome v stop spaced p (names ≠ []) e st e' st₁ := by
  cases names with
  | nil =>
    cases joined with
    | last kind =>
      obtain ⟨st₁, read, same⟩ := final kind rfl shape
      exact ⟨f, st₁, read, .inl ⟨alike rfl, same.joins _⟩⟩
  | cons name names =>
    obtain ⟨found, ahead, below⟩ := loose (List.cons_ne_nil _ _)
    have final' : ∀ {t st'}, t.kind = .identifier → t.text = last →
        skipBlanks st'.rest = t :: us' → ∃ st₁, Reads (operand v stop spaced st') f st₁ ∧
          Loose spaced Binding.unary st₁ ∧ st.Matches true st₁ := fun kind text shape => by
      obtain ⟨st₁, read, same⟩ := final kind text shape
      exact ⟨st₁, read, ⟨found, (same.joins p (v := v)).upcoming ahead, below⟩, same⟩
    obtain ⟨a, fs, st₁, st₂, read, -, trail, same, factors⟩ :=
      reads_joined joined single values final' shape
    obtain ⟨-, rest⟩ := List.cons.inj factors
    obtain ⟨g, gs, rfl⟩ := List.exists_cons_of_ne_nil (rest ▸ List.concat_ne_nil f _ : fs ≠ [])
    exact ⟨a, st₁, read, .inr ⟨List.cons_ne_nil _ _, ⟨g, gs, st₂, trail, alike factors, same⟩,
      found, ahead, below⟩⟩

/-- In place of the word, its names are read one by one. -/
theorem reads_word (stop' : Nat) {st₀ st₂ st' : State} {h : st.size < st₀.size}
    {h₂ : st₂.size < st₀.size} {found : Option (Operator × Bool)}
    (splits : Splits v p word st.rest names last) (inside : p.spaced = spaced)
    (joined : Joined names last us) (same : List.Forall₂ Token.Same st.rest us')
    (shape : skipBlanks st'.rest = us ++ us') (lastRead : st.last = some word)
    (done : identifier v stop spaced word st₀ st h = .ok (e, ⟨st₂, h₂⟩))
    (ahead : upcoming spaced st₂ = .ok found) :
    ∃ e' st₁, Reads (operand v stop' spaced st') e' st₁ ∧
      Outcome v stop' spaced p (names ≠ []) e st₂ e' st₁ := by
  obtain ⟨_, after⟩ := st
  obtain rfl : _ = some word := lastRead
  subst inside
  have start : ∀ {t : Token}, t.kind = .identifier →
      State.Matches true ⟨some word, after⟩ ⟨some t, us'⟩ := fun kind =>
    ⟨.of_same true same, by simp [Token.isNumber, splits.kind, kind]⟩
  have beside : ∀ {t : Token}, t.kind = .identifier →
      (Apart p.spaced word after ↔ Apart p.spaced t us') := fun kind => by
    rw [Apart, Apart, ((start kind).joins p (v := v)).adjacent]
  rw [identifier] at done
  rcases splits.cut with ⟨apart, pieces, value, free⟩ |
    ⟨front, notApart, notFunction, ending, rfl, free⟩
  · rw [if_neg (by rw [show _ = false from apart]; decide)] at done
    split at done
    next => cases done
    next =>
      cases done
      have single : ∀ name ∈ names ++ [last], v.pieces name = [name] := fun name member =>
        pieces_of_mem_pieces (pieces ▸ member)
      obtain ⟨single, lastSingle⟩ := List.forall_mem_append.1 single
      have lastSingle := lastSingle last (.head _)
      refine outcome_of_joined (f := .var last) joined single splits.values shape
        (fun several => loose_of_unpowered ahead (free several)) ?_ ?_
      · rintro t st' kind rfl shape
        have read : Reads (operand v stop' p.spaced st') _ _ :=
          reads_operand_word shape kind ((beside kind).1 apart) value
        rw [productOfNames_of_single lastSingle] at read
        exact ⟨_, read, start kind⟩
      · intro a fs factors
        rw [← List.map_singleton (f := Expr.var), ← List.map_append] at factors
        obtain ⟨first, others, shape⟩ := List.exists_cons_of_ne_nil
          (List.append_ne_nil_of_right_ne_nil names (List.cons_ne_nil last []))
        rw [shape, List.map_cons] at factors
        obtain ⟨rfl, rfl⟩ := List.cons.inj factors
        exact regrouped_productOfNames (pieces.trans shape)
  · have opens : (adjacent p.spaced ⟨some word, after⟩).any (·.kind == .openParen) = true :=
      Bool.not_eq_false _ ▸ notApart
    rw [if_pos opens, if_neg (by rw [notFunction]; decide), ending] at done
    dsimp only at done
    split at done
    next => cases done
    next c st₂ h₂ first =>
      cases done
      rw [behindParens_of_call opens first] at free
      obtain ⟨nonempty, -, isFunction, -⟩ := v.functionEnding?_eq_some ending
      refine outcome_of_joined (f := c) joined (fun name => pieces_of_mem_pieces) splits.values
        shape (fun _ => loose_of_unpowered ahead free) ?_ ?_
      · rintro t st' kind rfl shape
        have both : Agrees true Eq (call v stop t.text ⟨some word, after⟩)
            (call v stop' t.text ⟨some t, us'⟩) :=
          (start kind).call Expr.isCongruence_eq t.text
        rcases both with ⟨_, _, failed, -⟩ | ⟨_, _, _, c', st₂', h₂', first', read, rfl, same⟩
        · rw [first] at failed
          cases failed
        · rw [first] at first'
          cases first'
          exact ⟨st₂', reads_operand_function shape kind isFunction
            (fun apart => notApart ((beside kind).2 apart)) ⟨h₂', read⟩, same⟩
      · intro a fs factors
        obtain ⟨first, others, pieces⟩ :=
          List.exists_cons_of_ne_nil (pieces_ne_nil_of_toList (v := v) nonempty)
        rw [pieces, List.map_cons, List.cons_append] at factors
        obtain ⟨rfl, rfl⟩ := List.cons.inj factors
        rw [Expr.product_append]
        exact (regrouped_productOfNames pieces).binary rfl .times true

end Word

/-! ## The readers -/

namespace State.Joins

variable {v : Vocabulary} {stop : Nat} (stop' : Nat)

-- by recursion on what is left to read, as the readers themselves
mutual

theorem expression {p : Place} {spaced : Bool} {least : Binding} {st st' st₁ : State} {e : Expr}
    (joins : st.Joins v p st') (inside : p.spaced = spaced)
    (done : Reads (Parser.expression v stop spaced least st) e st₁) :
    ∃ e' st₁', Reads (Parser.expression v stop' spaced least st') e' st₁' ∧
      Outcome v stop' spaced p (Binding.unary ≤ least ∧ p.tight = false) e st₁ e' st₁' := by
  obtain ⟨left, st₂, first, second⟩ := exists_of_reads_expression done
  obtain ⟨left', st₂', first', outcome⟩ := joins.operand inside first (upcoming_of_chain second)
  have fewer := first.1
  rcases outcome with ⟨alike, joins⟩ | ⟨loose, pending⟩
  · obtain ⟨e', st₁', second', alike, joins⟩ := joins.chain inside alike second
    exact ⟨e', st₁', reads_expression first' second', .inl ⟨alike, joins⟩⟩
  · by_cases tight : Binding.unary ≤ least
    · -- the factors are too loose for this chain
      obtain ⟨rfl, rfl⟩ := eq_of_reads_chain (pending.loose.mono tight) second
      obtain ⟨⟨f, fs, st₃, trail, -⟩, -⟩ := id pending
      have ends := reads_chain_nil v stop' left' (trail.loose.mono tight)
      exact ⟨left', st₂', reads_expression first' ends, .inr ⟨⟨tight, loose⟩, pending⟩⟩
    · have loose : least ≤ Binding.multiplicative := Nat.le_of_lt_succ (Nat.not_le.1 tight)
      obtain ⟨left'', st₂'', alike, joins, goOn⟩ := pending.settles loose p.behind
      obtain ⟨e', st₁', second', alike, joins⟩ := joins.chain inside alike second
      exact ⟨e', st₁', reads_expression first' (goOn second'), .inl ⟨alike, joins⟩⟩
termination_by 8 * st.size + 4

theorem chain {p : Place} {spaced : Bool} {least : Binding} {left left' e : Expr}
    {st st' st₁ : State} (joins : st.Joins v p.behind st') (inside : p.spaced = spaced)
    (alike : left.Regrouped left') (done : Reads (Parser.chain v stop spaced least left st) e st₁) :
    ∃ e' st₁', Reads (Parser.chain v stop' spaced least left' st') e' st₁' ∧
      e.Regrouped e' ∧ st₁.Joins v p.behind st₁' := by
  rcases chain_cases done with ⟨rfl, rfl, found, ahead, below⟩ |
    ⟨op, right, st₂, ahead, tight, first, second⟩ |
    ⟨op, t, ts, right, st₂, ahead, tight, shape, kind, first, second⟩
  · exact ⟨left', st', reads_chain_nil v stop' left' ⟨found, joins.upcoming ahead, below⟩, alike,
      joins⟩
  · have fewer := first.1
    obtain ⟨right', st₂', first', outcome⟩ := joins.expression inside first
    obtain ⟨both, st₃, alike, joins₃, goOn⟩ :=
      outcome.continues alike (fun _ => eq_times_of_upcoming ahead) tight true
    obtain ⟨e', st₁', second', alike, joins₁⟩ := joins₃.chain inside alike second
    exact ⟨e', st₁', reads_chain_attached (joins.upcoming ahead) tight first' (goOn second'), alike,
      joins₁⟩
  · have fewer := first.1.trans (size_lt_of_skipBlanks shape)
    have shorter := size_lt_of_skipBlanks shape
    obtain ⟨u, us, shape', same, joins₀⟩ :=
      joins.next_of_ne (exists_next shape).choose_spec (by simp [kind])
    obtain ⟨right', st₂', first', outcome⟩ :=
      joins₀.expression ((Place.spaced_after kind).trans inside) first
    obtain ⟨both, st₃, alike, joins₃, goOn⟩ :=
      outcome.continues alike (fun here => Place.eq_times_of_after kind here.1 here.2) tight false
    rw [Place.behind_after kind] at joins₃
    obtain ⟨e', st₁', second', alike, joins₁⟩ := joins₃.chain inside alike second
    exact ⟨e', st₁', reads_chain_operator (joins.upcoming ahead) tight shape' first' (goOn second'),
      alike, joins₁⟩
termination_by 8 * st.size + 5

theorem operand {p : Place} {spaced : Bool} {st st' st₁ : State} {e : Expr}
    (joins : st.Joins v p st') (inside : p.spaced = spaced)
    (done : Reads (Parser.operand v stop spaced st) e st₁)
    (ahead : ∃ found, Parser.upcoming spaced st₁ = .ok found) :
    ∃ e' st₁', Reads (Parser.operand v stop' spaced st') e' st₁' ∧
      Outcome v stop' spaced p (p.tight = false) e st₁ e' st₁' := by
  obtain ⟨fewer, done⟩ := done
  rw [Parser.operand] at done
  split at done
  next => cases done
  next t st₂ h₂ found =>
    split at done
    next sign isSign =>
      split at done
      next => cases done
      next f st₃ h₃ first =>
        cases done
        obtain ⟨op, kind, -⟩ := kind_of_sign isSign
        obtain ⟨u, us, shape, same, joins⟩ := joins.next_of_ne found (by simp [kind])
        rw [Place.after_sign isSign] at joins
        obtain ⟨e', st₁', first', outcome⟩ := joins.expression inside ⟨_, first⟩
        rw [signOf?_same same] at isSign
        exact ⟨_, st₁', reads_operand_sign shape isSign first', outcome.unary And.right sign⟩
    next noSign =>
      rcases joins.next found with ⟨u, us, shape, same, joins⟩ |
        ⟨names, last, us, us', shape, splits, joined, rest⟩
      · obtain ⟨e', st₁', read, alike, joins⟩ := joins.primary inside same shape done
        exact ⟨e', st₁', read, .inl ⟨alike, joins⟩⟩
      · rw [Parser.primary, splits.kind] at done
        obtain ⟨found', ahead⟩ := ahead
        obtain ⟨e', st₁', read, outcome⟩ :=
          reads_word stop' splits inside joined rest shape (shape_of_next found).1 done ahead
        exact ⟨e', st₁', read, outcome.imp_right fun pending => ⟨splits.loose pending.1, pending.2⟩⟩
termination_by 8 * st.size + 3

/-- A token that is the same in both begins the same operand. -/
theorem primary {p : Place} {spaced : Bool} {t u : Token} {us : List Token}
    {st₀ st st₀' st₁ : State} {h : st.size < st₀.size} {h₁ : st₁.size < st₀.size} {e : Expr}
    (joins : st.Joins v (p.after t) ⟨some u, us⟩) (inside : p.spaced = spaced) (same : t.Same u)
    (shape : skipBlanks st₀'.rest = u :: us)
    (done : Parser.primary v stop spaced t st₀ st h = .ok (e, ⟨st₁, h₁⟩)) :
    ∃ e' st₁', Reads (Parser.operand v stop' spaced st₀') e' st₁' ∧ e.Regrouped e' ∧
      st₁.Joins v p.behind st₁' := by
  rw [Parser.primary] at done
  have kind := same.kind
  split at done
  next n number =>
    cases done
    rw [Place.after, number] at joins
    exact ⟨_, _, reads_operand_number shape (kind.symm.trans number), rfl, joins⟩
  next name =>
    rw [Place.after, name] at joins
    obtain ⟨e', st₁', read, alike, joins⟩ := joins.identifier same done
    exact ⟨e', st₁', reads_operand_identifier shape (kind.symm.trans name) read, alike, joins⟩
  next opens =>
    rw [Place.after, opens] at joins
    split at done
    next => cases done
    next f st₂ h₂ first =>
      split at done
      next => cases done
      next st₃ h₃ second =>
        cases done
        obtain ⟨e', st₂', first', outcome⟩ := joins.expression rfl ⟨_, first⟩
        obtain ⟨alike, joins⟩ := outcome.settled fun tight => absurd tight.1 (by decide)
        obtain ⟨closing, found, closes⟩ := next_of_close second
        obtain ⟨u', us', shape', same', joins⟩ := joins.next_of_ne found (by simp [closes])
        rw [Place.after, closes] at joins
        exact ⟨e', _, reads_operand_paren shape (kind.symm.trans opens) first' shape'
          (same'.kind.symm.trans closes), alike, joins⟩
  next opens =>
    rw [Place.after, opens] at joins
    split at done
    next => cases done
    next es st₂ h₂ first =>
      split at done
      next => cases done
      next rows st₃ h₃ second =>
        split at done
        next => cases done
        next tree third =>
          cases done
          obtain ⟨es', st₂', first', related, joins⟩ := joins.row u rfl .nil ⟨_, first⟩
          obtain ⟨rows', st₃', second', related, joins⟩ :=
            moreRows (p := p) joins inside (.cons related .nil) ⟨_, second⟩
          rcases agree_bracketOf Expr.isCongruence_regrouped related t.start st₁.stop u.start
            st₃'.stop with ⟨_, _, failed, -⟩ | ⟨_, e', third', tree', alike⟩
          · rw [third] at failed
            cases failed
          · rw [third] at third'
            cases third'
            exact ⟨e', st₃', reads_operand_bracket shape (kind.symm.trans opens) first' second'
              tree', alike, joins⟩
  next => cases done
termination_by 8 * st₀.size + 2

theorem identifier {p : Place} {spaced : Bool} {t u : Token} {us : List Token}
    {st₀ st st₁ : State} {h : st.size < st₀.size} {h₁ : st₁.size < st₀.size} {e : Expr}
    (joins : st.Joins v p.behind ⟨some u, us⟩) (same : t.Same u)
    (done : Parser.identifier v stop spaced t st₀ st h = .ok (e, ⟨st₁, h₁⟩)) :
    ∃ e' st₁', (∀ {st₀' : State} (h' : State.size ⟨some u, us⟩ < st₀'.size),
        Reads (Parser.identifier v stop' spaced u st₀' ⟨some u, us⟩ h') e' st₁') ∧
      e.Regrouped e' ∧ st₁.Joins v p.behind st₁' := by
  simp only [Parser.identifier] at done ⊢
  rw [← same.text, ← joins.adjacent spaced]
  split at done
  next beside =>
    split at done
    next isFunction =>
      split at done
      next => cases done
      next first =>
        cases done
        obtain ⟨e', st₁', ⟨_, read⟩, alike, joins⟩ := joins.call beside ⟨_, first⟩
        simp only [beside, isFunction, if_true, read]
        exact ⟨e', st₁', fun _ => ⟨_, rfl⟩, alike, joins⟩
    next notFunction =>
      split at done
      next ending =>
        split at done
        next => cases done
        next first =>
          cases done
          obtain ⟨e', st₁', ⟨_, read⟩, alike, joins⟩ := joins.call beside ⟨_, first⟩
          simp only [beside, if_true, notFunction, read]
          exact ⟨_, st₁', fun _ => ⟨_, rfl⟩, Expr.Regrouped.binary rfl alike _ _, joins⟩
      next ending =>
        split at done
        next known =>
          cases done
          simp only [beside, if_true, notFunction, known]
          exact ⟨_, _, fun _ => ⟨_, rfl⟩, rfl, joins⟩
        next unknown =>
          split at done
          next => cases done
          next first =>
            cases done
            obtain ⟨e', st₁', ⟨_, read⟩, alike, joins⟩ := joins.call beside ⟨_, first⟩
            simp only [beside, if_true, notFunction, unknown, read]
            exact ⟨e', st₁', fun _ => ⟨_, rfl⟩, alike, joins⟩
  next apart =>
    split at done
    next => cases done
    next value =>
      cases done
      simp only [apart, value]
      exact ⟨_, _, fun _ => ⟨_, rfl⟩, rfl, joins⟩
termination_by 8 * st₀.size + 1

theorem call {p : Place} {spaced : Bool} {name : String} {st st' st₁ : State} {e : Expr}
    (joins : st.Joins v p.behind st')
    (beside : (Parser.adjacent spaced st).any (·.kind == .openParen) = true)
    (done : Reads (Parser.call v stop name st) e st₁) :
    ∃ e' st₁', Reads (Parser.call v stop' name st') e' st₁' ∧ e.Regrouped e' ∧
      st₁.Joins v p.behind st₁' := by
  obtain ⟨fewer, done⟩ := done
  rw [Parser.call] at done
  split at done
  next => cases done
  next opening st₂ h₂ found =>
    have opens : opening.kind = .openParen := kind_of_adjacent beside found (by decide)
    obtain ⟨u, us, shape, same, joins⟩ := joins.next_of_ne found (by simp [opens])
    rw [Place.after, opens] at joins
    split at done
    next text start st₃ h₃ closed =>
      cases done
      obtain ⟨u', us', shape', same', joins⟩ := joins.next_of_ne closed (by simp)
      exact ⟨_, _, reads_call_nil shape shape' same'.kind.symm, rfl, joins⟩
    next =>
      split at done
      next => cases done
      next args st₃ h₃ first =>
        cases done
        obtain ⟨t, _, visible, other⟩ := exists_next_of_arguments first
        obtain ⟨u', us', shape', kind⟩ := joins.kind_next visible
        obtain ⟨args', st₁', first', related, joins⟩ := joins.arguments u rfl .nil ⟨_, first⟩
        refine ⟨_, st₁', reads_call shape ?_ first',
          Expr.isCongruence_regrouped.call related, joins⟩
        rw [shape']
        rintro _ ⟨⟩
        exact fun closes => other (kind.trans closes)
termination_by 8 * st.size

theorem arguments {q : Place} {opening : Token} (opening' : Token) {before before' args : List Expr}
    {st st' st₁ : State} (joins : st.Joins v q st') (inside : q.spaced = false)
    (related : List.Forall₂ Expr.Regrouped before before')
    (done : Reads (Parser.arguments v stop opening before st) args st₁) :
    ∃ args' st₁', Reads (Parser.arguments v stop' opening' before' st') args' st₁' ∧
      List.Forall₂ Expr.Regrouped args args' ∧ st₁.Joins v q.closed st₁' := by
  obtain ⟨fewer, done⟩ := done
  rw [Parser.arguments] at done
  split at done
  next => cases done
  next e st₂ h₂ first =>
    obtain ⟨e', st₂', first', outcome⟩ := joins.expression inside ⟨_, first⟩
    obtain ⟨alike, joins⟩ := outcome.settled fun tight => absurd tight.1 (by decide)
    have snoc : List.Forall₂ Expr.Regrouped (before ++ [e]) (before' ++ [e']) :=
      List.rel_append related (.cons alike .nil)
    split at done
    next text start st₃ h₃ comma =>
      split at done
      next => cases done
      next second =>
        cases done
        obtain ⟨u, us, shape, same, joins⟩ := joins.next_of_ne comma (by simp)
        obtain ⟨args', st₁', second', related, joins⟩ :=
          arguments (q := q.behind) opening' joins inside snoc ⟨_, second⟩
        exact ⟨args', st₁', reads_arguments_cons first' shape same.kind.symm second', related,
          joins⟩
    next =>
      split at done
      next => cases done
      next st₃ h₃ second =>
        cases done
        obtain ⟨closing, found, closes⟩ := next_of_close second
        obtain ⟨u, us, shape, same, joins⟩ := joins.next_of_ne found (by simp [closes])
        rw [Place.after, closes] at joins
        exact ⟨_, _, reads_arguments_last first' shape (same.kind.symm.trans closes), snoc, joins⟩
termination_by 8 * st.size + 5

theorem row {q : Place} {opening : Token} (opening' : Token) {before before' es : List Expr}
    {wanted : Bool} {st st' st₁ : State} (joins : st.Joins v q st') (inside : q.spaced = true)
    (related : List.Forall₂ Expr.Regrouped before before')
    (done : Reads (Parser.row v stop opening before wanted st) es st₁) :
    ∃ es' st₁', Reads (Parser.row v stop' opening' before' wanted st') es' st₁' ∧
      List.Forall₂ Expr.Regrouped es es' ∧ st₁.Joins v q.closed st₁' := by
  obtain ⟨fewer, done⟩ := done
  rw [Parser.row] at done
  split at done
  next => cases done
  next t st₂ h₂ found =>
    split at done
    next closes =>
      obtain ⟨u, us, shape, same, joins⟩ := joins.next_of_ne found (by simp [closes])
      rw [Place.after, closes] at joins
      split at done
      next => cases done
      next complete =>
        cases done
        obtain rfl := Bool.eq_false_iff.2 complete
        exact ⟨before', _, reads_row_nil before' shape (same.kind.symm.trans closes), related,
          joins⟩
    next comma =>
      obtain ⟨u, us, shape, same, joins⟩ := joins.next_of_ne found (by simp [comma])
      rw [Place.after, comma] at joins
      split at done
      next => cases done
      next complete =>
        obtain ⟨rfl, some_element⟩ := Bool.or_eq_false_iff.1 (Bool.eq_false_iff.2 complete)
        split at done
        next => cases done
        next first =>
          cases done
          have some_element' : before'.isEmpty = false := by
            cases related with
            | nil => exact some_element
            | cons => rfl
          obtain ⟨es', st₁', first', related, joins⟩ :=
            row (q := q.behind) opening' joins inside related ⟨_, first⟩
          exact ⟨es', st₁', reads_row_comma shape (same.kind.symm.trans comma) some_element' first',
            related, joins⟩
    next noClose noComma =>
      obtain ⟨u, us, shape, kind⟩ := joins.kind_next found
      split at done
      next => cases done
      next e st₃ h₃ first =>
        split at done
        next => cases done
        next second =>
          cases done
          obtain ⟨e', st₃', first', outcome⟩ := joins.expression inside ⟨_, first⟩
          obtain ⟨alike, joins⟩ := outcome.settled fun tight => absurd tight.1 (by decide)
          obtain ⟨es', st₁', second', related, joins⟩ :=
            row (q := q.behind) opening' joins inside (List.rel_append related (.cons alike .nil))
              ⟨_, second⟩
          exact ⟨es', st₁', reads_row_cons shape (fun closes => noClose (kind.trans closes))
            (fun comma => noComma (kind.trans comma)) first' second', related, joins⟩
termination_by 8 * st.size + 6

theorem moreRows {p : Place} {spaced : Bool} {before before' rows : List (List Expr)}
    {st st' st₁ : State} (joins : st.Joins v p.behind st') (inside : p.spaced = spaced)
    (related : List.Forall₂ (List.Forall₂ Expr.Regrouped) before before')
    (done : Reads (Parser.moreRows v stop spaced before st) rows st₁) :
    ∃ rows' st₁', Reads (Parser.moreRows v stop' spaced before' st') rows' st₁' ∧
      List.Forall₂ (List.Forall₂ Expr.Regrouped) rows rows' ∧ st₁.Joins v p.behind st₁' := by
  obtain ⟨fewer, done⟩ := done
  have adjacent := joins.adjacent spaced .openBracket
  rw [Parser.moreRows] at done
  split at done
  next beside =>
    split at done
    next none =>
      obtain ⟨t, st₂, found⟩ := exists_next_of_adjacent beside (by decide)
      rw [none] at found
      cases found
    next opening st₂ h₂ found =>
      have opens : opening.kind = .openBracket := kind_of_adjacent beside found (by decide)
      obtain ⟨u, us, shape, same, joins⟩ := joins.next_of_ne found (by simp [opens])
      rw [Place.after, opens] at joins
      split at done
      next => cases done
      next es st₃ h₃ first =>
        split at done
        next => cases done
        next second =>
          cases done
          obtain ⟨es', st₃', first', here, joins⟩ := joins.row u rfl .nil ⟨_, first⟩
          obtain ⟨rows', st₁', second', related, joins⟩ := moreRows (p := p) joins inside
            (List.rel_append related (.cons here .nil)) ⟨_, second⟩
          exact ⟨rows', st₁', reads_moreRows_beside shape (adjacent ▸ beside) first' second',
            related, joins⟩
  next apart =>
    cases done
    have apart' := adjacent.symm.trans (Bool.eq_false_iff.2 apart)
    exact ⟨before', st', reads_moreRows_nil v stop' before' apart', related, joins⟩
termination_by 8 * st.size + 7

end

end State.Joins

end Parser

end Reckon
