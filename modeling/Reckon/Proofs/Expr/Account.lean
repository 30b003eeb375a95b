import Reckon.Proofs.Expr.Yield

/-!
# Where the pieces of a text go

Every reader accounts for the tokens that it was given: it stops with a fault at a place of the
text, or what it has read, followed by the tokens that are left, has the pieces that were there
before. So nothing is lost, taken twice or moved (`pieces_of_read`), and every fault of a text
points into it or right behind it (`read_or_within`).
-/

namespace Reckon

namespace Parser

variable {v : Vocabulary} {length : Nat}

/-- The tokens that are left lie inside of a text of this length, and so does the last one. -/
structure State.Proper (length : Nat) (st : State) : Prop where
  last : ∀ t ∈ st.last, t.Proper length
  rest : ∀ t ∈ st.rest, t.Proper length

/-- A fault lies inside of a text of this length; what has been read satisfies `P`. -/
def Meets {α : Type} (length : Nat) (P : α → Prop) : Except SyntaxFault α → Prop
  | .error fault => fault.Within length
  | .ok a => P a

/-- What has been read and what is left have the pieces that were given. -/
def Accounts {α : Type} {n : Nat} (length : Nat) (yield : α → List Piece) (given : List Piece)
    (result : Result α n) : Prop :=
  Meets length (fun (a, st) => st.1.Proper length ∧ yield a ++ pieces st.1.rest = given) result

section Outcome

variable {α : Type} {n : Nat} {P : α → Prop} {yield : α → List Piece} {given : List Piece}

theorem Meets.fault {result : Except SyntaxFault α} (meets : Meets length P result)
    {fault : SyntaxFault} (failed : result = .error fault) : fault.Within length := by
  rwa [failed] at meets

theorem Meets.value {result : Except SyntaxFault α} (meets : Meets length P result) {a : α}
    (done : result = .ok a) : P a := by
  rwa [done] at meets

theorem Accounts.fault {result : Result α n} (accounts : Accounts length yield given result)
    {fault : SyntaxFault} (failed : result = .error fault) : fault.Within length :=
  Meets.fault accounts failed

theorem Accounts.state {result : Result α n} (accounts : Accounts length yield given result)
    {a : α} {st : { st : State // st.size < n }} (done : result = .ok (a, st)) :
    st.1.Proper length ∧ yield a ++ pieces st.1.rest = given :=
  Meets.value accounts done

end Outcome

/-! ## The next token -/

theorem shape_of_next {st : State} {t : Token} {st' : { s : State // s.size < st.size }}
    (found : next st = some (t, st')) :
    st'.1.last = some t ∧ skipBlanks st.rest = t :: st'.1.rest := by
  unfold next at found
  split at found
  next => cases found
  next shape =>
    cases found
    exact ⟨rfl, shape⟩

theorem skipBlanks_of_next {st : State} (ends : next st = none) : skipBlanks st.rest = [] := by
  unfold next at ends
  split at ends
  next shape => exact shape
  next => cases ends

theorem upcoming_of_next {spaced : Bool} {st : State} (ends : next st = none) :
    upcoming spaced st = .ok none := by
  rw [upcoming, skipBlanks_of_next ends]

theorem State.Proper.next {st : State} {t : Token} {st' : { s : State // s.size < st.size }}
    (proper : st.Proper length) (found : next st = some (t, st')) :
    t.Proper length ∧ st'.1.Proper length ∧ t.pieces ++ pieces st'.1.rest = pieces st.rest := by
  obtain ⟨last, shape⟩ := shape_of_next found
  have inside : ∀ u ∈ t :: st'.1.rest, u.Proper length := fun u member =>
    proper.rest u (mem_of_mem_skipBlanks (shape ▸ member))
  obtain ⟨here, rest⟩ := List.forall_mem_cons.1 inside
  refine ⟨here, ⟨fun u member => ?_, rest⟩, (pieces_of_skipBlanks shape).symm⟩
  rw [last] at member
  cases member
  exact here

theorem State.Proper.stop_le {st : State} (proper : st.Proper length) : st.stop ≤ length := by
  have last := proper.last
  unfold State.stop
  cases shape : st.last with
  | none => exact Nat.zero_le _
  | some t =>
    rw [shape] at last
    exact (last t rfl).stop

/-- Reading starts in front of the first token, with none behind it. -/
theorem proper_start {tokens : List Token} (proper : ∀ t ∈ tokens, t.Proper length) :
    State.Proper length ⟨none, tokens⟩ :=
  ⟨fun _ last => absurd last (Option.some_ne_none _).symm, proper⟩

theorem within_of_upcoming {spaced : Bool} {st : State} {fault : SyntaxFault}
    (proper : st.Proper length) (failed : upcoming spaced st = .error fault) :
    fault.Within length := by
  unfold upcoming at failed
  split at failed
  next => cases failed
  next t ts shape =>
    dsimp only at failed
    split at failed
    · split at failed <;> cases failed
    · split at failed
      · cases failed
      split at failed
      · cases failed
        exact .atToken _ (proper.rest t (mem_of_mem_skipBlanks (shape ▸ List.mem_cons_self)))
      · cases failed

/-- An operator that goes on with an expression is the next token. -/
theorem kind_of_upcoming {spaced : Bool} {op : Operator} {st : State} {t : Token}
    {st' : { s : State // s.size < st.size }} (ahead : upcoming spaced st = .ok (some (op, false)))
    (found : next st = some (t, st')) : t.kind = .operator op := by
  unfold upcoming at ahead
  rw [(shape_of_next found).2] at ahead
  dsimp only at ahead
  split at ahead
  next op' kind =>
    split at ahead
    · cases ahead
    cases ahead
    exact kind
  next =>
    split at ahead
    · cases ahead
    split at ahead <;> cases ahead

theorem pieces_of_upcoming {spaced : Bool} {op : Operator} {st : State} {t : Token}
    {st' : { s : State // s.size < st.size }} (ahead : upcoming spaced st = .ok (some (op, false)))
    (found : next st = some (t, st')) (proper : t.Proper length) :
    t.pieces = [.mark op.symbol] := by
  have operator := kind_of_upcoming ahead found
  rw [Token.pieces, operator, ← proper.symbol op operator]

/-- The token that stands right after a name or a bracket is the next one, unless it is blank. -/
theorem kind_of_adjacent {spaced : Bool} {kind : TokenKind} {st : State} {t : Token}
    {st' : { s : State // s.size < st.size }}
    (beside : (adjacent spaced st).any (·.kind == kind) = true) (found : next st = some (t, st'))
    (visible : kind ≠ .space) : t.kind = kind := by
  unfold adjacent at beside
  split at beside
  · have shape := (shape_of_next found).2
    cases rest : st.rest with
    | nil =>
      rw [rest] at beside
      cases beside
    | cons u us =>
      rw [rest, List.head?_cons, Option.any_some, beq_iff_eq] at beside
      have isSpace : u.isSpace = false := by
        rw [Token.isSpace, beside, beq_eq_false_iff_ne]
        exact visible
      rw [rest, skipBlanks, isSpace, if_neg Bool.false_ne_true] at shape
      cases shape
      exact beside
  · rwa [found, Option.map_some, Option.any_some, beq_iff_eq] at beside

theorem kind_of_sign {sign : Sign} {t : Token} (found : signOf? t = some sign) :
    ∃ op, t.kind = .operator op ∧ op.symbol = sign.symbol := by
  unfold signOf? at found
  split at found
  next kind =>
    cases found
    exact ⟨_, kind, rfl⟩
  next kind =>
    cases found
    exact ⟨_, kind, rfl⟩
  next => cases found

theorem pieces_of_sign {sign : Sign} {t : Token} (found : signOf? t = some sign)
    (proper : t.Proper length) : t.pieces = [.mark sign.symbol] := by
  obtain ⟨op, kind, symbol⟩ := kind_of_sign found
  rw [Token.pieces, kind, proper.symbol op kind, symbol]

/-! ## Brackets -/

theorem within_of_matrixOf {rows : List Expr} {start stop : Nat} {fault : SyntaxFault}
    (le : start ≤ length) (le' : stop ≤ length) (failed : matrixOf rows start stop = .error fault) :
    fault.Within length := by
  unfold matrixOf at failed
  split at failed
  · cases failed
  dsimp only at failed
  split at failed
  · cases failed
    exact .between _ le le'
  split at failed
  · cases failed
    exact .single _ le
  · cases failed

theorem within_of_bracketOf {rows : List (List Expr)} {start stop : Nat} {fault : SyntaxFault}
    (le : start ≤ length) (le' : stop ≤ length)
    (failed : bracketOf rows start stop = .error fault) : fault.Within length := by
  unfold bracketOf at failed
  split at failed
  · cases failed
  · split at failed
    · exact within_of_matrixOf le le' failed
    · cases failed
  · exact within_of_matrixOf le le' failed

/-! ## The readers -/

theorem accounts_close {opening : Token} {st : State} (isOpening : opening.Proper length)
    (proper : st.Proper length) :
    Accounts length (fun _ => []) (pieces st.rest) (close opening st) := by
  unfold close
  split
  next => exact .single _ isOpening.start
  next t st₁ found =>
    obtain ⟨here, proper₁, taken⟩ := proper.next found
    split
    next closes =>
      rw [beq_iff_eq] at closes
      rw [Token.pieces, closes] at taken
      exact ⟨proper₁, taken⟩
    next => exact .atToken _ here

-- by recursion on what is left to read; the summands order the readers that start at the same place
mutual

theorem accounts_expression {spaced : Bool} {least : Binding} {st : State}
    (proper : st.Proper length) :
    Accounts length Expr.yield (pieces st.rest) (expression v length spaced least st) := by
  rw [expression]
  split
  next first => exact (accounts_operand proper).fault first
  next left st₁ h₁ first =>
    obtain ⟨proper₁, taken⟩ := (accounts_operand proper).state first
    rw [← taken]
    split
    next second => exact (accounts_chain left proper₁).fault second
    next second => exact (accounts_chain left proper₁).state second
termination_by 8 * st.size + 4

theorem accounts_chain {spaced : Bool} {least : Binding} (left : Expr) {st : State}
    (proper : st.Proper length) :
    Accounts length Expr.yield (left.yield ++ pieces st.rest)
      (chain v length spaced least left st) := by
  rw [chain]
  split
  next ahead => exact within_of_upcoming proper ahead
  next => exact ⟨proper, rfl⟩
  next op _ =>
    split
    next => exact ⟨proper, rfl⟩
    next =>
      split
      next first => exact (accounts_expression proper).fault first
      next right st₁ h₁ first =>
        obtain ⟨proper₁, taken⟩ := (accounts_expression proper).state first
        -- an unwritten sign adds nothing between the operands
        have joined : (Expr.binary op true left right).yield ++ pieces st₁.rest =
            left.yield ++ pieces st.rest := by
          rw [← taken, Expr.yield, if_pos rfl, List.nil_append, List.append_assoc]
        rw [← joined]
        split
        next second => exact (accounts_chain _ proper₁).fault second
        next second => exact (accounts_chain _ proper₁).state second
  next op ahead =>
    split
    next => exact ⟨proper, rfl⟩
    next =>
      split
      next => exact ⟨proper, rfl⟩
      next t st₀ h₀ found =>
        obtain ⟨here, proper₀, taken₀⟩ := proper.next found
        split
        next first => exact (accounts_expression proper₀).fault first
        next right st₁ h₁ first =>
          obtain ⟨proper₁, taken⟩ := (accounts_expression proper₀).state first
          have joined : (Expr.binary op false left right).yield ++ pieces st₁.rest =
              left.yield ++ pieces st.rest := by
            rw [← taken₀, ← taken, pieces_of_upcoming ahead found here, Expr.yield,
              if_neg Bool.false_ne_true, List.append_assoc, List.append_assoc]
          rw [← joined]
          split
          next second => exact (accounts_chain _ proper₁).fault second
          next second => exact (accounts_chain _ proper₁).state second
termination_by 8 * st.size + 5

theorem accounts_operand {spaced : Bool} {st : State} (proper : st.Proper length) :
    Accounts length Expr.yield (pieces st.rest) (operand v length spaced st) := by
  rw [operand]
  split
  next => exact .single _ le_rfl
  next t st₁ h₁ found =>
    obtain ⟨here, proper₁, taken₁⟩ := proper.next found
    rw [← taken₁]
    split
    next sign isSign =>
      rw [pieces_of_sign isSign here]
      split
      next first => exact (accounts_expression proper₁).fault first
      next e st₂ h₂ first =>
        obtain ⟨proper₂, taken⟩ := (accounts_expression proper₁).state first
        exact ⟨proper₂, congrArg (Piece.mark sign.symbol :: ·) taken⟩
    next => exact accounts_primary h₁ here proper₁
termination_by 8 * st.size + 3

theorem accounts_primary {spaced : Bool} {t : Token} {st₀ st : State} (h : st.size < st₀.size)
    (here : t.Proper length) (proper : st.Proper length) :
    Accounts length Expr.yield (t.pieces ++ pieces st.rest)
      (primary v length spaced t st₀ st h) := by
  rw [primary]
  split
  next n kind =>
    rw [Token.pieces, kind]
    exact ⟨proper, rfl⟩
  next kind =>
    rw [Token.pieces, kind]
    exact accounts_identifier h here proper
  next kind =>
    rw [Token.pieces, kind, List.nil_append]
    split
    next first => exact (accounts_expression proper).fault first
    next e st₁ h₁ first =>
      obtain ⟨proper₁, taken⟩ := (accounts_expression proper).state first
      split
      next second => exact (accounts_close here proper₁).fault second
      next second =>
        obtain ⟨proper₂, closed⟩ := (accounts_close here proper₁).state second
        rw [List.nil_append] at closed
        exact ⟨proper₂, closed ▸ taken⟩
  next kind =>
    rw [Token.pieces, kind, List.nil_append]
    split
    next first => exact (accounts_row [] here proper).fault first
    next es st₁ h₁ first =>
      obtain ⟨proper₁, taken⟩ := (accounts_row [] here proper).state first
      split
      next second => exact (accounts_moreRows [es] proper₁).fault second
      next rows st₂ h₂ second =>
        obtain ⟨proper₂, taken₂⟩ := (accounts_moreRows [es] proper₁).state second
        split
        next third => exact within_of_bracketOf here.start proper₂.stop_le third
        next e third =>
          refine ⟨proper₂, ?_⟩
          rw [yield_bracketOf third, taken₂, List.flatMap_singleton, taken]
          rfl
  next => exact .atToken _ here
termination_by 8 * st₀.size + 2

theorem accounts_identifier {spaced : Bool} {t : Token} {st₀ st : State} (h : st.size < st₀.size)
    (here : t.Proper length) (proper : st.Proper length) :
    Accounts length Expr.yield (Piece.letters t.text ++ pieces st.rest)
      (identifier v length spaced t st₀ st h) := by
  have product : (v.productOfNames t.text).yield ++ pieces st.rest =
      Piece.letters t.text ++ pieces st.rest := by rw [v.yield_productOfNames]
  rw [identifier]
  split
  next opens =>
    split
    next =>
      split
      next first => exact (accounts_call t.text opens proper).fault first
      next first => exact (accounts_call t.text opens proper).state first
    next =>
      split
      next front function ending =>
        split
        next first => exact (accounts_call function opens proper).fault first
        next e st₁ h₁ first =>
          obtain ⟨proper₁, taken⟩ := (accounts_call function opens proper).state first
          refine ⟨proper₁, ?_⟩
          rw [← v.letters_functionEnding? ending, List.append_assoc, ← taken, Expr.juxtaposed,
            Expr.yield, if_pos rfl, List.nil_append, v.yield_productOfNames, List.append_assoc]
      next =>
        split
        next => exact ⟨proper, product⟩
        next =>
          split
          next first => exact (accounts_call t.text opens proper).fault first
          next first => exact (accounts_call t.text opens proper).state first
  next =>
    split
    next => exact .single _ here.stop
    next => exact ⟨proper, product⟩
termination_by 8 * st₀.size + 1

theorem accounts_call (name : String) {spaced : Bool} {st : State}
    (opens : (adjacent spaced st).any (·.kind == .openParen) = true) (proper : st.Proper length) :
    Accounts length Expr.yield (Piece.letters name ++ pieces st.rest) (call v length name st) := by
  rw [call]
  split
  next => exact .single _ le_rfl
  next opening st₁ h₁ found =>
    obtain ⟨here, proper₁, taken₁⟩ := proper.next found
    rw [Token.pieces, kind_of_adjacent opens found (by decide), List.nil_append] at taken₁
    rw [← taken₁]
    split
    next closes =>
      obtain ⟨-, proper₂, taken₂⟩ := proper₁.next closes
      refine ⟨proper₂, ?_⟩
      rw [← taken₂, Expr.yield, Expr.yieldAll, List.append_nil]
      rfl
    next =>
      split
      next first => exact (accounts_arguments [] here proper₁).fault first
      next args st₂ h₂ first =>
        obtain ⟨proper₂, taken₂⟩ := (accounts_arguments [] here proper₁).state first
        refine ⟨proper₂, ?_⟩
        rw [Expr.yield, List.append_assoc, taken₂]
        rfl
termination_by 8 * st.size

theorem accounts_arguments (before : List Expr) {opening : Token} {st : State}
    (isOpening : opening.Proper length) (proper : st.Proper length) :
    Accounts length Expr.yieldAll (Expr.yieldAll before ++ pieces st.rest)
      (arguments v length opening before st) := by
  rw [arguments]
  split
  next first => exact (accounts_expression proper).fault first
  next e st₁ h₁ first =>
    obtain ⟨proper₁, taken₁⟩ := (accounts_expression proper).state first
    have more : Expr.yieldAll (before ++ [e]) ++ pieces st₁.rest =
        Expr.yieldAll before ++ pieces st.rest := by
      rw [← taken₁, Expr.yieldAll_append, Expr.yieldAll_singleton, List.append_assoc]
    rw [← more]
    split
    next st₂ h₂ comma =>
      obtain ⟨-, proper₂, taken₂⟩ := proper₁.next comma
      rw [← taken₂]
      split
      next second => exact (accounts_arguments (before ++ [e]) isOpening proper₂).fault second
      next second => exact (accounts_arguments (before ++ [e]) isOpening proper₂).state second
    next =>
      split
      next second => exact (accounts_close isOpening proper₁).fault second
      next second =>
        obtain ⟨proper₂, closed⟩ := (accounts_close isOpening proper₁).state second
        exact ⟨proper₂, congrArg _ closed⟩
termination_by 8 * st.size + 5

theorem accounts_row (before : List Expr) {opening : Token} {wanted : Bool} {st : State}
    (isOpening : opening.Proper length) (proper : st.Proper length) :
    Accounts length Expr.yieldAll (Expr.yieldAll before ++ pieces st.rest)
      (row v length opening before wanted st) := by
  rw [row]
  split
  next => exact .single _ isOpening.start
  next t st₁ h₁ found =>
    obtain ⟨here, proper₁, taken₁⟩ := proper.next found
    split
    next kind =>
      split
      next => exact .single _ here.start
      next =>
        rw [Token.pieces, kind, List.nil_append] at taken₁
        exact ⟨proper₁, congrArg _ taken₁⟩
    next kind =>
      split
      next => exact .single _ here.start
      next =>
        rw [Token.pieces, kind, List.nil_append] at taken₁
        rw [← taken₁]
        split
        next first => exact (accounts_row before isOpening proper₁).fault first
        next first => exact (accounts_row before isOpening proper₁).state first
    next =>
      split
      next first => exact (accounts_expression proper).fault first
      next e st₂ h₂ first =>
        obtain ⟨proper₂, taken₂⟩ := (accounts_expression proper).state first
        have more : Expr.yieldAll (before ++ [e]) ++ pieces st₂.rest =
            Expr.yieldAll before ++ pieces st.rest := by
          rw [← taken₂, Expr.yieldAll_append, Expr.yieldAll_singleton, List.append_assoc]
        rw [← more]
        split
        next second => exact (accounts_row (before ++ [e]) isOpening proper₂).fault second
        next second => exact (accounts_row (before ++ [e]) isOpening proper₂).state second
termination_by 8 * st.size + 6

theorem accounts_moreRows (before : List (List Expr)) {spaced : Bool} {st : State}
    (proper : st.Proper length) :
    Accounts length (·.flatMap Expr.yieldAll) (before.flatMap Expr.yieldAll ++ pieces st.rest)
      (moreRows v length spaced before st) := by
  rw [moreRows]
  split
  next opens =>
    split
    next => exact ⟨proper, rfl⟩
    next opening st₁ h₁ found =>
      obtain ⟨here, proper₁, taken₁⟩ := proper.next found
      rw [Token.pieces, kind_of_adjacent opens found (by decide), List.nil_append] at taken₁
      rw [← taken₁]
      split
      next first => exact (accounts_row [] here proper₁).fault first
      next es st₂ h₂ first =>
        obtain ⟨proper₂, taken₂⟩ := (accounts_row [] here proper₁).state first
        have more : (before ++ [es]).flatMap Expr.yieldAll ++ pieces st₂.rest =
            before.flatMap Expr.yieldAll ++ pieces st₁.rest := by
          rw [List.flatMap_append, List.flatMap_singleton, List.append_assoc, taken₂]
          rfl
        rw [← more]
        split
        next second => exact (accounts_moreRows (before ++ [es]) proper₂).fault second
        next second => exact (accounts_moreRows (before ++ [es]) proper₂).state second
  next => exact ⟨proper, rfl⟩
termination_by 8 * st.size + 7

end

/-! ## Definitions -/

theorem meets_definition {source : String} {name : Token} {params : List String}
    {rest : List Token} (here : name.Proper length) (proper : ∀ t ∈ rest, t.Proper length) :
    Meets length (fun (e, st) => st.Proper length ∧ e.yield ++ pieces st.rest =
        Piece.letters name.text ++ (params.flatMap Piece.letters ++ pieces rest))
      (definition v source length name params rest) := by
  have body : Accounts length Expr.yield (pieces rest)
      (expression (v.extend params) length false 0 ⟨none, rest⟩) :=
    accounts_expression (proper_start proper)
  unfold definition
  split
  next => exact .single _ le_rfl
  next =>
    split
    next first => exact body.fault first
    next first =>
      obtain ⟨proper', taken⟩ := body.state first
      split
      next => exact .between _ here.start proper'.stop_le
      next =>
        refine ⟨proper', ?_⟩
        rw [Expr.yield, List.append_assoc, List.append_assoc, taken]

/-! ## Whole texts -/

theorem meets_ofTokens {source : String} {tokens : List Token}
    (proper : ∀ t ∈ tokens, t.Proper source.length) :
    Meets source.length (fun e => e.yield = pieces tokens) (ofTokens v source tokens) := by
  have whole : Accounts source.length Expr.yield (pieces tokens)
      (expression v source.length false 0 ⟨none, tokens⟩) :=
    accounts_expression (proper_start proper)
  unfold ofTokens
  extract_lets stop read
  split
  next blank =>
    refine Eq.symm ?_
    rw [← pieces_skipBlanks, List.isEmpty_iff.1 blank]
    rfl
  next =>
    -- what has been read up to the check that nothing is left
    have reads : Meets source.length
        (fun x => x.2.Proper source.length ∧ x.1.yield ++ pieces x.2.rest = pieces tokens)
        read := by
      unfold read
      split
      next head =>
        obtain ⟨here, rest⟩ := mem_of_definitionHead? head
        rw [← pieces_definitionHead? head]
        exact meets_definition (proper _ here) fun t member => proper t (rest member)
      next =>
        split
        next first => exact whole.fault first
        next first => exact whole.state first
    clear_value read
    cases read with
    | error fault => exact reads.fault rfl
    | ok result =>
      obtain ⟨proper', taken⟩ := reads.value rfl
      dsimp only
      split
      next found => exact .atToken _ (proper'.next found).1
      next ends =>
        refine Eq.trans ?_ taken
        rw [← pieces_skipBlanks result.2.rest, skipBlanks_of_next ends]
        exact (List.append_nil _).symm

end Parser

/-- Reading a text comes to an end with a tree, or with a fault whose place is in the text or right
behind it. -/
theorem read_or_within (ctx : Context) (source : String) (names : List String) :
    (∃ e, ctx.read source names = .ok e) ∨
      ∃ fault, ctx.read source names = .error (.badSyntax fault source) ∧
        fault.Within source.length := by
  unfold Context.read
  split
  next e _ => exact .inl ⟨e, rfl⟩
  next fault failed =>
    refine .inr ⟨fault, rfl, ?_⟩
    unfold parse at failed
    split at failed
    next scanned =>
      cases failed
      exact within_of_scan scanned
    next scanned => exact (Parser.meets_ofTokens (proper_of_mem_scan scanned)).fault failed

/-- A tree that has been read has the pieces of the text, each once and in the same order. -/
theorem pieces_of_read {ctx : Context} {source : String} {names : List String} {e : Expr}
    (done : ctx.read source names = .ok e) :
    ∃ tokens, scan source = .ok tokens ∧ tokens.flatMap (·.text.toList) = source.toList ∧
      e.yield = tokens.flatMap Token.pieces := by
  unfold Context.read at done
  split at done
  next read =>
    cases done
    unfold parse at read
    split at read
    next => cases read
    next tokens scanned =>
      exact ⟨tokens, scanned, texts_scan scanned,
        (Parser.meets_ofTokens (proper_of_mem_scan scanned)).value read⟩
  next => cases done

/-- A sign, a word that is cut in front of a function, and a bracket with two elements. -/
theorem pieces_of_read_cut : ∃ e, Context.initial.read "-xsin(2)*[1 -3]" [] = .ok e ∧
    e.yield = [.mark "-", .letter 'x', .letter 's', .letter 'i', .letter 'n', .number 2, .mark "*",
      .number 1, .mark "-", .number 3] ∧
    ∃ tokens, scan "-xsin(2)*[1 -3]" = .ok tokens ∧ e.yield = tokens.flatMap Token.pieces := by
  have yield : (Context.initial.read "-xsin(2)*[1 -3]" []).toOption.map Expr.yield =
      some [.mark "-", .letter 'x', .letter 's', .letter 'i', .letter 'n', .number 2, .mark "*",
        .number 1, .mark "-", .number 3] := by decide +kernel
  cases done : Context.initial.read "-xsin(2)*[1 -3]" [] with
  | error fault =>
    rw [done] at yield
    cases yield
  | ok e =>
    rw [done] at yield
    obtain ⟨tokens, scanned, -, same⟩ := pieces_of_read done
    exact ⟨e, rfl, Option.some.inj yield, tokens, scanned, same⟩

end Reckon
