import Mathlib.Data.List.Forall2
import Mathlib.Data.Option.Basic
import Reckon.Context
import Reckon.Proofs.Expr.Local
import Reckon.Proofs.Token.Tiling

/-!
# Blanks between tokens

Outside of brackets a reader sees its tokens through `skipBlanks` only. So texts whose tokens differ
in blanks are read in the same way, and where the one is refused, the other is refused for the same
cause. Inside of brackets blanks separate elements; there the tokens have to be the same with their
blanks.

The readers are compared for any congruence of trees, since what they do depends on the tokens and
not on the trees that were read before.

Results: `State.Matches.expression`, `parse_blanks`.
-/

namespace Reckon

namespace Expr

/-- A relation that all constructions of the readers preserve, of trees that brackets treat
alike. -/
structure IsCongruence (R : Expr → Expr → Prop) : Prop where
  refl : ∀ e, R e e
  unary : ∀ {sign e e'}, R e e' → R (.unary sign e) (.unary sign e')
  binary : ∀ {op attached l l' r r'}, R l l' → R r r' →
    R (.binary op attached l r) (.binary op attached l' r')
  call : ∀ {name es es'}, List.Forall₂ R es es' → R (.call name es) (.call name es')
  vector : ∀ {es es'}, List.Forall₂ R es es' → R (.vector es) (.vector es')
  matrix : ∀ {rows rows'}, List.Forall₂ R rows rows' → R (.matrix rows) (.matrix rows')
  isVector : ∀ {e e'}, R e e' → e.isVector = e'.isVector
  width : ∀ {e e'}, R e e' → e.elements.length = e'.elements.length
  isMatrix : ∀ {e e'}, R e e' → ((∃ rows, e = .matrix rows) ↔ ∃ rows, e' = .matrix rows)

theorem isCongruence_eq : IsCongruence Eq := by
  have lists : ∀ {es es' : List Expr}, List.Forall₂ Eq es es' → es = es' := fun same => by
    rwa [List.forall₂_eq_eq_eq] at same
  exact {
    refl := fun _ => rfl
    unary := fun same => by rw [same]
    binary := fun left right => by rw [left, right]
    call := fun same => by rw [lists same]
    vector := fun same => by rw [lists same]
    matrix := fun same => by rw [lists same]
    isVector := fun same => by rw [same]
    width := fun same => by rw [same]
    isMatrix := fun same => by rw [same] }

/-- The tree without the text that a definition keeps. -/
def unsourced : Expr → Expr
  | .definition name params body _ => .definition name params body none
  | e => e

end Expr

namespace Parser

/-! ## Two readings -/

section Agreement

variable {α β : Type} {P : α → β → Prop}

/-- Both fail for the same cause, or both succeed with values that belong together. -/
def Agree (P : α → β → Prop) (r : Except SyntaxFault α) (r' : Except SyntaxFault β) : Prop :=
  (∃ fault fault', r = .error fault ∧ r' = .error fault' ∧ fault.cause = fault'.cause) ∨
    ∃ a b, r = .ok a ∧ r' = .ok b ∧ P a b

theorem Agree.fault {fault fault' : SyntaxFault} (cause : fault.cause = fault'.cause) :
    Agree P (.error fault) (.error fault') :=
  .inl ⟨fault, fault', rfl, rfl, cause⟩

theorem Agree.value {a : α} {b : β} (related : P a b) : Agree P (.ok a) (.ok b) :=
  .inr ⟨a, b, rfl, rfl, related⟩

theorem any_eq_of_forall₂ {as : List α} {bs : List β} {p : α → Bool} {q : β → Bool}
    (related : List.Forall₂ P as bs) (same : ∀ {a b}, P a b → p a = q b) : as.any p = bs.any q := by
  induction related with
  | nil => rfl
  | cons first _ ih => rw [List.any_cons, List.any_cons, same first, ih]

end Agreement

/-- The tokens that are no blanks. -/
def visible (ts : List Token) : List Token :=
  ts.filter (!·.isSpace)

theorem visible_skipBlanks (ts : List Token) : visible (skipBlanks ts) = visible ts := by
  induction ts with
  | nil => rfl
  | cons t ts ih =>
    rw [skipBlanks]
    split
    next blank => rw [ih, visible, visible, List.filter_cons_of_neg (by rw [blank]; decide)]
    next => rfl

theorem isSpace_of_skipBlanks {ts ts' : List Token} {t : Token} (shape : skipBlanks ts = t :: ts') :
    t.isSpace = false := by
  induction ts with
  | nil => cases shape
  | cons u us ih =>
    rw [skipBlanks] at shape
    split at shape
    next => exact ih shape
    next seen =>
      cases shape
      exact Bool.eq_false_iff.2 seen

theorem visible_of_skipBlanks {ts ts' : List Token} {t : Token} (shape : skipBlanks ts = t :: ts') :
    visible ts = t :: visible ts' := by
  rw [← visible_skipBlanks, shape, visible,
    List.filter_cons_of_pos (by rw [isSpace_of_skipBlanks shape]; rfl)]
  rfl

/-- The same tokens, also blank ones where these count: if `strict` holds, and if there are
brackets. -/
structure Matches (strict : Bool) (ts us : List Token) : Prop where
  visible : List.Forall₂ Token.Same (visible ts) (visible us)
  blanks : (strict = true ∨ ∃ t ∈ ts, t.kind = .openBracket) → List.Forall₂ Token.Same ts us

/-- The same tokens are left to be read. -/
structure State.Matches (strict : Bool) (st st' : State) : Prop where
  rest : Parser.Matches strict st.rest st'.rest
  last : st.last.any Token.isNumber = st'.last.any Token.isNumber

theorem visible_same {ts us : List Token} (same : List.Forall₂ Token.Same ts us) :
    List.Forall₂ Token.Same (visible ts) (visible us) := by
  induction same with
  | nil => exact .nil
  | @cons t u ts us here _ ih =>
    rw [visible, visible, List.filter_cons, List.filter_cons, here.isSpace]
    split
    · exact .cons here ih
    · exact ih

theorem Matches.of_same {ts us : List Token} (strict : Bool)
    (same : List.Forall₂ Token.Same ts us) : Matches strict ts us :=
  ⟨visible_same same, fun _ => same⟩

section Tokens

variable {strict : Bool} {ts us : List Token}

/-- Both are at their ends, or the same visible token stands first. -/
theorem Matches.skipBlanks (alike : Matches strict ts us) :
    (skipBlanks ts = [] ∧ skipBlanks us = []) ∨
    ∃ t u ts' us', skipBlanks ts = t :: ts' ∧ skipBlanks us = u :: us' ∧ t.Same u ∧
      Matches strict ts' us' ∧ (t.kind = .openBracket → Matches true ts' us') := by
  have seen := alike.visible
  cases shape : Parser.skipBlanks ts with
  | nil =>
    rw [← visible_skipBlanks ts, shape] at seen
    cases shape' : Parser.skipBlanks us with
    | nil => exact .inl ⟨rfl, rfl⟩
    | cons u us' =>
      rw [visible_of_skipBlanks shape'] at seen
      cases seen
  | cons t ts' =>
    rw [visible_of_skipBlanks shape] at seen
    cases shape' : Parser.skipBlanks us with
    | nil =>
      rw [← visible_skipBlanks us, shape'] at seen
      cases seen
    | cons u us' =>
      rw [visible_of_skipBlanks shape', List.forall₂_cons] at seen
      obtain ⟨here, seen⟩ := seen
      -- with its blanks, the rest is the same as far as that matters
      have exact : List.Forall₂ Token.Same ts us → List.Forall₂ Token.Same ts' us' := fun same => by
        have same := skipBlanks_same same
        rw [shape, shape', List.forall₂_cons] at same
        exact same.2
      have member : t ∈ ts := mem_of_mem_skipBlanks (shape ▸ List.mem_cons_self)
      refine .inr ⟨t, u, ts', us', rfl, rfl, here, ⟨seen, fun count => ?_⟩, fun bracket => ?_⟩
      · refine exact (alike.blanks (count.imp_right fun ⟨w, inside, bracket⟩ => ⟨w, ?_, bracket⟩))
        exact mem_of_mem_skipBlanks (shape ▸ List.mem_cons_of_mem _ inside)
      · exact .of_same _ (exact (alike.blanks (.inr ⟨t, member, bracket⟩)))

/-- The first visible token of the one is that of the other. -/
theorem Matches.of_skipBlanks {t : Token} {ts' : List Token} (alike : Matches strict ts us)
    (shape : Parser.skipBlanks ts = t :: ts') :
    ∃ u us', Parser.skipBlanks us = u :: us' ∧ t.Same u ∧ Matches strict ts' us' := by
  rcases alike.skipBlanks with ⟨first, -⟩ | ⟨t', u, ts₁, us₁, first, second, same, rest, -⟩
  · cases shape.symm.trans first
  · obtain ⟨rfl, rfl⟩ := List.cons.inj (shape.symm.trans first)
    exact ⟨u, us₁, second, same, rest⟩

theorem Matches.symm (alike : Matches strict ts us) : Matches strict us ts where
  visible := List.Forall₂.flip (alike.visible.imp fun _ _ => Token.Same.symm)
  blanks count := by
    refine List.Forall₂.flip ((alike.blanks (count.imp_right ?_)).imp fun _ _ => Token.Same.symm)
    rintro ⟨u, member, bracket⟩
    -- brackets are visible, so they are on both sides
    have seen : u ∈ Parser.visible us :=
      List.mem_filter.2 ⟨member, by simp [Token.isSpace, bracket]⟩
    have found : (Parser.visible us).any (·.kind == .openBracket) = true :=
      List.any_eq_true.2 ⟨u, seen, by simp [bracket]⟩
    rw [← any_eq_of_forall₂ (p := fun t : Token => t.kind == .openBracket) alike.visible
      fun same => by rw [same.kind]] at found
    obtain ⟨t, inside, same⟩ := List.any_eq_true.1 found
    exact ⟨t, (List.mem_filter.1 inside).1, eq_of_beq same⟩

theorem Matches.weaken (alike : Matches true ts us) (strict : Bool) : Matches strict ts us :=
  .of_same strict (alike.blanks (.inl rfl))

end Tokens

theorem State.Matches.weaken {st st' : State} (alike : st.Matches true st') (strict : Bool) :
    st.Matches strict st' :=
  ⟨alike.rest.weaken strict, alike.last⟩

/-! ## Brackets -/

theorem bracketOf_single {es : List Expr} {start stop : Nat}
    (single : ∀ inner, es ≠ [.matrix inner]) :
    bracketOf [es] start stop =
      if !es.isEmpty && es.all Expr.isVector then matrixOf es start stop else .ok (.vector es) := by
  unfold bracketOf
  split
  next inner shape => exact absurd (List.cons.inj shape).1 (single inner)
  next shape =>
    cases shape
    rfl
  next several => exact absurd rfl (several es)

theorem bracketOf_cons_cons {first second : List Expr} {rows : List (List Expr)}
    {start stop : Nat} : bracketOf (first :: second :: rows) start stop =
      matrixOf ((first :: second :: rows).map .vector) start stop := by
  unfold bracketOf
  split
  next shape => cases shape
  next shape => cases shape
  next => rfl

section Brackets

variable {R : Expr → Expr → Prop} (congruence : Expr.IsCongruence R)

include congruence

theorem agree_matrixOf {rows rows' : List Expr} (related : List.Forall₂ R rows rows')
    (start stop start' stop' : Nat) :
    Agree R (matrixOf rows start stop) (matrixOf rows' start' stop') := by
  cases related with
  | nil => exact .value (congruence.refl _)
  | @cons row row' others others' first rest =>
    have regular : others.any (·.elements.length != row.elements.length) =
        others'.any (·.elements.length != row'.elements.length) :=
      any_eq_of_forall₂ rest fun related => by rw [congruence.width related, congruence.width first]
    unfold matrixOf
    dsimp only
    rw [← regular, ← congruence.width first]
    split
    · exact .fault rfl
    split
    · exact .fault rfl
    · exact .value (congruence.matrix (.cons first rest))

theorem forall₂_map_vector {rows rows' : List (List Expr)}
    (related : List.Forall₂ (List.Forall₂ R) rows rows') :
    List.Forall₂ R (rows.map .vector) (rows'.map .vector) := by
  rw [List.forall₂_map_left_iff, List.forall₂_map_right_iff]
  exact related.imp fun _ _ => congruence.vector

theorem agree_bracketOf {rows rows' : List (List Expr)}
    (related : List.Forall₂ (List.Forall₂ R) rows rows') (start stop start' stop' : Nat) :
    Agree R (bracketOf rows start stop) (bracketOf rows' start' stop') := by
  have grid : Agree R (matrixOf (rows.map .vector) start stop)
      (matrixOf (rows'.map .vector) start' stop') :=
    agree_matrixOf congruence (forall₂_map_vector congruence related) start stop start' stop'
  rcases related with _ | ⟨row, _ | ⟨next, rest⟩⟩
  · exact grid
  · rename_i es es'
    by_cases one : ∃ inner, es = [.matrix inner]
    · obtain ⟨inner, rfl⟩ := one
      obtain ⟨e, others, first, none, rfl⟩ := List.forall₂_cons_left_iff.1 row
      cases none
      obtain ⟨inner', rfl⟩ := (congruence.isMatrix first).1 ⟨inner, rfl⟩
      exact .value first
    · have one' : ∀ inner, es' ≠ [.matrix inner] := by
        rintro inner rfl
        obtain ⟨e, others, first, none, rfl⟩ := List.forall₂_cons_right_iff.1 row
        cases none
        obtain ⟨inner', rfl⟩ := (congruence.isMatrix first).2 ⟨inner, rfl⟩
        exact one ⟨inner', rfl⟩
      have vectors : (!es.isEmpty && es.all Expr.isVector) =
          (!es'.isEmpty && es'.all Expr.isVector) := by
        have empty : es.isEmpty = es'.isEmpty := by cases row <;> rfl
        have all : es.any (!·.isVector) = es'.any (!·.isVector) :=
          any_eq_of_forall₂ row fun related => by rw [congruence.isVector related]
        rw [empty, List.all_eq_not_any_not, List.all_eq_not_any_not, all]
      rw [bracketOf_single fun inner shape => one ⟨inner, shape⟩, bracketOf_single one', ← vectors]
      split
      · exact agree_matrixOf congruence row start stop start' stop'
      · exact .value (congruence.vector row)
  · rw [bracketOf_cons_cons, bracketOf_cons_cons]
    exact grid

end Brackets

/-! ## The readers -/

/-- Both fail for the same cause, or both succeed with related values and leave the same tokens. -/
def Agrees {α : Type} {n n' : Nat} (strict : Bool) (R : α → α → Prop) (r : Result α n)
    (r' : Result α n') : Prop :=
  (∃ fault fault', r = .error fault ∧ r' = .error fault' ∧ fault.cause = fault'.cause) ∨
    ∃ a st h a' st' h', r = .ok (a, ⟨st, h⟩) ∧ r' = .ok (a', ⟨st', h'⟩) ∧ R a a' ∧
      st.Matches strict st'

theorem Agrees.fault {α : Type} {n n' : Nat} {strict : Bool} {R : α → α → Prop}
    {fault fault' : SyntaxFault} (cause : fault.cause = fault'.cause) :
    Agrees strict R (.error fault : Result α n) (.error fault' : Result α n') :=
  .inl ⟨fault, fault', rfl, rfl, cause⟩

theorem Agrees.value {α : Type} {n n' : Nat} {strict : Bool} {R : α → α → Prop} {a a' : α}
    {st st' : State} {h : st.size < n} {h' : st'.size < n'} (related : R a a')
    (alike : st.Matches strict st') :
    Agrees strict R (.ok (a, ⟨st, h⟩)) (.ok (a', ⟨st', h'⟩)) :=
  .inr ⟨a, st, h, a', st', h', rfl, rfl, related, alike⟩

namespace State.Matches

variable {v : Vocabulary} {stop stop' : Nat}

section Next

variable {strict spaced : Bool} {st st' : State}

theorem next (alike : st.Matches strict st') :
    (Parser.next st = none ∧ Parser.next st' = none) ∨
    ∃ t u st₁ h₁ st₁' h₁', Parser.next st = some (t, ⟨st₁, h₁⟩) ∧
      Parser.next st' = some (u, ⟨st₁', h₁'⟩) ∧ t.Same u ∧ st₁.Matches strict st₁' ∧
      (t.kind = .openBracket → st₁.Matches true st₁') := by
  rcases alike.rest.skipBlanks with ⟨first, second⟩ |
    ⟨t, u, ts, us, first, second, same, rest, exact⟩
  · exact .inl ⟨next_eq_none first, next_eq_none second⟩
  · obtain ⟨_, found⟩ := exists_next first
    obtain ⟨_, found'⟩ := exists_next second
    exact .inr ⟨t, u, _, _, _, _, found, found', same, ⟨rest, same.isNumber⟩,
      fun bracket => ⟨exact bracket, same.isNumber⟩⟩

theorem head? {strict : Bool} {ts us : List Token} (alike : Parser.Matches strict ts us)
    (strictly : strict = true) {f : Token → Bool} (same : ∀ {t u}, t.Same u → f t = f u) :
    ts.head?.any f = us.head?.any f := by
  cases alike.blanks (.inl strictly) with
  | nil => rfl
  | cons here _ => exact same here

theorem adjacent (alike : st.Matches strict st') (strictly : spaced = true → strict = true)
    (kind : TokenKind) : (Parser.adjacent spaced st).any (·.kind == kind) =
      (Parser.adjacent spaced st').any (·.kind == kind) := by
  unfold Parser.adjacent
  split
  next blanks => exact head? alike.rest (strictly blanks) fun same => by rw [same.kind]
  next =>
    rcases alike.next with ⟨first, second⟩ | ⟨t, u, _, _, _, _, first, second, same, -⟩
    · rw [first, second]
      rfl
    · rw [first, second, Option.map_some, Option.map_some, Option.any_some, Option.any_some,
        same.kind]

theorem upcoming (alike : st.Matches strict st') (strictly : spaced = true → strict = true) :
    Agree Eq (Parser.upcoming spaced st) (Parser.upcoming spaced st') := by
  unfold Parser.upcoming
  rcases alike.rest.skipBlanks with ⟨first, second⟩ | ⟨t, u, ts, us, first, second, same, rest, -⟩
  · rw [first, second]
    exact .value rfl
  · have apart : (spaced && st.rest.head?.any Token.isSpace) =
        (spaced && st'.rest.head?.any Token.isSpace) := by
      cases spaced with
      | false => rfl
      | true => rw [head? alike.rest (strictly rfl) Token.Same.isSpace]
    have after : (spaced && st.rest.head?.any Token.isSpace) = true →
        ts.head?.any Token.startsOperand = us.head?.any Token.startsOperand := fun blanks =>
      head? rest (strictly (Bool.and_eq_true_iff.1 blanks).1) Token.Same.startsOperand
    rw [first, second]
    dsimp only
    rw [← same.kind, ← apart, ← same.startsOperand, ← same.isNumber, ← alike.last]
    cases blanks : spaced && st.rest.head?.any Token.isSpace with
    | false =>
      split
      · exact .value rfl
      split
      · exact .value rfl
      split
      · exact .fault rfl
      · exact .value rfl
    | true =>
      rw [← after blanks]
      split
      · split <;> exact .value rfl
      · exact .value rfl

theorem close (alike : st.Matches strict st') (opening opening' : Token) :
    Agrees strict Eq (Parser.close opening st) (Parser.close opening' st') := by
  unfold Parser.close
  rcases alike.next with ⟨first, second⟩ | ⟨t, u, st₁, h₁, st₁', h₁', first, second, same, alike, -⟩
  · rw [first, second]
    exact .fault rfl
  · rw [first, second]
    dsimp only
    rw [← same.kind, ← same.text]
    split
    · exact .value rfl alike
    · exact .fault rfl

end Next

variable {R : Expr → Expr → Prop}

-- by recursion on what is left to read, as the readers themselves
mutual

theorem expression (congruence : Expr.IsCongruence R) {strict spaced : Bool} (least : Binding)
    {st st' : State} (alike : st.Matches strict st')
    (strictly : spaced = true → strict = true) :
    Agrees strict R (Parser.expression v stop spaced least st)
      (Parser.expression v stop' spaced least st') := by
  rw [Parser.expression, Parser.expression]
  rcases operand congruence alike strictly with ⟨_, _, first, first', cause⟩ |
    ⟨left, st₁, h₁, left', st₁', h₁', first, first', related, alike⟩
  · rw [first, first']
    exact .fault cause
  rw [first, first']
  dsimp only
  rcases chain congruence least related alike strictly with ⟨_, _, second, second', cause⟩ |
    ⟨e, st₂, h₂, e', st₂', h₂', second, second', related, alike⟩
  · rw [second, second']
    exact .fault cause
  · rw [second, second']
    exact .value related alike
termination_by 8 * st.size + 4

theorem chain (congruence : Expr.IsCongruence R) {strict spaced : Bool} (least : Binding)
    {left left' : Expr} {st st' : State} (related : R left left') (alike : st.Matches strict st')
    (strictly : spaced = true → strict = true) :
    Agrees strict R (Parser.chain v stop spaced least left st)
      (Parser.chain v stop' spaced least left' st') := by
  rw [Parser.chain, Parser.chain]
  rcases alike.upcoming strictly with ⟨_, _, ahead, ahead', cause⟩ | ⟨found, _, ahead, ahead', rfl⟩
  · rw [ahead, ahead']
    exact .fault cause
  rw [ahead, ahead']
  match found with
  | none => exact .value related alike
  | some (op, true) =>
    dsimp only
    split
    next => exact .value related alike
    next =>
      rcases expression congruence (rightBinding op) alike strictly with
        ⟨_, _, first, first', cause⟩ |
        ⟨right, st₁, h₁, right', st₁', h₁', first, first', related', alike⟩
      · rw [first, first']
        exact .fault cause
      rw [first, first']
      dsimp only
      rcases chain congruence least (congruence.binary related related') alike strictly with
        ⟨_, _, second, second', cause⟩ |
        ⟨e, st₂, h₂, e', st₂', h₂', second, second', related, alike⟩
      · rw [second, second']
        exact .fault cause
      · rw [second, second']
        exact .value related alike
  | some (op, false) =>
    dsimp only
    split
    next => exact .value related alike
    next =>
      rcases alike.next with ⟨found, found'⟩ |
        ⟨t, u, st₀, h₀, st₀', h₀', found, found', -, alike₀, -⟩
      · rw [found, found']
        exact .value related alike
      rw [found, found']
      dsimp only
      rcases expression congruence (rightBinding op) alike₀ strictly with
        ⟨_, _, first, first', cause⟩ |
        ⟨right, st₁, h₁, right', st₁', h₁', first, first', related', alike⟩
      · rw [first, first']
        exact .fault cause
      rw [first, first']
      dsimp only
      rcases chain congruence least (congruence.binary related related') alike strictly with
        ⟨_, _, second, second', cause⟩ |
        ⟨e, st₂, h₂, e', st₂', h₂', second, second', related, alike⟩
      · rw [second, second']
        exact .fault cause
      · rw [second, second']
        exact .value related alike
termination_by 8 * st.size + 5

theorem operand (congruence : Expr.IsCongruence R) {strict spaced : Bool} {st st' : State}
    (alike : st.Matches strict st')
    (strictly : spaced = true → strict = true) :
    Agrees strict R (Parser.operand v stop spaced st) (Parser.operand v stop' spaced st') := by
  rw [Parser.operand, Parser.operand]
  rcases alike.next with ⟨found, found'⟩ |
    ⟨t, u, st₁, h₁, st₁', h₁', found, found', same, alike, exact⟩
  · rw [found, found']
    exact .fault rfl
  rw [found, found']
  dsimp only
  rw [← signOf?_same same]
  split
  next sign _ =>
    rcases expression congruence Binding.unary alike strictly with ⟨_, _, first, first', cause⟩ |
      ⟨e, st₂, h₂, e', st₂', h₂', first, first', related, alike⟩
    · rw [first, first']
      exact .fault cause
    · rw [first, first']
      exact .value (congruence.unary related) alike
  next => exact primary congruence same alike exact strictly
termination_by 8 * st.size + 3

theorem primary (congruence : Expr.IsCongruence R) {strict spaced : Bool} {t u : Token}
    {st₀ st st₀' st' : State} {h : st.size < st₀.size} {h' : st'.size < st₀'.size}
    (same : t.Same u) (alike : st.Matches strict st')
    (exact : t.kind = .openBracket → st.Matches true st')
    (strictly : spaced = true → strict = true) :
    Agrees strict R (Parser.primary v stop spaced t st₀ st h)
      (Parser.primary v stop' spaced u st₀' st' h') := by
  rw [Parser.primary, Parser.primary, ← same.kind]
  split
  next => exact .value (congruence.refl _) alike
  next => exact identifier congruence same alike strictly
  next =>
    have unspaced : false = true → strict = true := fun blanks => absurd blanks Bool.false_ne_true
    rcases expression congruence 0 alike unspaced with ⟨_, _, first, first', cause⟩ |
      ⟨e, st₁, h₁, e', st₁', h₁', first, first', related, alike⟩
    · rw [first, first']
      exact .fault cause
    rw [first, first']
    dsimp only
    rcases alike.close t u with ⟨_, _, second, second', cause⟩ |
      ⟨⟨⟩, st₂, h₂, ⟨⟩, st₂', h₂', second, second', -, alike⟩
    · rw [second, second']
      exact .fault cause
    · rw [second, second']
      exact .value related alike
  next kind =>
    rcases row congruence .nil t u false (exact kind) with ⟨_, _, first, first', cause⟩ |
      ⟨es, st₁, h₁, es', st₁', h₁', first, first', related, alike⟩
    · rw [first, first']
      exact .fault cause
    rw [first, first']
    dsimp only
    rcases moreRows congruence (.cons related .nil) alike with ⟨_, _, second, second', cause⟩ |
      ⟨rows, st₂, h₂, rows', st₂', h₂', second, second', related, alike⟩
    · rw [second, second']
      exact .fault cause
    rw [second, second']
    dsimp only
    rcases agree_bracketOf congruence related t.start st₂.stop u.start st₂'.stop with
      ⟨_, _, third, third', cause⟩ | ⟨e, e', third, third', related⟩
    · rw [third, third']
      exact .fault cause
    · rw [third, third']
      exact .value related (alike.weaken strict)
  next =>
    rw [← same.text]
    exact .fault rfl
termination_by 8 * st₀.size + 2

theorem identifier (congruence : Expr.IsCongruence R) {strict spaced : Bool} {t u : Token}
    {st₀ st st₀' st' : State} {h : st.size < st₀.size} {h' : st'.size < st₀'.size}
    (same : t.Same u) (alike : st.Matches strict st')
    (strictly : spaced = true → strict = true) :
    Agrees strict R (Parser.identifier v stop spaced t st₀ st h)
      (Parser.identifier v stop' spaced u st₀' st' h') := by
  rw [Parser.identifier, Parser.identifier, ← alike.adjacent strictly, ← same.text]
  split
  next =>
    split
    next =>
      rcases call congruence t.text alike with ⟨_, _, first, first', cause⟩ |
        ⟨e, st₁, h₁, e', st₁', h₁', first, first', related, alike⟩
      · rw [first, first']
        exact .fault cause
      · rw [first, first']
        exact .value related alike
    next =>
      split
      next front function _ =>
        rcases call congruence function alike with ⟨_, _, first, first', cause⟩ |
          ⟨e, st₁, h₁, e', st₁', h₁', first, first', related, alike⟩
        · rw [first, first']
          exact .fault cause
        · rw [first, first']
          exact .value (congruence.binary (congruence.refl _) related) alike
      next =>
        split
        next => exact .value (congruence.refl _) alike
        next =>
          rcases call congruence t.text alike with ⟨_, _, first, first', cause⟩ |
            ⟨e, st₁, h₁, e', st₁', h₁', first, first', related, alike⟩
          · rw [first, first']
            exact .fault cause
          · rw [first, first']
            exact .value related alike
  next =>
    split
    · exact .fault rfl
    · exact .value (congruence.refl _) alike
termination_by 8 * st₀.size + 1

theorem call (congruence : Expr.IsCongruence R) (name : String) {strict : Bool} {st st' : State}
    (alike : st.Matches strict st') :
    Agrees strict R (Parser.call v stop name st) (Parser.call v stop' name st') := by
  rw [Parser.call, Parser.call]
  rcases alike.next with ⟨found, found'⟩ |
    ⟨opening, opening', st₁, h₁, st₁', h₁', found, found', -, alike, -⟩
  · rw [found, found']
    exact .fault rfl
  rw [found, found']
  dsimp only
  have others : Agrees strict R
      (match Parser.arguments v stop opening [] st₁ with
        | .error fault => .error fault
        | .ok (args, ⟨st₂, h₂⟩) => .ok (.call name args, ⟨st₂, by omega⟩) : Result Expr st.size)
      (match Parser.arguments v stop' opening' [] st₁' with
        | .error fault => .error fault
        | .ok (args, ⟨st₂, h₂⟩) => .ok (.call name args, ⟨st₂, by omega⟩) : Result Expr st'.size)
      := by
    rcases arguments congruence .nil opening opening' alike with ⟨_, _, first, first', cause⟩ |
      ⟨args, st₂, h₂, args', st₂', h₂', first, first', related, alike⟩
    · rw [first, first']
      exact .fault cause
    · rw [first, first']
      exact .value (congruence.call related) alike
  rcases alike.next with ⟨last, last'⟩ |
    ⟨⟨kind, text, start⟩, ⟨kind', text', start'⟩, st₂, h₂, st₂', h₂', last, last', same, alike, -⟩
  · rw [last, last']
    exact others
  obtain rfl : kind = kind' := same.kind
  rw [last, last']
  cases kind with
  | closeParen => exact .value (congruence.call .nil) alike
  | _ => exact others
termination_by 8 * st.size

theorem arguments (congruence : Expr.IsCongruence R) {before before' : List Expr}
    (related : List.Forall₂ R before before') (opening opening' : Token) {strict : Bool}
    {st st' : State} (alike : st.Matches strict st') :
    Agrees strict (List.Forall₂ R) (Parser.arguments v stop opening before st)
      (Parser.arguments v stop' opening' before' st') := by
  rw [Parser.arguments, Parser.arguments]
  have unspaced : false = true → strict = true := fun blanks => absurd blanks Bool.false_ne_true
  rcases expression congruence 0 alike unspaced with ⟨_, _, first, first', cause⟩ |
    ⟨e, st₁, h₁, e', st₁', h₁', first, first', here, alike₁⟩
  · rw [first, first']
    exact .fault cause
  rw [first, first']
  dsimp only
  have snoc : List.Forall₂ R (before ++ [e]) (before' ++ [e']) :=
    List.rel_append related (.cons here .nil)
  have others : Agrees strict (List.Forall₂ R)
      (match Parser.close opening st₁ with
        | .error fault => .error fault
        | .ok ((), ⟨st₂, h₂⟩) => .ok (before ++ [e], ⟨st₂, by omega⟩) :
        Result (List Expr) st.size)
      (match Parser.close opening' st₁' with
        | .error fault => .error fault
        | .ok ((), ⟨st₂, h₂⟩) => .ok (before' ++ [e'], ⟨st₂, by omega⟩) :
        Result (List Expr) st'.size) := by
    rcases alike₁.close opening opening' with ⟨_, _, second, second', cause⟩ |
      ⟨⟨⟩, st₂, h₂, ⟨⟩, st₂', h₂', second, second', -, alike⟩
    · rw [second, second']
      exact .fault cause
    · rw [second, second']
      exact .value snoc alike
  rcases alike₁.next with ⟨last, last'⟩ |
    ⟨⟨kind, text, start⟩, ⟨kind', text', start'⟩, st₂, h₂, st₂', h₂', last, last', same, alike, -⟩
  · rw [last, last']
    exact others
  obtain rfl : kind = kind' := same.kind
  rw [last, last']
  cases kind with
  | comma =>
    dsimp only
    rcases arguments congruence snoc opening opening' alike with ⟨_, _, second, second', cause⟩ |
      ⟨args, st₃, h₃, args', st₃', h₃', second, second', related, alike⟩
    · rw [second, second']
      exact .fault cause
    · rw [second, second']
      exact .value related alike
  | _ => exact others
termination_by 8 * st.size + 5

theorem row (congruence : Expr.IsCongruence R) {before before' : List Expr}
    (related : List.Forall₂ R before before') (opening opening' : Token) (wanted : Bool)
    {st st' : State} (alike : st.Matches true st') :
    Agrees true (List.Forall₂ R) (Parser.row v stop opening before wanted st)
      (Parser.row v stop' opening' before' wanted st') := by
  rw [Parser.row, Parser.row]
  rcases alike.next with ⟨found, found'⟩ |
    ⟨t, u, st₁, h₁, st₁', h₁', found, found', same, alike₁, -⟩
  · rw [found, found']
    exact .fault rfl
  have empty : before.isEmpty = before'.isEmpty := by cases related <;> rfl
  rw [found, found']
  dsimp only
  rw [← same.kind, ← empty]
  split
  next =>
    split
    · exact .fault rfl
    · exact .value related alike₁
  next =>
    split
    · exact .fault rfl
    rcases row congruence related opening opening' true alike₁ with ⟨_, _, first, first', cause⟩ |
      ⟨es, st₂, h₂, es', st₂', h₂', first, first', related, alike⟩
    · rw [first, first']
      exact .fault cause
    · rw [first, first']
      exact .value related alike
  next =>
    rcases expression congruence 0 alike (fun _ => rfl) with ⟨_, _, first, first', cause⟩ |
      ⟨e, st₂, h₂, e', st₂', h₂', first, first', here, alike⟩
    · rw [first, first']
      exact .fault cause
    rw [first, first']
    dsimp only
    rcases row congruence (List.rel_append related (.cons here .nil)) opening opening' false
      alike with
      ⟨_, _, second, second', cause⟩ |
      ⟨es, st₃, h₃, es', st₃', h₃', second, second', related, alike⟩
    · rw [second, second']
      exact .fault cause
    · rw [second, second']
      exact .value related alike
termination_by 8 * st.size + 6

theorem moreRows (congruence : Expr.IsCongruence R) {spaced : Bool}
    {before before' : List (List Expr)}
    (related : List.Forall₂ (List.Forall₂ R) before before') {st st' : State}
    (alike : st.Matches true st') :
    Agrees true (List.Forall₂ (List.Forall₂ R)) (Parser.moreRows v stop spaced before st)
      (Parser.moreRows v stop' spaced before' st') := by
  rw [Parser.moreRows, Parser.moreRows, ← alike.adjacent (fun _ => rfl)]
  split
  next =>
    rcases alike.next with ⟨found, found'⟩ |
      ⟨t, u, st₁, h₁, st₁', h₁', found, found', -, alike₁, -⟩
    · rw [found, found']
      exact .value related alike
    rw [found, found']
    dsimp only
    rcases row congruence .nil t u false alike₁ with ⟨_, _, first, first', cause⟩ |
      ⟨es, st₂, h₂, es', st₂', h₂', first, first', here, alike⟩
    · rw [first, first']
      exact .fault cause
    rw [first, first']
    dsimp only
    rcases moreRows congruence (List.rel_append related (.cons here .nil)) alike with
      ⟨_, _, second, second', cause⟩ |
      ⟨rows, st₃, h₃, rows', st₃', h₃', second, second', related, alike⟩
    · rw [second, second']
      exact .fault cause
    · rw [second, second']
      exact .value related alike
  next => exact .value related alike
termination_by 8 * st.size + 7

end

end State.Matches

/-! ## Heads of definitions -/

/-- The same names and, behind them, the same tokens. -/
def SameParameters (strict : Bool) (found found' : List String × List Token) : Prop :=
  found.1 = found'.1 ∧ Matches strict found.2 found'.2

/-- The same name with the same parameters and, behind them, the same tokens. -/
def SameHead (strict : Bool) (found found' : Token × List String × List Token) : Prop :=
  found.1.text = found'.1.text ∧ SameParameters strict found.2 found'.2

theorem Matches.parameters {strict : Bool} {ts us rest : List Token} {params : List String}
    (alike : Matches strict ts us) (read : Parameters ts params rest) :
    ∃ rest', Parameters us params rest' ∧ Matches strict rest rest' := by
  induction read generalizing us with
  | last first named second closes third ends =>
    obtain ⟨name', us₁, first', here, alike⟩ := alike.of_skipBlanks first
    obtain ⟨closing', us₂, second', here', alike⟩ := alike.of_skipBlanks second
    obtain ⟨equals', rest', third', here'', alike⟩ := alike.of_skipBlanks third
    rw [here.text]
    exact ⟨rest', .last first' (here.kind.symm.trans named) second' (here'.kind.symm.trans closes)
      third' (here''.kind.symm.trans ends), alike⟩
  | cons first named second parts others ih =>
    obtain ⟨name', us₁, first', here, alike⟩ := alike.of_skipBlanks first
    obtain ⟨comma', us₂, second', here', alike⟩ := alike.of_skipBlanks second
    obtain ⟨rest', others', alike⟩ := ih alike
    rw [here.text]
    exact ⟨rest', .cons first' (here.kind.symm.trans named) second' (here'.kind.symm.trans parts)
      others', alike⟩

theorem Matches.head {strict : Bool} {ts us rest : List Token} {name : Token}
    {params : List String} (alike : Matches strict ts us) (head : Head ts name params rest) :
    ∃ name' rest', Head us name' params rest' ∧ name.text = name'.text ∧
      Matches strict rest rest' := by
  cases head with
  | empty first named second opens third closes fourth ends =>
    obtain ⟨name', us₁, first', here, alike⟩ := alike.of_skipBlanks first
    obtain ⟨opening', us₂, second', here', alike⟩ := alike.of_skipBlanks second
    obtain ⟨closing', us₃, third', here'', alike⟩ := alike.of_skipBlanks third
    obtain ⟨equals', rest', fourth', here₃, alike⟩ := alike.of_skipBlanks fourth
    exact ⟨name', rest', .empty first' (here.kind.symm.trans named) second'
      (here'.kind.symm.trans opens) third' (here''.kind.symm.trans closes) fourth'
      (here₃.kind.symm.trans ends), here.text, alike⟩
  | parameters first named second opens read =>
    obtain ⟨name', us₁, first', here, alike⟩ := alike.of_skipBlanks first
    obtain ⟨opening', us₂, second', here', alike⟩ := alike.of_skipBlanks second
    obtain ⟨rest', read', alike⟩ := alike.parameters read
    exact ⟨name', rest', .parameters first' (here.kind.symm.trans named) second'
      (here'.kind.symm.trans opens) read', here.text, alike⟩

theorem Matches.definitionHead? {strict : Bool} {ts us : List Token}
    (alike : Matches strict ts us) :
    Option.Rel (SameHead strict) (Parser.definitionHead? ts) (Parser.definitionHead? us) := by
  cases found : Parser.definitionHead? ts with
  | none =>
    cases found' : Parser.definitionHead? us with
    | none => exact .none
    | some head =>
      obtain ⟨name, params, rest⟩ := head
      obtain ⟨_, _, read, -⟩ := alike.symm.head (head_of_definitionHead? found')
      cases found.symm.trans read.definitionHead?_eq
  | some head =>
    obtain ⟨name, params, rest⟩ := head
    obtain ⟨name', rest', read, text, alike⟩ := alike.head (head_of_definitionHead? found)
    rw [read.definitionHead?_eq]
    exact .some ⟨text, rfl, alike⟩

/-! ## Whole texts -/

section Texts

variable {v : Vocabulary} {source source' : String} {ts us : List Token}

/-- The same trees up to the text that a definition keeps. -/
def SameReading (read read' : Expr × State) : Prop :=
  read.1.unsourced = read'.1.unsourced ∧ read.2.Matches false read'.2

theorem Matches.isEmpty_skipBlanks {strict : Bool} (alike : Matches strict ts us) :
    (Parser.skipBlanks ts).isEmpty = (Parser.skipBlanks us).isEmpty := by
  rcases alike.skipBlanks with ⟨first, second⟩ | ⟨t, u, _, _, first, second, -⟩
  · rw [first, second]
  · rw [first, second, List.isEmpty_cons, List.isEmpty_cons]

theorem Matches.definition (alike : Matches false ts us) {name name' : Token}
    (same : name.text = name'.text) (params : List String) (stop stop' : Nat) :
    Agree SameReading (Parser.definition v source stop name params ts)
      (Parser.definition v source' stop' name' params us) := by
  unfold Parser.definition
  rw [← alike.isEmpty_skipBlanks]
  split
  · exact .fault rfl
  have start : State.Matches false ⟨none, ts⟩ ⟨none, us⟩ := ⟨alike, rfl⟩
  rcases start.expression Expr.isCongruence_eq 0 (fun blanks => blanks) with
    ⟨_, _, first, first', cause⟩ | ⟨body, st, h, _, st', h', first, first', rfl, alike⟩
  · rw [first, first']
    exact .fault cause
  rw [first, first']
  dsimp only
  split
  · exact .fault (by rw [same])
  · exact .value ⟨by rw [same, Expr.unsourced, Expr.unsourced], alike⟩

/-- After the expression there is nothing left, or the same token too many. -/
theorem agree_ended {read read' : Except SyntaxFault (Expr × State)}
    (agree : Agree SameReading read read') :
    Agree (fun e e' => e.unsourced = e'.unsourced)
      (match read with
        | .error fault => .error fault
        | .ok (e, st) =>
          match next st with
          | some (t, _) => .error (.atToken (.unexpected t.text) t)
          | none => .ok e)
      (match read' with
        | .error fault => .error fault
        | .ok (e, st) =>
          match next st with
          | some (t, _) => .error (.atToken (.unexpected t.text) t)
          | none => .ok e) := by
  rcases agree with ⟨_, _, rfl, rfl, cause⟩ | ⟨⟨e, st⟩, ⟨e', st'⟩, rfl, rfl, same, alike⟩
  · exact .fault cause
  dsimp only
  rcases alike.next with ⟨found, found'⟩ | ⟨t, u, _, _, _, _, found, found', here, -⟩
  · rw [found, found']
    exact .value same
  · rw [found, found']
    exact .fault (congrArg SyntaxCause.unexpected here.text)

theorem Matches.ofTokens (alike : Matches false ts us) :
    Agree (fun e e' => e.unsourced = e'.unsourced) (Parser.ofTokens v source ts)
      (Parser.ofTokens v source' us) := by
  unfold Parser.ofTokens
  dsimp only
  rw [← alike.isEmpty_skipBlanks]
  split
  · exact .value rfl
  have head := alike.definitionHead?
  revert head
  generalize Parser.definitionHead? ts = found
  generalize Parser.definitionHead? us = found'
  rintro (⟨text, parameters, rest⟩ | _)
  · rename_i found found'
    obtain ⟨name, params, ts'⟩ := found
    obtain ⟨name', params', us'⟩ := found'
    obtain rfl : params = params' := parameters
    exact agree_ended (rest.definition text _ _ _)
  · have start : State.Matches false ⟨none, ts⟩ ⟨none, us⟩ := ⟨alike, rfl⟩
    rcases start.expression Expr.isCongruence_eq 0 (fun blanks => blanks) with
      ⟨_, _, first, first', cause⟩ | ⟨e, st, h, _, st', h', first, first', rfl, alike⟩
    · dsimp only
      rw [first, first']
      exact .fault cause
    · dsimp only
      rw [first, first']
      have read : SameReading (e, st) (e, st') := ⟨rfl, alike⟩
      exact agree_ended (.value read)

end Texts

/-- Tokens are the same if their texts are. -/
theorem same_of_texts {source source' : String} {ts us : List Token}
    (scanned : scan source = .ok ts) (scanned' : scan source' = .ok us) {ts' us' : List Token}
    (sub : ts' ⊆ ts) (sub' : us' ⊆ us) (texts : ts'.map Token.text = us'.map Token.text) :
    List.Forall₂ Token.Same ts' us' := by
  induction ts' generalizing us' with
  | nil =>
    rw [List.map_nil, eq_comm, List.map_eq_nil_iff] at texts
    rw [texts]
    exact .nil
  | cons t ts' ih =>
    cases us' with
    | nil => cases texts
    | cons u us' =>
      obtain ⟨text, texts⟩ := List.cons.inj texts
      obtain ⟨member, sub⟩ := List.cons_subset.1 sub
      obtain ⟨member', sub'⟩ := List.cons_subset.1 sub'
      -- each of them is the only token of its text
      have alone := (tiles_of_scan scanned).alone t member
      rw [text, (tiles_of_scan scanned').alone u member'] at alone
      have kind : u.kind = t.kind := (Token.mk.inj (List.cons.inj (Except.ok.inj alone)).1).1
      exact .cons ⟨kind.symm, text⟩ (ih sub sub' texts)

theorem bracket_mem_of_scan {source : String} {ts : List Token} (scanned : scan source = .ok ts)
    {t : Token} (member : t ∈ ts) (kind : t.kind = .openBracket) : '[' ∈ source.toList := by
  obtain ⟨before, after, rfl⟩ := List.append_of_mem member
  have begins := begins_of_lexeme? (lexeme?_of_scanFrom scanned).2
  rw [kind] at begins
  obtain ⟨c, mark, text⟩ := begins
  have bracket : c = '[' := by
    unfold punctuation? at mark
    split at mark <;> cases mark
    rfl
  rw [← texts_scan scanned, List.flatMap_append, List.flatMap_cons, text, bracket]
  simp

end Parser

/-- Texts without brackets that differ in their blanks only are read as the same tree, up to the
text that a definition keeps, or refused with the same message. -/
theorem parse_blanks {v : Vocabulary} {source source' : String} {ts us : List Token}
    (scanned : scan source = .ok ts) (scanned' : scan source' = .ok us)
    (plain : '[' ∉ source.toList)
    (texts : (Parser.visible ts).map Token.text = (Parser.visible us).map Token.text) :
    (∃ e e', parse v source = .ok e ∧ parse v source' = .ok e' ∧ e.unsourced = e'.unsourced) ∨
      ∃ fault fault', parse v source = .error fault ∧ parse v source' = .error fault' ∧
        fault.cause = fault'.cause := by
  have alike : Parser.Matches false ts us := by
    refine ⟨Parser.same_of_texts scanned scanned' (fun _ => List.mem_of_mem_filter)
      (fun _ => List.mem_of_mem_filter) texts, fun count => ?_⟩
    rcases count with strict | ⟨t, member, bracket⟩
    · cases strict
    · exact absurd (Parser.bracket_mem_of_scan scanned member bracket) plain
  rw [parse, parse, scanned, scanned']
  exact (alike.ofTokens).symm

/-- The definition is the same one, with another text. -/
theorem parse_blanks_identity : ∃ e e', parse Context.initial.vocabulary "f(x)= x" = .ok e ∧
    parse Context.initial.vocabulary "f( x)=x" = .ok e' ∧ e.unsourced = e'.unsourced := by
  have scanned : scan "f(x)= x" = .ok [⟨.identifier, "f", 0⟩, ⟨.openParen, "(", 1⟩,
      ⟨.identifier, "x", 2⟩, ⟨.closeParen, ")", 3⟩, ⟨.equals, "=", 4⟩, ⟨.space, " ", 5⟩,
      ⟨.identifier, "x", 6⟩] := by decide +kernel
  have scanned' : scan "f( x)=x" = .ok [⟨.identifier, "f", 0⟩, ⟨.openParen, "(", 1⟩,
      ⟨.space, " ", 2⟩, ⟨.identifier, "x", 3⟩, ⟨.closeParen, ")", 4⟩, ⟨.equals, "=", 5⟩,
      ⟨.identifier, "x", 6⟩] := by decide +kernel
  have reads : (parse Context.initial.vocabulary "f(x)= x").toOption.isSome = true := by
    decide +kernel
  rcases parse_blanks scanned scanned' (by decide) rfl with same | ⟨fault, -, failed, -⟩
  · exact same
  · rw [failed] at reads
    cases reads

end Reckon
