import Reckon.Proofs.Expr.Reading

/-!
# What holds of every tree that is read

A property that numbers and words have, and that operations, calls and brackets have if their parts
do, holds of every tree that is read (`Parser.Builds.expression`). The tokens may be assumed to be
of some sort, since a reader leaves no others than it was given.

Results: `Parser.Builds.expression`, `exists_of_parse`.
-/

namespace Reckon

/-- What holds of the names in a word, and of products where it holds of both factors, holds of the
product of the names. -/
theorem Vocabulary.holds_productOfNames (v : Vocabulary) {P : Expr → Prop} {word : String}
    (alone : v.pieces word = [] → P (.var word)) (piece : ∀ name ∈ v.pieces word, P (.var name))
    (times : ∀ {l r}, P l → P r → P (.juxtaposed l r)) : P (v.productOfNames word) := by
  have joined : ∀ (names : List String) (e : Expr), P e → (∀ name ∈ names, P (.var name)) →
      P (names.foldl (fun e name => .juxtaposed e (.var name)) e) := by
    intro names
    induction names with
    | nil => exact fun e first _ => first
    | cons name names ih =>
      intro e first words
      obtain ⟨second, others⟩ := List.forall_mem_cons.1 words
      exact ih _ (times first second) others
  unfold productOfNames
  split
  next none => exact alone none
  next first others shape =>
    rw [shape] at piece
    obtain ⟨here, rest⟩ := List.forall_mem_cons.1 piece
    exact joined others _ here rest

namespace Parser

/-- Vectors of one width, at least one of them, and none that is empty. -/
structure IsGrid (rows : List Expr) : Prop where
  nonempty : rows ≠ []
  width : ∃ width, width ≠ 0 ∧ ∀ row ∈ rows, ∃ es, row = .vector es ∧ es.length = width

/-- The property passes from the parts of a tree to the tree, as far as tokens of the sort `A` and
the vocabulary allow such a tree to be read. -/
structure Builds (v : Vocabulary) (A : Token → Prop) (P : Expr → Prop) : Prop where
  number : ∀ {t n}, A t → t.kind = .number n → P (.literal n true)
  unary : ∀ {sign e}, P e → P (.unary sign e)
  binary : ∀ {op attached l r}, P l → P r → P (.binary op attached l r)
  word : ∀ {t}, A t → t.kind = .identifier →
    (v.isFunction t.text = true → v.isKnown t.text = true) → P (v.productOfNames t.text)
  called : ∀ {t args}, A t → t.kind = .identifier → v.isCalled t.text = true →
    (∀ e ∈ args, P e) → P (v.called t.text args)
  vector : ∀ {es}, (∀ e ∈ es, P e) → P (.vector es)
  matrix : ∀ {rows}, IsGrid rows → (∀ e ∈ rows, P e) → P (.matrix rows)

/-- All tokens that are left are of the sort. -/
def Every (A : Token → Prop) (st : State) : Prop :=
  ∀ t ∈ st.rest, A t

variable {v : Vocabulary} {A : Token → Prop} {P : Expr → Prop} {stop : Nat}

theorem Every.next {st : State} {t : Token} {st' : { s : State // s.size < st.size }}
    (every : Every A st) (found : next st = some (t, st')) : A t ∧ Every A st'.1 := by
  unfold Parser.next at found
  split at found
  next => cases found
  next shape =>
    cases found
    have inside : ∀ u ∈ skipBlanks st.rest, A u := fun u member =>
      every u (mem_of_mem_skipBlanks member)
    rw [shape] at inside
    exact List.forall_mem_cons.1 inside

theorem Every.close {st : State} {opening : Token} {u : Unit}
    {st' : { s : State // s.size < st.size }} (every : Every A st)
    (done : close opening st = .ok (u, st')) : Every A st'.1 := by
  unfold Parser.close at done
  split at done
  next => cases done
  next found =>
    split at done
    next =>
      cases done
      exact (every.next found).2
    next => cases done

/-- Only vectors of one width become a matrix. -/
theorem isGrid_of_matrixOf {rows : List Expr} {e : Expr} {first last : Nat} (nonempty : rows ≠ [])
    (vectors : ∀ row ∈ rows, ∃ es, row = .vector es) (done : matrixOf rows first last = .ok e) :
    e = .matrix rows ∧ IsGrid rows := by
  unfold matrixOf at done
  split at done
  · exact absurd rfl nonempty
  next row others =>
    dsimp only at done
    split at done
    · cases done
    next equal =>
      split at done
      · cases done
      next positive =>
        cases done
        refine ⟨rfl, nonempty, row.elements.length, positive, fun row' member => ?_⟩
        obtain ⟨es, rfl⟩ := vectors row' member
        refine ⟨es, rfl, ?_⟩
        rcases List.mem_cons.1 member with rfl | inside
        · rfl
        · rw [Bool.not_eq_true, List.any_eq_false] at equal
          have same : (Expr.vector es).elements.length = row.elements.length := by
            simpa using equal _ inside
          exact same

theorem moreRows_ne_nil {v : Vocabulary} {stop : Nat} {spaced : Bool}
    {before rows : List (List Expr)} {st : State} {st' : { s : State // s.size < st.size + 1 }}
    (some : before ≠ []) (done : moreRows v stop spaced before st = .ok (rows, st')) :
    rows ≠ [] := by
  rw [moreRows] at done
  split at done
  next =>
    split at done
    next =>
      cases done
      exact some
    next =>
      split at done
      next => cases done
      next =>
        split at done
        next => cases done
        next rest =>
          cases done
          exact moreRows_ne_nil (by simp) rest
  next =>
    cases done
    exact some
termination_by st.size

namespace Builds

theorem matrixOf (builds : Builds v A P) {rows : List Expr} {e : Expr} {first last : Nat}
    (nonempty : rows ≠ []) (vectors : ∀ row ∈ rows, ∃ es, row = .vector es)
    (all : ∀ row ∈ rows, P row) (done : matrixOf rows first last = .ok e) : P e := by
  obtain ⟨rfl, grid⟩ := isGrid_of_matrixOf nonempty vectors done
  exact builds.matrix grid all

theorem bracketOf (builds : Builds v A P) {rows : List (List Expr)} {e : Expr} {first last : Nat}
    (nonempty : rows ≠ []) (all : ∀ es ∈ rows, ∀ e ∈ es, P e)
    (done : bracketOf rows first last = .ok e) : P e := by
  unfold Parser.bracketOf at done
  split at done
  next inner =>
    cases done
    exact all _ (.head _) _ (.head _)
  next es _ =>
    have elements := all es (.head _)
    split at done
    next vectors =>
      simp only [Bool.and_eq_true, Bool.not_eq_true', List.isEmpty_eq_false_iff, List.all_eq_true]
        at vectors
      refine builds.matrixOf vectors.1 (fun row member => ?_) elements done
      cases row with
      | vector es => exact ⟨es, rfl⟩
      | _ => exact absurd (vectors.2 _ member) Bool.false_ne_true
    next =>
      cases done
      exact builds.vector elements
  next =>
    refine builds.matrixOf (fun none => nonempty (List.map_eq_nil_iff.1 none))
      (fun row member => ?_) (fun row member => ?_) done
    · obtain ⟨es, -, rfl⟩ := List.mem_map.1 member
      exact ⟨es, rfl⟩
    · obtain ⟨es, inside, rfl⟩ := List.mem_map.1 member
      exact builds.vector (all es inside)

theorem forall_mem_snoc {es : List Expr} {e : Expr} (all : ∀ e ∈ es, P e) (last : P e) :
    ∀ e' ∈ es ++ [e], P e' :=
  fun e' member => (List.mem_append.1 member).elim (all e')
    fun inside => List.mem_singleton.1 inside ▸ last

-- by recursion on what is left to read; the summands order the readers that start at the same place
mutual

theorem expression (builds : Builds v A P) {spaced : Bool} {least : Binding} {st : State} {e : Expr}
    {st' : { s : State // s.size < st.size }} (every : Every A st)
    (done : expression v stop spaced least st = .ok (e, st')) : P e ∧ Every A st'.1 := by
  rw [Parser.expression] at done
  split at done
  next => cases done
  next left st₁ h₁ first =>
    split at done
    next => cases done
    next second =>
      cases done
      obtain ⟨here, every⟩ := builds.operand every first
      exact builds.chain every here second
termination_by 8 * st.size + 4

theorem chain (builds : Builds v A P) {spaced : Bool} {least : Binding} {left e : Expr} {st : State}
    {st' : { s : State // s.size < st.size + 1 }} (every : Every A st) (before : P left)
    (done : chain v stop spaced least left st = .ok (e, st')) : P e ∧ Every A st'.1 := by
  rw [Parser.chain] at done
  split at done
  next => cases done
  next =>
    cases done
    exact ⟨before, every⟩
  next op _ =>
    split at done
    next =>
      cases done
      exact ⟨before, every⟩
    next =>
      split at done
      next => cases done
      next right st₁ h₁ first =>
        split at done
        next => cases done
        next second =>
          cases done
          obtain ⟨here, every⟩ := builds.expression every first
          -- the goal has the rest of the state under another bound, so the fact is stated first
          have rest := builds.chain every (builds.binary before here) second
          exact rest
  next op _ =>
    split at done
    next =>
      cases done
      exact ⟨before, every⟩
    next =>
      split at done
      next =>
        cases done
        exact ⟨before, every⟩
      next st₀ h₀ found =>
        split at done
        next => cases done
        next right st₁ h₁ first =>
          split at done
          next => cases done
          next second =>
            cases done
            obtain ⟨here, every⟩ := builds.expression (every.next found).2 first
            have rest := builds.chain every (builds.binary before here) second
            exact rest
termination_by 8 * st.size + 5

theorem operand (builds : Builds v A P) {spaced : Bool} {st : State} {e : Expr}
    {st' : { s : State // s.size < st.size }} (every : Every A st)
    (done : operand v stop spaced st = .ok (e, st')) : P e ∧ Every A st'.1 := by
  rw [Parser.operand] at done
  split at done
  next => cases done
  next t st₁ h₁ found =>
    obtain ⟨sort, every⟩ := every.next found
    split at done
    next =>
      split at done
      next => cases done
      next first =>
        cases done
        obtain ⟨here, every⟩ := builds.expression every first
        exact ⟨builds.unary here, every⟩
    next => exact builds.primary sort every done
termination_by 8 * st.size + 3

theorem primary (builds : Builds v A P) {spaced : Bool} {t : Token} {st₀ st : State} {e : Expr}
    {h : st.size < st₀.size} {st' : { s : State // s.size < st₀.size }} (sort : A t)
    (every : Every A st) (done : primary v stop spaced t st₀ st h = .ok (e, st')) :
    P e ∧ Every A st'.1 := by
  rw [Parser.primary] at done
  split at done
  next kind =>
    cases done
    exact ⟨builds.number sort kind, every⟩
  next kind => exact builds.identifier sort kind every done
  next =>
    split at done
    next => cases done
    next first =>
      split at done
      next => cases done
      next second =>
        cases done
        obtain ⟨here, every⟩ := builds.expression every first
        exact ⟨here, every.close second⟩
  next =>
    split at done
    next => cases done
    next es st₁ h₁ first =>
      split at done
      next => cases done
      next rows st₂ h₂ second =>
        split at done
        next => cases done
        next third =>
          cases done
          obtain ⟨here, every⟩ := builds.row every (by simp) first
          obtain ⟨all, every⟩ := builds.moreRows every (by simpa using here) second
          exact ⟨builds.bracketOf (moreRows_ne_nil (by simp) second) all third, every⟩
  next => cases done
termination_by 8 * st₀.size + 2

theorem identifier (builds : Builds v A P) {spaced : Bool} {t : Token} {st₀ st : State} {e : Expr}
    {h : st.size < st₀.size} {st' : { s : State // s.size < st₀.size }} (sort : A t)
    (kind : t.kind = .identifier) (every : Every A st)
    (done : identifier v stop spaced t st₀ st h = .ok (e, st')) : P e ∧ Every A st'.1 := by
  -- in each way to call, the tree is what `Vocabulary.called` says
  rw [Parser.identifier] at done
  split at done
  next =>
    split at done
    next isFunction =>
      split at done
      next => cases done
      next first =>
        cases done
        obtain ⟨args, rfl, all, every⟩ := builds.call every first
        have tree := builds.called sort kind (by simp [Vocabulary.isCalled, isFunction]) all
        rw [Vocabulary.called, if_pos isFunction] at tree
        exact ⟨tree, every⟩
    next isFunction =>
      split at done
      next ending =>
        split at done
        next => cases done
        next first =>
          cases done
          obtain ⟨args, rfl, all, every⟩ := builds.call every first
          have tree := builds.called sort kind (by simp [Vocabulary.isCalled, ending]) all
          rw [Vocabulary.called, if_neg isFunction, ending] at tree
          exact ⟨tree, every⟩
      next ending =>
        split at done
        next =>
          cases done
          exact ⟨builds.word sort kind fun called => absurd called isFunction, every⟩
        next unknown =>
          split at done
          next => cases done
          next first =>
            cases done
            obtain ⟨args, rfl, all, every⟩ := builds.call every first
            have tree := builds.called sort kind (by
              rw [Vocabulary.isCalled, Bool.eq_false_iff.2 unknown, Bool.not_false, Bool.or_true])
              all
            rw [Vocabulary.called, if_neg isFunction, ending] at tree
            exact ⟨tree, every⟩
  next =>
    split at done
    next => cases done
    next known =>
      cases done
      exact ⟨builds.word sort kind (by simpa using known), every⟩
termination_by 8 * st₀.size + 1

theorem call (builds : Builds v A P) {name : String} {st : State} {e : Expr}
    {st' : { s : State // s.size < st.size }} (every : Every A st)
    (done : call v stop name st = .ok (e, st')) :
    ∃ args, e = .call name args ∧ (∀ e ∈ args, P e) ∧ Every A st'.1 := by
  rw [Parser.call] at done
  split at done
  next => cases done
  next opening st₁ h₁ found =>
    have every := (every.next found).2
    split at done
    next closed =>
      cases done
      exact ⟨[], rfl, by simp, (every.next closed).2⟩
    next =>
      split at done
      next => cases done
      next first =>
        cases done
        obtain ⟨all, every⟩ := builds.arguments every (by simp) first
        exact ⟨_, rfl, all, every⟩
termination_by 8 * st.size

theorem arguments (builds : Builds v A P) {opening : Token} {before args : List Expr} {st : State}
    {st' : { s : State // s.size < st.size }} (every : Every A st) (all : ∀ e ∈ before, P e)
    (done : arguments v stop opening before st = .ok (args, st')) :
    (∀ e ∈ args, P e) ∧ Every A st'.1 := by
  rw [Parser.arguments] at done
  split at done
  next => cases done
  next e st₁ h₁ first =>
    obtain ⟨here, every⟩ := builds.expression every first
    have more := forall_mem_snoc all here
    split at done
    next comma =>
      split at done
      next => cases done
      next second =>
        cases done
        have rest := builds.arguments (every.next comma).2 more second
        exact rest
    next =>
      split at done
      next => cases done
      next closed =>
        cases done
        exact ⟨more, every.close closed⟩
termination_by 8 * st.size + 5

theorem row (builds : Builds v A P) {opening : Token} {before es : List Expr} {wanted : Bool}
    {st : State} {st' : { s : State // s.size < st.size + 1 }} (every : Every A st)
    (all : ∀ e ∈ before, P e) (done : row v stop opening before wanted st = .ok (es, st')) :
    (∀ e ∈ es, P e) ∧ Every A st'.1 := by
  rw [Parser.row] at done
  split at done
  next => cases done
  next t st₁ h₁ found =>
    split at done
    next =>
      split at done
      next => cases done
      next =>
        cases done
        exact ⟨all, (every.next found).2⟩
    next =>
      split at done
      next => cases done
      next =>
        split at done
        next => cases done
        next first =>
          cases done
          have rest := builds.row (every.next found).2 all first
          exact rest
    next =>
      split at done
      next => cases done
      next e st₂ h₂ first =>
        obtain ⟨here, every⟩ := builds.expression every first
        split at done
        next => cases done
        next second =>
          cases done
          have rest := builds.row every (forall_mem_snoc all here) second
          exact rest
termination_by 8 * st.size + 6

theorem moreRows (builds : Builds v A P) {spaced : Bool} {before rows : List (List Expr)}
    {st : State} {st' : { s : State // s.size < st.size + 1 }} (every : Every A st)
    (all : ∀ es ∈ before, ∀ e ∈ es, P e)
    (done : moreRows v stop spaced before st = .ok (rows, st')) :
    (∀ es ∈ rows, ∀ e ∈ es, P e) ∧ Every A st'.1 := by
  rw [Parser.moreRows] at done
  split at done
  next =>
    split at done
    next =>
      cases done
      exact ⟨all, every⟩
    next opening st₁ h₁ found =>
      split at done
      next => cases done
      next es st₂ h₂ first =>
        obtain ⟨here, every⟩ := builds.row (every.next found).2 (by simp) first
        split at done
        next => cases done
        next second =>
          cases done
          have more : ∀ es' ∈ before ++ [es], ∀ e ∈ es', P e := by
            intro es' member
            rcases List.mem_append.1 member with old | new
            · exact all es' old
            · cases List.mem_singleton.1 new
              exact here
          have rest := builds.moreRows every more second
          exact rest
  next =>
    cases done
    exact ⟨all, every⟩
termination_by 8 * st.size + 7

end

end Builds

end Parser

/-! ## Whole texts -/

/-- A text has no tokens, or it is a definition, or it is an expression. -/
theorem exists_of_parse {v : Vocabulary} {source : String} {e : Expr}
    (done : parse v source = .ok e) :
    ∃ tokens, scan source = .ok tokens ∧
      (e = .empty ∧ (Parser.skipBlanks tokens).isEmpty = true ∨
      (∃ name params body text rest st, e = .definition name.text params body text ∧
        Parser.definitionHead? tokens = some (name, params, rest) ∧
        Parser.expression (v.extend params) source.length false 0 ⟨none, rest⟩ = .ok (body, st)) ∨
      (Parser.skipBlanks tokens).isEmpty = false ∧ Parser.definitionHead? tokens = none ∧
        ∃ st, Parser.expression v source.length false 0 ⟨none, tokens⟩ = .ok (e, st) ∧
          Parser.next st.1 = none) := by
  unfold parse at done
  split at done
  next => cases done
  next tokens scanned =>
    refine ⟨tokens, scanned, ?_⟩
    unfold Parser.ofTokens at done
    dsimp only at done
    split at done
    next blank =>
      cases done
      exact .inl ⟨rfl, blank⟩
    next visible =>
      split at done
      next => cases done
      next read =>
        split at done
        next => cases done
        next last =>
          cases done
          split at read
          next name params rest head =>
            unfold Parser.definition at read
            split at read
            next => cases read
            next =>
              split at read
              next => cases read
              next body st _ first =>
                split at read
                next => cases read
                next =>
                  cases read
                  exact .inr (.inl ⟨_, _, _, _, rest, _, rfl, head, first⟩)
          next head =>
            split at read
            next => cases read
            next first =>
              cases read
              exact .inr (.inr ⟨Bool.eq_false_iff.2 visible, head, _, first, last⟩)

end Reckon
