import Reckon.Proofs.Expr.Trees
import Reckon.Proofs.Form
import Reckon.Simplify

/-!
# Reading where letters have values

A letter that gets a value becomes a whole, but it is cut off as a whole anyway. What changes is
what stands in front of a parenthesis: `x(y+1)` calls an unknown `x` and multiplies by a known one.
So a tree without calls is read from the same text before and after letters get values.

Results: `Vocabulary.Gains.expression`, `Vocabulary.Gains.parse`.
-/

namespace Reckon

namespace Vocabulary

/-- The second vocabulary knows what the first one knows and perhaps more names of one letter. -/
structure Gains (v w : Vocabulary) : Prop where
  isFunction : w.isFunction = v.isFunction
  known : ∀ {name}, v.isKnown name = true → w.isKnown name = true
  long : ∀ {name}, name.toList.length ≠ 1 → w.isKnown name = v.isKnown name

namespace Gains

variable {v w : Vocabulary} {stop : Nat}

/-! ## Identifiers -/

/-- Only names of two and more letters are looked for. -/
theorem longestKnown? (gains : v.Gains w) (cs : List Char) (n : Nat) :
    w.longestKnown? cs n = v.longestKnown? cs n := by
  induction n with
  | zero => rfl
  | succ n ih =>
    rw [Vocabulary.longestKnown?, Vocabulary.longestKnown?, ih]
    by_cases candidate : n + 1 ≤ cs.length ∧ 2 ≤ n + 1
    · obtain ⟨short, several⟩ := candidate
      rw [gains.long]
      rw [String.toList_ofList, List.length_take, Nat.min_eq_left short]
      omega
    · have refused : (decide (n + 1 ≤ cs.length) && decide (2 ≤ n + 1)) = false := by
        rw [← Bool.decide_and]
        exact decide_eq_false candidate
      simp only [refused, Bool.false_and]

theorem cut (gains : v.Gains w) (cs : List Char) : w.cut cs = v.cut cs := by
  induction cs using Vocabulary.cut.induct v with
  | case1 => rw [Vocabulary.cut, Vocabulary.cut]
  | case2 c rest n found ih =>
    rw [Vocabulary.cut, Vocabulary.cut, gains.longestKnown?, found]
    exact congrArg _ ih
  | case3 c rest found ih =>
    rw [Vocabulary.cut, Vocabulary.cut, gains.longestKnown?, found]
    exact congrArg _ ih

theorem pieces (gains : v.Gains w) (name : String) : w.pieces name = v.pieces name := by
  by_cases single : name.toList.length = 1
  · rw [Form.pieces_word (Or.inr single), Form.pieces_word (Or.inr single)]
  · rw [Vocabulary.pieces, Vocabulary.pieces, gains.long single, gains.cut]

theorem productOfNames (gains : v.Gains w) (name : String) :
    w.productOfNames name = v.productOfNames name := by
  rw [Vocabulary.productOfNames, Vocabulary.productOfNames, gains.pieces]

theorem functionEnding? (gains : v.Gains w) (front back : List Char) :
    w.functionEnding? front back = v.functionEnding? front back := by
  induction back generalizing front with
  | nil => rfl
  | cons c back ih =>
    rw [Vocabulary.functionEnding?, Vocabulary.functionEnding?, gains.isFunction, ih]

/-! ## Expressions -/

/-- A name is called, or it is read as before. -/
theorem identifier (gains : v.Gains w) {spaced : Bool} {t : Token} {st₀ st : Parser.State}
    {h : st.size < st₀.size} {e : Expr} {st' : { s : Parser.State // s.size < st₀.size }}
    (done : Parser.identifier v stop spaced t st₀ st h = .ok (e, st'))
    (arithmetic : e.isArithmetic = true) :
    Parser.identifier w stop spaced t st₀ st h = .ok (e, st') := by
  have noCall : ∀ {name : String} {result : Expr × { s : Parser.State // s.size < st.size }},
      Parser.call v stop name st = .ok result → result.1.isArithmetic = false := by
    intro name result called
    rw [Parser.call] at called
    split at called
    next => cases called
    next =>
      split at called
      next => cases called; rfl
      next =>
        split at called
        next => cases called
        next => cases called; rfl
  rw [Parser.identifier] at done ⊢
  rw [gains.isFunction, gains.functionEnding?, gains.productOfNames, gains.pieces]
  split at done
  next adjacent =>
    -- of all ways to go on in front of a parenthesis only a product gives no call
    rw [if_pos adjacent]
    split at done
    next =>
      split at done
      next => cases done
      next first =>
        cases done
        rw [noCall first] at arithmetic
        cases arithmetic
    next notFunction =>
      rw [if_neg notFunction]
      split at done
      next =>
        split at done
        next => cases done
        next first =>
          cases done
          rw [Expr.juxtaposed, Expr.isArithmetic, noCall first, Bool.and_false] at arithmetic
          cases arithmetic
      next ending =>
        split at done
        next known =>
          have known' : (v.pieces t.text).all w.isKnown = true := by
            rw [List.all_eq_true] at known ⊢
            exact fun name member => gains.known (known name member)
          rw [if_pos known']
          exact done
        next =>
          split at done
          next => cases done
          next first =>
            cases done
            rw [noCall first] at arithmetic
            cases arithmetic
  next apart =>
    rw [if_neg apart]
    split at done
    next => cases done
    next known =>
      -- the name of a function stands alone only where it is known as something else
      have known' : ¬ ((v.isFunction t.text && !w.isKnown t.text) = true) := by
        intro unknown
        obtain ⟨isFunction, other⟩ := Bool.and_eq_true_iff.1 unknown
        cases before : v.isKnown t.text with
        | false => exact known (by rw [isFunction, before]; rfl)
        | true =>
          rw [gains.known before] at other
          cases other
      rw [if_neg known']
      exact done

/-- What stands in brackets is a vector or a matrix. -/
theorem isArithmetic_bracketOf {rows : List (List Expr)} {first last : Nat} {e : Expr}
    (done : Parser.bracketOf rows first last = .ok e) : e.isArithmetic = false := by
  have matrix : ∀ {rows : List Expr}, Parser.matrixOf rows first last = .ok e →
      e.isArithmetic = false := by
    intro rows done
    unfold Parser.matrixOf at done
    split at done
    next => cases done; rfl
    next =>
      dsimp only at done
      split at done
      next => cases done
      next =>
        split at done
        next => cases done
        next => cases done; rfl
  unfold Parser.bracketOf at done
  split at done
  next => cases done; rfl
  next =>
    split at done
    next => exact matrix done
    next => cases done; rfl
  next => exact matrix done

-- by recursion on what is left to read, as the readers themselves
mutual

theorem expression (gains : v.Gains w) {spaced : Bool} {least : Binding} {st : Parser.State}
    {e : Expr} {st' : { s : Parser.State // s.size < st.size }}
    (done : Parser.expression v stop spaced least st = .ok (e, st'))
    (arithmetic : e.isArithmetic = true) :
    Parser.expression w stop spaced least st = .ok (e, st') := by
  rw [Parser.expression] at done ⊢
  split at done
  next => cases done
  next left st₁ h₁ first =>
    split at done
    next => cases done
    next second =>
      cases done
      obtain ⟨leftArithmetic, second'⟩ := gains.chain second arithmetic
      rw [gains.operand first leftArithmetic]
      dsimp only
      rw [second']
termination_by 8 * st.size + 4

theorem chain (gains : v.Gains w) {spaced : Bool} {least : Binding} {left e : Expr}
    {st : Parser.State} {st' : { s : Parser.State // s.size < st.size + 1 }}
    (done : Parser.chain v stop spaced least left st = .ok (e, st'))
    (arithmetic : e.isArithmetic = true) :
    left.isArithmetic = true ∧ Parser.chain w stop spaced least left st = .ok (e, st') := by
  rw [Parser.chain] at done ⊢
  split at done
  next => cases done
  next =>
    cases done
    exact ⟨arithmetic, rfl⟩
  next op _ =>
    split at done
    next loose =>
      cases done
      exact ⟨arithmetic, by rw [if_pos loose]⟩
    next tight =>
      rw [if_neg tight]
      split at done
      next => cases done
      next right st₁ h₁ first =>
        split at done
        next => cases done
        next second =>
          cases done
          -- what follows in the chain has this product as a part
          obtain ⟨both, second'⟩ := gains.chain second arithmetic
          obtain ⟨leftArithmetic, rightArithmetic⟩ := Bool.and_eq_true_iff.1 both
          refine ⟨leftArithmetic, ?_⟩
          rw [gains.expression first rightArithmetic]
          dsimp only
          rw [second']
  next op _ =>
    split at done
    next loose =>
      cases done
      exact ⟨arithmetic, by rw [if_pos loose]⟩
    next tight =>
      rw [if_neg tight]
      split at done
      next =>
        cases done
        exact ⟨arithmetic, rfl⟩
      next st₀ h₀ _ =>
        split at done
        next => cases done
        next right st₁ h₁ first =>
          split at done
          next => cases done
          next second =>
            cases done
            obtain ⟨both, second'⟩ := gains.chain second arithmetic
            obtain ⟨leftArithmetic, rightArithmetic⟩ := Bool.and_eq_true_iff.1 both
            refine ⟨leftArithmetic, ?_⟩
            rw [gains.expression first rightArithmetic]
            dsimp only
            rw [second']
termination_by 8 * st.size + 5

theorem operand (gains : v.Gains w) {spaced : Bool} {st : Parser.State} {e : Expr}
    {st' : { s : Parser.State // s.size < st.size }}
    (done : Parser.operand v stop spaced st = .ok (e, st'))
    (arithmetic : e.isArithmetic = true) : Parser.operand w stop spaced st = .ok (e, st') := by
  rw [Parser.operand] at done ⊢
  split at done
  next => cases done
  next t st₁ h₁ _ =>
    split at done
    next =>
      split at done
      next => cases done
      next first =>
        cases done
        rw [gains.expression first arithmetic]
    next => exact gains.primary done arithmetic
termination_by 8 * st.size + 3

theorem primary (gains : v.Gains w) {spaced : Bool} {t : Token} {st₀ st : Parser.State} {e : Expr}
    {h : st.size < st₀.size} {st' : { s : Parser.State // s.size < st₀.size }}
    (done : Parser.primary v stop spaced t st₀ st h = .ok (e, st'))
    (arithmetic : e.isArithmetic = true) :
    Parser.primary w stop spaced t st₀ st h = .ok (e, st') := by
  rw [Parser.primary] at done ⊢
  split at done
  next => exact done
  next => exact gains.identifier done arithmetic
  next =>
    split at done
    next => cases done
    next first =>
      split at done
      next => cases done
      next second =>
        cases done
        rw [gains.expression first arithmetic]
        dsimp only
        rw [second]
  next =>
    split at done
    next => cases done
    next =>
      split at done
      next => cases done
      next =>
        split at done
        next => cases done
        next third =>
          cases done
          rw [isArithmetic_bracketOf third] at arithmetic
          cases arithmetic
  next => cases done
termination_by 8 * st₀.size + 2

end

/-! ## Whole texts -/

/-- A tree without calls is read from the same text. -/
theorem parse (gains : v.Gains w) {source : String} {e : Expr}
    (done : Reckon.parse v source = .ok e) (arithmetic : e.isArithmetic = true) :
    Reckon.parse w source = .ok e := by
  obtain ⟨tokens, scanned, ⟨rfl, blank⟩ | ⟨name, params, body, text, rest, st, rfl, -, -⟩ |
    ⟨visible, head, st, first, last⟩⟩ := exists_of_parse done
  · rw [Reckon.parse, scanned]
    dsimp only
    rw [Parser.ofTokens, if_pos blank]
  · cases arithmetic
  · rw [Reckon.parse, scanned]
    dsimp only
    rw [Parser.ofTokens, visible, if_neg Bool.false_ne_true, head]
    dsimp only
    rw [gains.expression first arithmetic]
    dsimp only
    rw [last]

end Gains

end Vocabulary

end Reckon
