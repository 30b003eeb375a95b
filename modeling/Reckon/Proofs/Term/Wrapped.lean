import Mathlib.Data.List.Infix
import Mathlib.Logic.Function.Iterate
import Reckon.Proofs.Term.Faithful

/-!
# The pair of parentheses around a text

`isWrapped` follows the depth from the left; `EvenlyPaired` says by counting what it looks for. The
two agree on every text, balanced or not (`isWrapped_iff`). So taking the first and the last
character away as long as a text is wrapped takes away nothing but pairs, and ends at a text that
is not wrapped (`isWrapped_iff_and_removeParens`).
-/

namespace Reckon

/-- No part from the beginning closes more parentheses than it opens, and the whole closes as many
as it opens. -/
structure EvenlyPaired (cs : List Char) : Prop where
  opened : ∀ start, start <+: cs → start.count ')' ≤ start.count '('
  closed : cs.count '(' = cs.count ')'

/-! ## The depth of a text -/

/-- With `depth` parentheses open in front of it, a text leaves at least one of them open all the
time, and just one in the end. -/
structure LeavesOne (depth : Nat) (cs : List Char) : Prop where
  opened : ∀ start, start <+: cs → start.count ')' < start.count '(' + depth
  closed : cs.count ')' + 1 = cs.count '(' + depth

theorem leavesOne_nil {depth : Nat} : LeavesOne depth [] ↔ depth = 1 := by
  constructor
  · intro leaves
    simpa using leaves.closed.symm
  · rintro rfl
    refine ⟨fun start begins => ?_, rfl⟩
    rw [List.prefix_nil.1 begins]
    decide

theorem leavesOne_one {cs : List Char} : LeavesOne 1 cs ↔ EvenlyPaired cs := by
  constructor
  · intro leaves
    exact ⟨fun start begins => Nat.lt_succ_iff.1 (leaves.opened start begins),
      (Nat.succ.inj leaves.closed).symm⟩
  · intro paired
    exact ⟨fun start begins => Nat.lt_succ_iff.2 (paired.opened start begins),
      congrArg (· + 1) paired.closed.symm⟩

/-- How many parentheses are open after a character. -/
def nextDepth (depth : Nat) (c : Char) : Nat :=
  if c = '(' then depth + 1 else if c = ')' then depth - 1 else depth

/-- The first character only moves the depth that the rest begins with. -/
theorem leavesOne_cons {depth : Nat} {c : Char} {cs : List Char} (inside : 0 < depth) :
    LeavesOne depth (c :: cs) ↔ LeavesOne (nextDepth depth c) cs := by
  have moved : ∀ s : List Char, (c :: s).count '(' + depth + s.count ')' =
      s.count '(' + nextDepth depth c + (c :: s).count ')' := by
    intro s
    unfold nextDepth
    by_cases opening : c = '('
    · simp [opening]
      omega
    by_cases closing : c = ')'
    · simp [closing]
      omega
    · simp [opening, closing]
  constructor
  · intro leaves
    refine ⟨fun start begins => ?_, ?_⟩
    · have here := leaves.opened (c :: start) (List.cons_prefix_cons.2 ⟨rfl, begins⟩)
      have same := moved start
      omega
    · have here := leaves.closed
      have same := moved cs
      omega
  · intro leaves
    refine ⟨fun start begins => ?_, ?_⟩
    · rcases List.prefix_cons_iff.1 begins with rfl | ⟨rest, rfl, begins⟩
      · simpa using inside
      · have here := leaves.opened rest (List.cons_prefix_cons.1 begins).2
        have same := moved rest
        omega
    · have here := leaves.closed
      have same := moved cs
      omega

/-! ## Wrapped texts -/

theorem closesAtEnd_cons {depth : Nat} {c : Char} {cs : List Char}
    (inside : 0 < nextDepth depth c) :
    closesAtEnd depth (c :: cs) = closesAtEnd (nextDepth depth c) cs := by
  unfold nextDepth at inside ⊢
  rw [closesAtEnd]
  by_cases opening : c = '('
  · simp [opening]
  by_cases closing : c = ')'
  · subst closing
    simp only [show ¬(')' = '(') by decide, if_false, if_true] at inside ⊢
    simp [show ¬depth ≤ 1 by omega]
  · simp [opening, closing]

/-- The last character closes what is open, and no other does. -/
theorem closesAtEnd_iff {depth : Nat} {cs : List Char} (inside : 0 < depth) :
    closesAtEnd depth cs = true ↔ ∃ front, cs = front ++ [')'] ∧ LeavesOne depth front := by
  induction cs generalizing depth with
  | nil => simp [closesAtEnd]
  | cons c cs ih =>
    rcases Nat.eq_zero_or_pos (nextDepth depth c) with shut | open'
    · -- a character that closes the last parenthesis has to be the last one
      obtain ⟨rfl, rfl⟩ : c = ')' ∧ depth = 1 := by
        unfold nextDepth at shut
        split at shut
        next => omega
        next =>
          split at shut
          next closing => exact ⟨closing, by omega⟩
          next => omega
      constructor
      · intro closes
        obtain rfl : cs = [] := by simpa [closesAtEnd] using closes
        exact ⟨[], rfl, leavesOne_nil.2 rfl⟩
      · rintro ⟨front, shape, leaves⟩
        cases front with
        | nil => simp [closesAtEnd, (List.cons.inj shape).2]
        | cons d front =>
          obtain ⟨rfl, -⟩ := List.cons.inj shape
          have after := ((leavesOne_cons Nat.one_pos).1 leaves).opened [] List.nil_prefix
          exact absurd after (by decide)
    · rw [closesAtEnd_cons open', ih open']
      constructor
      · rintro ⟨front, rfl, leaves⟩
        exact ⟨c :: front, rfl, (leavesOne_cons inside).2 leaves⟩
      · rintro ⟨front, shape, leaves⟩
        cases front with
        | nil =>
          obtain ⟨rfl, rfl⟩ := List.cons.inj shape
          obtain rfl := leavesOne_nil.1 leaves
          exact absurd open' (by decide)
        | cons d front =>
          obtain ⟨rfl, rest⟩ := List.cons.inj shape
          exact ⟨front, rest, (leavesOne_cons inside).1 leaves⟩

theorem isWrapped_iff {cs : List Char} :
    isWrapped cs = true ↔ ∃ inside, cs = '(' :: (inside ++ [')']) ∧ EvenlyPaired inside := by
  constructor
  · intro wrapped
    unfold isWrapped at wrapped
    split at wrapped
    next rest =>
      obtain ⟨inside, rfl, leaves⟩ := (closesAtEnd_iff Nat.one_pos).1 wrapped
      exact ⟨inside, rfl, leavesOne_one.1 leaves⟩
    next => cases wrapped
  · rintro ⟨inside, rfl, paired⟩
    exact (closesAtEnd_iff Nat.one_pos).2 ⟨inside, rfl, leavesOne_one.2 paired⟩

/-! ## Layers -/

theorem inner_wrapped (cs : List Char) : inner ('(' :: (cs ++ [')'])) = cs := by
  simp [inner]

/-- So many pairs of parentheses around a text. -/
def layered (layers : Nat) (cs : List Char) : List Char :=
  List.replicate layers '(' ++ cs ++ List.replicate layers ')'

theorem layered_succ (layers : Nat) (cs : List Char) :
    layered (layers + 1) cs = '(' :: (layered layers cs ++ [')']) := by
  rw [layered, List.replicate_succ, List.replicate_succ', layered]
  simp

theorem isWrapped_unwrap (cs : List Char) : isWrapped (unwrap cs) = false := by
  induction cs using unwrap.induct with
  | case1 cs wrapped ih =>
    rw [unwrap, dif_pos wrapped]
    exact ih
  | case2 cs bare =>
    rw [unwrap, dif_neg bare]
    exact Bool.eq_false_iff.2 bare

/-- What is taken away is a number of pairs, one after the other. -/
theorem exists_layers (cs : List Char) : ∃ layers, cs = layered layers (unwrap cs) ∧
    (∀ j < layers, isWrapped (inner^[j] cs) = true) ∧ inner^[layers] cs = unwrap cs ∧
    (0 < layers → EvenlyPaired (unwrap cs)) := by
  induction cs using unwrap.induct with
  | case1 cs wrapped ih =>
    obtain ⟨layers, shape, each, last, paired⟩ := ih
    obtain ⟨inside, rfl, insidePaired⟩ := isWrapped_iff.1 wrapped
    rw [inner_wrapped] at shape each last paired
    rw [unwrap, dif_pos wrapped, inner_wrapped]
    refine ⟨layers + 1, ?_, fun j small => ?_, ?_, fun _ => ?_⟩
    · rw [layered_succ, ← shape]
    · cases j with
      | zero => exact wrapped
      | succ j =>
        rw [Function.iterate_succ_apply, inner_wrapped]
        exact each j (Nat.lt_of_succ_lt_succ small)
    · rw [Function.iterate_succ_apply, inner_wrapped, last]
    · cases layers with
      | zero =>
        rw [← last]
        exact insidePaired
      | succ layers => exact paired (Nat.succ_pos layers)
  | case2 cs bare =>
    rw [unwrap, dif_neg bare]
    exact ⟨0, by simp [layered], fun j small => absurd small (Nat.not_lt_zero j), rfl,
      fun some => absurd some (Nat.lt_irrefl 0)⟩

/-! ## Terms -/

/-- A number is not written in parentheses. -/
theorem Decimal.isWrapped_plain (n : Decimal) : isWrapped n.plain.toList = false := by
  obtain ⟨negative, body, shape, kind⟩ := n.exists_plain
  rw [shape]
  cases negative with
  | true => rfl
  | false =>
    rcases kind with ⟨m, rfl⟩ | rfl | ⟨-, signaling, payload, rfl⟩
    · obtain ⟨c, cs, digits, digit⟩ := m.exists_chars
      rw [digits]
      refine Bool.eq_false_iff.2 fun wrapped => ?_
      obtain ⟨inside, start, -⟩ := isWrapped_iff.1 wrapped
      obtain ⟨rfl, -⟩ := List.cons.inj start
      exact absurd digit (by decide)
    · rfl
    · cases signaling <;> rfl

namespace Term

/-- Nothing is left around the text of a term whose parentheses are taken away. -/
theorem isWrapped_removeParens (t : Term) : isWrapped t.removeParens.text.toList = false := by
  unfold removeParens
  dsimp only
  split
  · unfold ofText
    split
    · exact Decimal.isWrapped_plain _
    · rw [ofName, text, String.toList_ofList]
      exact isWrapped_unwrap _
  next bare => exact Bool.eq_false_iff.2 bare

theorem removeParens_wrapped {t : Term} (wrapped : isWrapped t.text.toList = true) :
    t.removeParens = .ofText (String.ofList (unwrap t.text.toList)) := by
  unfold removeParens
  exact if_pos wrapped

end Term

/-- A text is wrapped just if it is an evenly paired text in parentheses. Taking the parentheses of
a term away ends after at least one pair if there is any, and leaves a term without a pair around
it. -/
theorem isWrapped_iff_and_removeParens (s : String) :
    (isWrapped s.toList = true ↔ ∃ t : String, s = "(" ++ t ++ ")" ∧ EvenlyPaired t.toList) ∧
    (isWrapped s.toList = true → ∃ layers rest, 1 ≤ layers ∧
      s.toList = List.replicate layers '(' ++ rest ++ List.replicate layers ')' ∧
      EvenlyPaired rest ∧ isWrapped rest = false ∧
      (∀ j < layers, isWrapped (inner^[j] s.toList) = true) ∧ inner^[layers] s.toList = rest ∧
      ∀ t : Term, t.text = s → t.removeParens = .ofText (String.ofList rest)) ∧
    ∀ t : Term, isWrapped t.removeParens.text.toList = false := by
  refine ⟨⟨fun wrapped => ?_, ?_⟩, fun wrapped => ?_, Term.isWrapped_removeParens⟩
  · obtain ⟨inside, shape, paired⟩ := isWrapped_iff.1 wrapped
    refine ⟨String.ofList inside, ?_, by rwa [String.toList_ofList]⟩
    rw [← String.toList_inj, shape]
    simp
  · rintro ⟨t, rfl, paired⟩
    exact isWrapped_iff.2 ⟨t.toList, by simp, paired⟩
  · obtain ⟨layers, shape, each, last, paired⟩ := exists_layers s.toList
    have some : 0 < layers := by
      refine Nat.pos_of_ne_zero fun none => ?_
      rw [none, Function.iterate_zero_apply] at last
      rw [last, isWrapped_unwrap] at wrapped
      cases wrapped
    refine ⟨layers, unwrap s.toList, some, shape, paired some, isWrapped_unwrap _, each, last, ?_⟩
    rintro t rfl
    exact Term.removeParens_wrapped wrapped

end Reckon
