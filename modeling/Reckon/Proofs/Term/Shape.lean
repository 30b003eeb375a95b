import Reckon.Proofs.Form.Shape
import Reckon.Proofs.Token
import Reckon.Term.Combine

/-!
# The looseness of texts that are put together

Outside of parentheses the looseness of a text is that of its parts and of the places where they
meet. A balanced text leaves the depth as it was, so that the parts can be looked at one by one.

Results: `Balanced.loosenessFrom_zero`, `AsTight.wrapped`, `AsTight.signed`, `AsTight.operator`,
`AsTight.adjoined`.
-/

namespace Reckon

/-- Two texts one after the other, the first one balanced. -/
theorem Balanced.loosenessFrom_zero {cs : List Char} (balanced : Balanced cs)
    (previous : Option Char) (rest : List Char) :
    loosenessFrom 0 previous (cs ++ rest) =
      min (loosenessFrom 0 previous cs) (loosenessFrom 0 (lastOf previous cs) rest) := by
  induction balanced generalizing previous with
  | nil => exact (min_eq_right (loosenessFrom_le 0 previous rest)).symm
  | plain opening closing _ ih =>
    rw [List.cons_append, loosenessFrom_cons _ opening closing,
      loosenessFrom_cons _ opening closing, ih, min_assoc]
    rfl
  | @group inner cs inside _ _ ih =>
    rw [List.cons_append, List.append_assoc, List.cons_append, loosenessFrom_group inside,
      loosenessFrom_group inside, ih, min_assoc, lastOf, lastOf_append]
    rfl

/-- A sign counts for less after an operator than at the beginning. -/
theorem bindingAt_le_operator {p : Char} (operator : isOperatorChar p = true) (c : Char) :
    bindingAt none c ≤ bindingAt (some p) c := by
  cases operand : isOperatorChar c with
  | false =>
    rw [bindingAt_operand _ operand, bindingAt_operand _ operand, Option.any_some,
      adjoinAsProduct_operator operator]
    exact le_refl _
  | true =>
    unfold bindingAt
    dsimp only
    rw [operator, if_pos rfl, Option.any_some, adjoinAsProduct_operator operator]
    split
    · exact le_refl _
    split
    · decide
    · exact le_refl _

/-- After an operator a text is no looser than at the beginning. -/
theorem loosenessFrom_le_operator {p : Char} (operator : isOperatorChar p = true) (cs : List Char) :
    loosenessFrom 0 none cs ≤ loosenessFrom 0 (some p) cs := by
  cases cs with
  | nil => exact le_refl _
  | cons c cs =>
    rw [loosenessFrom, loosenessFrom, if_pos rfl, if_pos rfl]
    exact min_le_min_right _ (bindingAt_le_operator operator c)

/-- A text in parentheses is one unit. -/
theorem looseness_wrapped {cs : List Char} (balanced : Balanced cs) (previous : Option Char)
    (apart : bindingAt previous '(' = Binding.atom) :
    loosenessFrom 0 previous ('(' :: (cs ++ [')'])) = Binding.atom := by
  rw [loosenessFrom_group balanced, apart]
  rfl

/-- A partner of the first parenthesis is the last character. -/
theorem Balanced.eq_nil_of_closesAtEnd {cs rest : List Char} (balanced : Balanced cs)
    (closes : closesAtEnd 1 (cs ++ ')' :: rest) = true) : rest = [] := by
  rw [balanced.closesAtEnd_append (by decide)] at closes
  simpa [closesAtEnd] using closes

/-- A balanced text that parentheses enclose is one unit. -/
theorem Balanced.looseness_of_isWrapped {cs : List Char} (balanced : Balanced cs)
    (wrapped : isWrapped cs = true) : loosenessFrom 0 none cs = Binding.atom := by
  cases balanced with
  | nil => cases wrapped
  | plain opening closing rest =>
    unfold isWrapped at wrapped
    split at wrapped
    next same => exact absurd (List.cons.inj same).1 opening
    next => cases wrapped
  | group inside rest =>
    rw [inside.eq_nil_of_closesAtEnd wrapped]
    exact looseness_wrapped inside none rfl

/-! ## Bounds on the looseness -/

/-- Every parenthesis of the text has its partner, and no operation outside of parentheses is looser
than the bound. -/
structure AsTight (bound : Binding) (cs : List Char) : Prop where
  balanced : Balanced cs
  le : bound ≤ loosenessFrom 0 none cs

/-- An operator is no looser than its binding, whatever stands in front of it. -/
theorem binding_le_bindingAt (op : Operator) (previous : Option Char) :
    ∀ c ∈ op.symbol.toList, op.binding ≤ bindingAt previous c := by
  have sum : ∀ c, c = '+' ∨ c = '-' → Binding.additive ≤ bindingAt previous c := by
    intro c isSum
    cases previous with
    | none => rcases isSum with rfl | rfl <;> decide
    | some p =>
      rcases isSum with rfl | rfl <;> cases operator : isOperatorChar p <;>
        simp [bindingAt, operator, Binding.additive, Binding.atom]
  have plus := sum '+' (Or.inl rfl)
  have minus := sum '-' (Or.inr rfl)
  have comparison : Binding.comparison ≤ bindingAt previous '+' :=
    (by decide : Binding.comparison ≤ Binding.additive).trans plus
  cases op <;> simp [Operator.symbol, Operator.binding, plus, minus, comparison] <;>
    simp [bindingAt, Binding.comparison, Binding.multiplicative, Binding.exponent]

theorem le_loosenessFrom_symbol {op : Operator} {bound : Binding} (loose : bound ≤ op.binding)
    {rest : List Char} (le : bound ≤ loosenessFrom 0 none rest) (previous : Option Char) :
    bound ≤ loosenessFrom 0 previous (op.symbol.toList ++ rest) := by
  have operators : ∀ c ∈ op.symbol.toList, isOperatorChar c = true :=
    List.all_eq_true.1 (by cases op <;> decide)
  have through : ∀ (cs : List Char) (previous : Option Char),
      (∀ c ∈ cs, isOperatorChar c = true ∧ ∀ q, bound ≤ bindingAt q c) →
      bound ≤ loosenessFrom 0 (lastOf previous cs) rest →
      bound ≤ loosenessFrom 0 previous (cs ++ rest) := by
    intro cs
    induction cs with
    | nil => exact fun _ _ le => le
    | cons c cs ih =>
      intro previous all le
      obtain ⟨⟨operator, here⟩, others⟩ := List.forall_mem_cons.1 all
      have apart : c ≠ '(' ∧ c ≠ ')' := by
        constructor <;> rintro rfl <;> exact absurd operator (by decide)
      rw [List.cons_append, loosenessFrom_cons _ apart.1 apart.2]
      exact le_min (here previous) (ih (some c) others le)
  obtain ⟨p, last, operator⟩ := Form.exists_lastOf (symbol_ne_nil op) operators previous
  refine through _ _ (fun c member => ⟨operators c member, fun q => loose.trans
    (binding_le_bindingAt op q c member)⟩) ?_
  rw [last]
  exact le.trans (loosenessFrom_le_operator operator rest)

/-- Where two operands meet, there is a product at most. -/
theorem le_loosenessFrom_operand {bound : Binding} {c : Char} {cs : List Char}
    (operand : isOperatorChar c = false) (loose : bound ≤ Binding.multiplicative)
    (le : bound ≤ loosenessFrom 0 none (c :: cs)) (previous : Option Char) :
    bound ≤ loosenessFrom 0 previous (c :: cs) := by
  rw [loosenessFrom, if_pos rfl] at le ⊢
  refine le_min (loose.trans ?_) (le.trans (min_le_right _ _))
  rw [bindingAt_operand _ operand]
  split <;> decide

namespace AsTight

variable {bound : Binding} {cs left right : List Char}

theorem mono {bound' : Binding} (tight : AsTight bound cs) (le : bound' ≤ bound) :
    AsTight bound' cs :=
  ⟨tight.balanced, le.trans tight.le⟩

/-- In parentheses a text is one unit. -/
theorem wrapped (balanced : Balanced cs) : AsTight Binding.atom ('(' :: (cs ++ [')'])) :=
  ⟨.group balanced .nil, (looseness_wrapped balanced none rfl).ge⟩

/-- A text that binds as tightly as a sign can have one in front of it. -/
theorem signed (tight : AsTight Binding.unary cs) : AsTight Binding.unary ('-' :: cs) := by
  refine ⟨.plain (by decide) (by decide) tight.balanced, ?_⟩
  rw [loosenessFrom_cons _ (by decide) (by decide)]
  exact le_min (by decide) (tight.le.trans (loosenessFrom_le_operator (by decide) cs))

theorem operator {op : Operator} (first : AsTight bound left) (second : AsTight bound right)
    (loose : bound ≤ op.binding) : AsTight bound (left ++ (op.symbol.toList ++ right)) := by
  refine ⟨first.balanced.append ((Form.balanced_symbol op).append second.balanced), ?_⟩
  rw [first.balanced.loosenessFrom_zero]
  exact le_min first.le (le_loosenessFrom_symbol loose second.le _)

/-- Two factors side by side, of which the second begins with no operator. -/
theorem adjoined {c : Char} (first : AsTight bound left) (second : AsTight bound (c :: cs))
    (operand : isOperatorChar c = false) (loose : bound ≤ Binding.multiplicative) :
    AsTight bound (left ++ c :: cs) := by
  refine ⟨first.balanced.append second.balanced, ?_⟩
  rw [first.balanced.loosenessFrom_zero]
  exact le_min first.le (le_loosenessFrom_operand operand loose second.le _)

end AsTight

end Reckon
