import Reckon.Native.Apply
import Reckon.Proofs.Decimal.Held

/-!
# Calls of native functions

A native function of two numbers is no function of an angle. What its rule computes is its result,
rounded to the precision of the rules, which changes nothing if that precision holds the number.

Results: `isPair_of_name`, `IsPair.apply_ok`, `IsPair.apply_error`, `IsPair.apply_held`.
-/

namespace Reckon

theorem nativePrecision_digits_pos (precision : Nat) : 0 < (nativePrecision precision).digits :=
  Nat.succ_pos _

namespace Native

/-- A function of two numbers with this rule. -/
structure IsPair (n : Native) (rule : Rule) : Prop where
  rule_eq : n.rule = rule
  arity : n.params.length = 2
  plain : n.trigonometric = false

/-- The rule of the function of two numbers with this name. -/
def pairRule? : String → Option Rule
  | "perm" => some .permutations
  | "comb" => some .combinations
  | "mod" => some .remainder
  | "div" => some .quotient
  | "gcf" => some .commonFactor
  | _ => none

theorem isPair_of_name {n : Native} {rule : Rule} (member : n ∈ all)
    (named : pairRule? n.name = some rule) : n.IsPair rule := by
  have table : ∀ n ∈ all, ∀ rule, pairRule? n.name = some rule →
      n.rule = rule ∧ n.params.length = 2 ∧ n.trigonometric = false := by
    decide +kernel
  obtain ⟨rule_eq, arity, plain⟩ := table n member rule named
  exact ⟨rule_eq, arity, plain⟩

namespace IsPair

variable {n : Native} {rule : Rule} {precision : Nat} {unit : AngleUnit} {a b r : Decimal}

theorem apply_eq (pair : n.IsPair rule) :
    n.apply precision unit [.numeric a, .numeric b] = Term.numeric <$>
      n.evalNumbers precision unit [a, b] ([.numeric a, .numeric b].mapM (Term.render · none)) := by
  have checked : checkArity n.signature n.params.length 2 = .ok () := by
    rw [checkArity, if_pos pair.arity.symm]
  change (checkArity n.signature n.params.length 2 >>= fun _ => _) = _
  rw [checked]
  rfl

/-- What the rule finds is rounded once more. -/
theorem apply_ok (pair : n.IsPair rule)
    (computed : rule.eval (nativePrecision precision) [a, b] = .ok (.decimal r)) :
    n.apply precision unit [.numeric a, .numeric b] =
      Term.numeric <$> liftSignal ((nativePrecision precision).round r) := by
  rw [pair.apply_eq]
  obtain ⟨rfl, -, plain⟩ := pair
  unfold evalNumbers
  rw [plain]
  change Term.numeric <$> (n.rule.eval (nativePrecision precision) [a, b] >>= _) = _
  rw [computed]
  rfl

theorem apply_error {fault : Fault} (pair : n.IsPair rule)
    (failed : rule.eval (nativePrecision precision) [a, b] = .error fault) :
    n.apply precision unit [.numeric a, .numeric b] = .error fault := by
  rw [pair.apply_eq]
  obtain ⟨rfl, -, plain⟩ := pair
  unfold evalNumbers
  rw [plain]
  change Term.numeric <$> (n.rule.eval (nativePrecision precision) [a, b] >>= _) = _
  rw [failed]
  rfl

/-- A number that the precision of the rules holds is not changed. -/
theorem apply_held {q : ℚ} (pair : n.IsPair rule)
    (computed : rule.eval (nativePrecision precision) [a, b] = .ok (.decimal r))
    (value : r.toRat? = some q) (held : (nativePrecision precision).Holds q) :
    ∃ r, n.apply precision unit [.numeric a, .numeric b] = .ok (.numeric r) ∧
      r.toRat? = some q := by
  have given := Precision.round_gives (nativePrecision_digits_pos precision) value held.written
  obtain ⟨r', done, value'⟩ := given.exists_ok held.below
  refine ⟨r', ?_, value'⟩
  rw [pair.apply_ok computed, done]
  rfl

end IsPair

end Native

end Reckon
