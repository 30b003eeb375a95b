import Mathlib.Algebra.Algebra.Rat
import Reckon.Proofs.Decimal.Value
import Reckon.Expr.Names

/-!
# The meaning of an expression

An interpretation says what quotients, powers, comparisons and calls are in a ring; literals, signs,
sums and products have their usual meaning. `Expr.value` is then the element of the ring that a tree
denotes under an assignment of its variables. `Interpretation.rational` is exact arithmetic.

Results: `mentions_iff`, `mem_names` (the listed variables are those that occur).
-/

namespace Reckon

/-- What the operations that a ring does not have are to mean. -/
structure Interpretation (K : Type) where
  divide : K → K → K
  power : K → K → K
  compare : Operator → K → K → K
  call : String → List K → K

namespace Interpretation

/-- The value of an operator. -/
def apply {K : Type} [Ring K] (I : Interpretation K) (op : Operator) (a b : K) : K :=
  match op with
  | .plus | .increase => a + b
  | .minus => a - b
  | .times => a * b
  | .divide => I.divide a b
  | .power => I.power a b
  | op => I.compare op a b

/-- One if the comparison holds, zero otherwise. -/
def truth (op : Operator) (a b : ℚ) : ℚ :=
  match op with
  | .greater => if b < a then 1 else 0
  | .less => if a < b then 1 else 0
  | .greaterEqual => if b ≤ a then 1 else 0
  | .lessEqual => if a ≤ b then 1 else 0
  | .notEqual => if a = b then 0 else 1
  | .equal => if a = b then 1 else 0
  | _ => 0

/-- Exact arithmetic: quotients, powers with a whole exponent and comparisons. -/
def rational : Interpretation ℚ where
  divide a b := a / b
  power a b := if b.den = 1 then a ^ b.num else 0
  compare := truth
  call _ _ := 0

theorem rational_divide (a b : ℚ) : rational.divide a b = a / b := rfl

theorem rational_power_int (a : ℚ) (n : ℤ) : rational.power a n = a ^ n := by
  simp [rational]

theorem rational_power_nat (a : ℚ) (n : Nat) : rational.power a n = a ^ n := by
  have power := rational_power_int a n
  rwa [Int.cast_natCast, zpow_natCast] at power

end Interpretation

/-- The value of a literal; those that are no numbers count as zero. -/
def Decimal.toRat (a : Decimal) : ℚ :=
  a.toRat?.getD 0

theorem Decimal.toRat_of_toRat? {a : Decimal} {q : ℚ} (value : a.toRat? = some q) :
    a.toRat = q := by
  rw [toRat, value, Option.getD_some]

namespace Expr

/-- The value of a sign in front of an operand. -/
def signed {K : Type} [Ring K] : Sign → K → K
  | .positive, a => a
  | .negative, a => -a

section Value

variable {K : Type} [Ring K] [Algebra ℚ K] (I : Interpretation K) (ρ : String → K)

mutual

/-- The value of a tree under an assignment of its variables. -/
def value : Expr → K
  | .literal n _ => algebraMap ℚ K n.toRat
  | .var name => ρ name
  | .unary sign e => signed sign e.value
  | .binary op _ l r => I.apply op l.value r.value
  | .call name args => I.call name (values args)
  | _ => 0

/-- The values of several trees. -/
def values : List Expr → List K
  | [] => []
  | e :: es => e.value :: values es

end

end Value

/-! ## Variables -/

mutual

/-- The variable occurs in the tree outside of definitions. -/
def Occurs (name : String) : Expr → Prop
  | .var x => x = name
  | .unary _ e => e.Occurs name
  | .binary _ _ l r => l.Occurs name ∨ r.Occurs name
  | .call _ args => OccursIn name args
  | .vector es => OccursIn name es
  | .matrix rows => OccursIn name rows
  | _ => False

/-- The variable occurs in one of several trees. -/
def OccursIn (name : String) : List Expr → Prop
  | [] => False
  | e :: es => e.Occurs name ∨ OccursIn name es

end

mutual

theorem mem_collectNames {keep : String → Bool} {name : String} (seen : List String) (e : Expr) :
    name ∈ e.collectNames keep seen ↔ name ∈ seen ∨ (keep name = true ∧ e.Occurs name) := by
  cases e with
  | literal n written => simp [collectNames, Occurs]
  | definition f params body source => simp [collectNames, Occurs]
  | empty => simp [collectNames, Occurs]
  | var x =>
    simp only [collectNames, Occurs]
    split
    next known =>
      simp only [Bool.or_eq_true, List.contains_iff_mem, Bool.not_eq_true'] at known
      constructor
      · exact Or.inl
      · rintro (old | ⟨kept, rfl⟩)
        · exact old
        · exact known.resolve_right (by simp [kept])
    next fresh =>
      simp only [Bool.or_eq_true, List.contains_iff_mem, Bool.not_eq_true', not_or,
        Bool.not_eq_false] at fresh
      simp only [List.mem_append, List.mem_singleton]
      constructor
      · rintro (old | rfl)
        · exact Or.inl old
        · exact Or.inr ⟨fresh.2, rfl⟩
      · rintro (old | ⟨-, rfl⟩)
        · exact Or.inl old
        · exact Or.inr rfl
  | unary sign e => rw [collectNames, mem_collectNames seen e, Occurs]
  | binary op attached l r =>
    rw [collectNames, mem_collectNames _ r, mem_collectNames seen l, Occurs]
    tauto
  | call f args => rw [collectNames, mem_collectAllNames seen args, Occurs]
  | vector es => rw [collectNames, mem_collectAllNames seen es, Occurs]
  | matrix rows => rw [collectNames, mem_collectAllNames seen rows, Occurs]

theorem mem_collectAllNames {keep : String → Bool} {name : String} (seen : List String)
    (es : List Expr) :
    name ∈ collectAllNames keep seen es ↔ name ∈ seen ∨ (keep name = true ∧ OccursIn name es) := by
  cases es with
  | nil => simp [collectAllNames, OccursIn]
  | cons e es =>
    rw [collectAllNames, mem_collectAllNames _ es, mem_collectNames seen e, OccursIn]
    tauto

end

theorem mem_names {e : Expr} {name : String} : name ∈ e.names ↔ e.Occurs name := by
  simp [names, mem_collectNames]

theorem mentions_iff {e : Expr} {name : String} : e.mentions name = true ↔ e.Occurs name := by
  rw [mentions, List.contains_iff_mem, mem_names]

end Expr

end Reckon
