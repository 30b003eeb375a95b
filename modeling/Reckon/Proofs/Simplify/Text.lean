import Reckon.Proofs.Evaluate.Text
import Reckon.Proofs.Expr.Legible
import Reckon.Request

/-!
# The text of a simplified tree

Simplifying attaches the factors of every term, so that names and calls run together in its text. If
what runs together is read as the factors again, the text is read as a tree with the value of the
simplified one (`parse_simplify_text`); otherwise it may be read as something else
(`simplify_text_misread`).
-/

namespace Reckon

open Calc Context

/-- A tree that a request simplifies was read from its text. -/
theorem exists_of_simplify {source : String} {ctx : Context} {t : Expr}
    (done : (simplify source ctx).1 = .ok t) :
    ∃ e, parse ctx.vocabulary source = .ok e ∧ (e.simplify ctx).1 = .ok t := by
  unfold simplify at done
  rw [tree_bind] at done
  split at done
  next e read => exact ⟨e, Context.read_eq_ok.1 read, done⟩
  next => cases done

theorem parse_nothing (v : Vocabulary) : parse v "" = .ok .empty := by
  simp [parse, scan, scanFrom, Parser.ofTokens, Parser.skipBlanks]

/-- The text of a simplified tree is read as a tree with the same value, unless letters that run
together in it are read as something else. -/
theorem parse_simplify_text {ctx : Context} {source : String} {t : Expr} (default : ctx.IsDefault)
    (done : (simplify source ctx).1 = .ok t)
    (legible : t = .empty ∨ t.Legible ctx.vocabulary) :
    ∃ e, parse ctx.vocabulary t.text = .ok e ∧
      ∀ {K : Type} [Ring K] [Algebra ℚ K] (I : Interpretation K) (ρ : String → K),
        e.value I ρ = t.value I ρ := by
  have letters : ∀ name : String, name.toList.length = 1 →
      ctx.vocabulary.isFunction name = false := by
    intro name single
    obtain ⟨c, shape⟩ := List.length_eq_one_iff.1 single
    rw [default.vocabulary_eq]
    exact isFunction_letter shape
  rcases legible with rfl | legible
  · exact ⟨.empty, parse_nothing _, fun _ _ => rfl⟩
  · obtain ⟨e, read, simplified⟩ := exists_of_simplify done
    exact Expr.parse_text_of_legible
      (Expr.hasWords_simplify (Expr.hasWords_parse letters read) simplified) legible

namespace Expr

mutual

/-- The trees are the same, checked part by part. -/
def isSame : Expr → Expr → Bool
  | .literal m w, .literal n w' => m == n && w == w'
  | .var x, .var y => x == y
  | .unary s e, .unary s' e' => s == s' && e.isSame e'
  | .binary op a l r, .binary op' a' l' r' => op == op' && a == a' && l.isSame l' && r.isSame r'
  | .call f args, .call g args' => f == g && allSame args args'
  | _, _ => false

/-- The lists are the same, checked part by part. -/
def allSame : List Expr → List Expr → Bool
  | [], [] => true
  | e :: es, e' :: es' => e.isSame e' && allSame es es'
  | _, _ => false

end

mutual

theorem eq_of_isSame : ∀ {e e' : Expr}, e.isSame e' = true → e = e'
  | .literal m w, .literal n w', same => by
    simp only [isSame, Bool.and_eq_true, beq_iff_eq] at same
    rw [same.1, same.2]
  | .var x, .var y, same => by
    rw [eq_of_beq same]
  | .unary s e, .unary s' e', same => by
    simp only [isSame, Bool.and_eq_true, beq_iff_eq] at same
    rw [same.1, eq_of_isSame same.2]
  | .binary op a l r, .binary op' a' l' r', same => by
    simp only [isSame, Bool.and_eq_true, beq_iff_eq] at same
    rw [same.1.1.1, same.1.1.2, eq_of_isSame same.1.2, eq_of_isSame same.2]
  | .call f args, .call g args', same => by
    simp only [isSame, Bool.and_eq_true, beq_iff_eq] at same
    rw [same.1, eq_of_allSame same.2]

theorem eq_of_allSame : ∀ {es es' : List Expr}, allSame es es' = true → es = es'
  | [], [], _ => rfl
  | e :: es, e' :: es', same => by
    simp only [allSame, Bool.and_eq_true] at same
    rw [eq_of_isSame same.1, eq_of_allSame same.2]

end

theorem eq_ok_of_isSame {ε : Type} {result : Except ε Expr} {e : Expr}
    (same : result.toOption.any (·.isSame e) = true) : result = .ok e := by
  cases result with
  | error fault => cases same
  | ok e' => rw [eq_of_isSame (e := e') same]

end Expr

/-- `2x sin(x)`. -/
def scaledSine : Expr :=
  .juxtaposed (.number 2) (.juxtaposed (.var "x") (.call "sin" [.var "x"]))

theorem parse_scaledSine_text :
    (simplify "2*x*sin(x)" Context.initial).1 = .ok scaledSine ∧ scaledSine.text = "2(xsin(x))" ∧
      ∃ e, parse Context.initial.vocabulary "2(xsin(x))" = .ok e ∧
        ∀ (I : Interpretation ℚ) (ρ : String → ℚ), e.value I ρ = scaledSine.value I ρ := by
  have done : (simplify "2*x*sin(x)" Context.initial).1 = .ok scaledSine :=
    Expr.eq_ok_of_isSame (by decide +kernel)
  have text : scaledSine.text = "2(xsin(x))" := by decide +kernel
  have digits : HasDigits 1 ((2 : Nat) : ℚ) := ⟨2, 0, by norm_num, by norm_num⟩
  have two : (Expr.number 2).Legible Context.initial.vocabulary :=
    ⟨_, Decimal.toRat?_ofNat 2, by norm_num, digits.mono (by decide),
      inRange_of_le (k := 1) (by norm_num) (by norm_num) (by decide)⟩
  have legible : scaledSine.Legible Context.initial.vocabulary :=
    ⟨two, ⟨trivial, ⟨trivial, trivial⟩, by decide +kernel⟩, by decide +kernel⟩
  obtain ⟨e, read, value⟩ := parse_simplify_text ⟨rfl, rfl⟩ done (Or.inr legible)
  exact ⟨done, text, e, by rwa [text] at read, value⟩

/-- The product of `a` and the sine of `x` is written like the arc sine of `x`. -/
theorem simplify_text_misread :
    ∃ t e, (simplify "a*sin(x)" Context.initial).1 = .ok t ∧
      parse Context.initial.vocabulary t.text = .ok e ∧
      ∃ (I : Interpretation ℚ) (ρ : String → ℚ), e.value I ρ ≠ t.value I ρ := by
  refine ⟨.juxtaposed (.var "a") (.call "sin" [.var "x"]), .call "asin" [.var "x"],
    Expr.eq_ok_of_isSame (by decide +kernel), Expr.eq_ok_of_isSame (by decide +kernel),
    ⟨fun a b => a / b, fun _ _ => 1, fun _ _ _ => 0, fun _ args => args.sum⟩,
    fun name => if name = "a" then 2 else 1, ?_⟩
  simp [Expr.value, Expr.values, Expr.juxtaposed, Interpretation.apply]

end Reckon
