import Reckon.Proofs.Evaluate.Faithful
import Reckon.Proofs.Expr.Unsign
import Reckon.Proofs.Request.Binding

/-!
# Taking parentheses and signs away

An answer loses the parentheses around it, and a changed sign takes a sign away. The text that is
left is looked at anew: if it is no number, it is read as the same tree as before, or as one of the
opposite value (`removeParens_negate_eval`). But it may be a number for the arithmetic that is none
for the reader: `(2E+5)` becomes two hundred thousand (`removeParens_misread`).
-/

namespace Reckon

open Calc Context

namespace Term

theorem ofText_eq_ofName {s : String} (text : Decimal.ofText? s = none) : ofText s = ofName s := by
  unfold ofText
  rw [text]

/-- A text stays one without its parentheses if they enclose no number. -/
theorem isNumeric_removeParens {s : String} {b : Option Binding}
    (text : isWrapped s.toList = true → Decimal.ofText? (String.ofList (unwrap s.toList)) = none) :
    (symbolic s b).removeParens.isNumeric = false := by
  have removed : (symbolic s b).removeParens =
      if isWrapped s.toList then ofText (String.ofList (unwrap s.toList)) else symbolic s b := rfl
  rw [removed]
  by_cases wrapped : isWrapped s.toList = true
  · rw [if_pos wrapped, ofText_eq_ofName (text wrapped)]
    rfl
  · rw [if_neg wrapped]
    rfl

/-- A sign that binds the whole text is taken away. -/
theorem negate_signed {digits : Nat} {s : String} {b : Option Binding} {cs : List Char}
    (shape : s.toList = '-' :: cs) (signed : b.getD (looseness s) = Binding.unary)
    (text : Decimal.ofText? (String.ofList cs) = none) :
    (symbolic s b).negate digits = .ok (ofName (String.ofList cs)) := by
  rw [negate, signed, negateText, shape]
  exact congrArg Except.ok (ofText_eq_ofName text)

end Term

/-- The value of a tree is kept when the parentheses around it are taken away, and changed in its
sign when its sign is, as long as the text that is left is no number. -/
theorem removeParens_negate_eval {ctx : Context} {e : Expr} {s : String} {b : Option Binding}
    (faithful : ctx.Faithful) (names : e.HasNames) (done : (e.eval ctx).1 = .ok (.symbolic s b))
    {v : Vocabulary} {tree : Expr} (read : parse v s = .ok tree) :
    ((isWrapped s.toList = true → Decimal.ofText? (String.ofList (unwrap s.toList)) = none) →
      ∃ e', parse v (Term.symbolic s b).removeParens.text = .ok e' ∧
        ∀ {K : Type} [Ring K] [Algebra ℚ K] (I : Interpretation K) (ρ : String → K),
          e'.value I ρ = tree.value I ρ) ∧
    (∀ cs, s.toList = '-' :: cs → b.getD (looseness s) = Binding.unary →
      Decimal.ofText? (String.ofList cs) = none → ∀ digits,
      ∃ t e', (Term.symbolic s b).negate digits = .ok t ∧ parse v t.text = .ok e' ∧
        ∀ {K : Type} [Ring K] [Algebra ℚ K] (I : Interpretation K) (ρ : String → K),
          e'.value I ρ = -tree.value I ρ) := by
  have tight : (Term.symbolic s b).Faithful := (ensures_eval names ctx faithful).2 _ done
  constructor
  · intro text
    have chars := Term.text_removeParens (b := b) (Term.isNumeric_removeParens text)
    refine ⟨tree, ?_, fun _ _ => rfl⟩
    rw [← String.ofList_toList (s := Term.text _), chars]
    exact parse_unwrap (by rwa [String.ofList_toList])
  · intro cs shape signed text digits
    have whole : s = String.ofList ('-' :: cs) := by rw [← shape, String.ofList_toList]
    have le := AsTight.le tight
    rw [signed, min_self] at le
    rw [whole] at read
    obtain ⟨e', read', opposite⟩ := parse_unsigned (by rw [← whole]; exact le) read
    refine ⟨_, e', Term.negate_signed shape signed text, read', fun I ρ => ?_⟩
    rw [opposite I ρ, neg_neg]

/-! ## Signs that are changed twice -/

/-- A new session in which `f` changes the sign. -/
def signContext : Context :=
  Context.initial.updateCurrent (·.insert "f"
    (.function ⟨"f", ["x"], .unary .negative (.var "x"), some "f(x)=-x"⟩))

theorem faithful_signContext : signContext.Faithful :=
  faithful_initial.insert (show IsName "x" by decide +kernel)

/-- `2x+5`, or with another letter -/
def doubledPlusFive (letter : String) : Form :=
  .binary .plus false (.binary .times true (.number (.digit '2' (by decide))) (.word letter))
    (.number (.digit '5' (by decide)))

/-- `f` applied to `2x+5` so many times -/
def signChanged (letter : String) : (times : Nat) → Expr
  | 0 => (doubledPlusFive letter).tree
  | n + 1 => .call "f" [signChanged letter n]

theorem hasNames_signChanged {letter : String} (isName : IsName letter) (times : Nat) :
    (signChanged letter times).HasNames := by
  induction times with
  | zero => exact ⟨⟨trivial, isName⟩, trivial⟩
  | succ n ih => exact ⟨ih, trivial⟩

theorem wellFormed_doubledPlusFive {letter : String} {c : Char} (shape : letter.toList = [c])
    (isLetter : Text.isLetter c = true) :
    (Form.paren (doubledPlusFive letter)).WellFormed Context.initial.vocabulary :=
  ⟨⟨trivial, Expr.wellFormed_letter shape isLetter,
    show Parser.leftBinding .times ≤ Binding.atom by decide,
    show Parser.rightBinding .times ≤ Binding.atom by decide, fun _ => ⟨rfl, rfl⟩⟩,
    trivial, show Parser.leftBinding .plus ≤ Binding.multiplicative by decide,
    show Parser.rightBinding .plus ≤ Binding.atom by decide, nofun⟩

theorem value_doubledPlusFive (letter : String) (ρ : String → ℚ) :
    (doubledPlusFive letter).tree.value .rational ρ = 2 * ρ letter + 5 := by
  have two : (2 : Decimal).toRat = (2 : Nat) := Decimal.toRat_of_toRat? (Decimal.toRat?_ofNat 2)
  have five : (5 : Decimal).toRat = (5 : Nat) := Decimal.toRat_of_toRat? (Decimal.toRat?_ofNat 5)
  have value : (doubledPlusFive letter).tree.value .rational ρ =
      (2 : Decimal).toRat * ρ letter + (5 : Decimal).toRat := rfl
  rw [value, two, five]
  norm_num

/-- With its sign changed twice `2x+5` is in parentheses, which are taken away, and with its sign
changed once it is signed. -/
theorem removeParens_negate_signChanged :
    (∃ e', parse Context.initial.vocabulary (Term.symbolic "(2x+5)" none).removeParens.text =
        .ok e' ∧ ∀ ρ : String → ℚ, e'.value .rational ρ = 2 * ρ "x" + 5) ∧
      ∃ t e', (Term.symbolic "-(2x+5)" (some Binding.unary)).negate ambientDigits = .ok t ∧
        parse Context.initial.vocabulary t.text = .ok e' ∧
        ∀ ρ : String → ℚ, e'.value .rational ρ = 2 * ρ "x" + 5 := by
  have isName : IsName "x" := by decide +kernel
  have wellFormed : (Form.paren (doubledPlusFive "x")).WellFormed Context.initial.vocabulary :=
    wellFormed_doubledPlusFive rfl (Text.isLetter_of_isAlpha rfl)
  have read : parse Context.initial.vocabulary "(2x+5)" = .ok (doubledPlusFive "x").tree :=
    Form.parse_chars wellFormed
  have readSigned : parse Context.initial.vocabulary "-(2x+5)" =
      .ok (.unary .negative (doubledPlusFive "x").tree) :=
    Form.parse_chars (f := .signed .negative (.paren (doubledPlusFive "x")))
      ⟨wellFormed, show Binding.unary ≤ Binding.atom by decide⟩
  have twice : ((signChanged "x" 2).eval signContext).1 = .ok (.symbolic "(2x+5)" none) := by
    decide +kernel
  have once : ((signChanged "x" 1).eval signContext).1 =
      .ok (.symbolic "-(2x+5)" (some Binding.unary)) := by
    decide +kernel
  have noNumber : Decimal.ofText? (String.ofList (unwrap "(2x+5)".toList)) = none := by
    decide +kernel
  have noNumber' : Decimal.ofText? (String.ofList "(2x+5)".toList) = none := by decide +kernel
  obtain ⟨e, parsed, value⟩ := (removeParens_negate_eval faithful_signContext
    (hasNames_signChanged isName 2) twice read).1 fun _ => noNumber
  obtain ⟨t, e', negated, parsed', value'⟩ := (removeParens_negate_eval faithful_signContext
    (hasNames_signChanged isName 1) once readSigned).2 "(2x+5)".toList rfl rfl noNumber'
    ambientDigits
  refine ⟨⟨e, parsed, fun ρ => ?_⟩, t, e', negated, parsed', fun ρ => ?_⟩
  · rw [value, value_doubledPlusFive]
  · rw [value', ← value_doubledPlusFive]
    exact neg_neg _

/-- With its sign changed twice `2E+5` becomes two hundred thousand, though it is eleven where `E`
is three. -/
theorem removeParens_misread :
    ((signChanged "E" 2).eval signContext).1 = .ok (.symbolic "(2E+5)" none) ∧
    parse Context.initial.vocabulary "(2E+5)" = .ok (doubledPlusFive "E").tree ∧
    (doubledPlusFive "E").tree.value .rational (fun _ => 3) = 11 ∧
    (Term.symbolic "(2E+5)" none).removeParens = .numeric (.finite false 2 5) ∧
    (Term.numeric (.finite false 2 5)).text = "200000" ∧
    parse Context.initial.vocabulary "200000" = .ok (.literal 200000 true) ∧
    (Expr.literal 200000 true).value .rational (fun _ => 3) = 200000 ∧
    (evaluate "f(f(2E+5))" signContext).1 = .ok (.numeric (.finite false 2 5)) := by
  have wellFormed : (Form.paren (doubledPlusFive "E")).WellFormed Context.initial.vocabulary :=
    wellFormed_doubledPlusFive rfl (Text.isLetter_of_isAlpha rfl)
  have digits : ∀ c ∈ '2' :: List.replicate 5 '0', c.isDigit = true :=
    List.forall_mem_cons.2 ⟨rfl, fun c member => by rw [List.eq_of_mem_replicate member]; rfl⟩
  have parsed := Form.parse_chars (v := Context.initial.vocabulary)
    (f := .number ⟨'2' :: List.replicate 5 '0', [], nofun, digits, nofun⟩) trivial
  have large : (200000 : Decimal).toRat = (200000 : Nat) :=
    Decimal.toRat_of_toRat? (Decimal.toRat?_ofNat 200000)
  refine ⟨by decide +kernel, Form.parse_chars wellFormed, ?_, by decide +kernel, by decide +kernel,
    ?_, ?_, ?_⟩
  · rw [value_doubledPlusFive]
    norm_num
  · exact parsed
  · exact large.trans (by norm_num)
  · decide +kernel

end Reckon
