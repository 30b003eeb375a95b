import Reckon.Proofs.Evaluate
import Reckon.Proofs.Form.Read
import Reckon.Proofs.Term.Text

/-!
# The text of a result means what was evaluated

An expression with names that have no value evaluates to a text. That text is read as an expression
of the same value, as long as the numbers that arise on the way are not rounded: the parentheses of
operands and of changed signs are enough, and a product sign is left out only where the factors are
read apart.

Results: `means_unary`, `means_operation` and so on (what the evaluation of one operation leaves
behind, for any reading of the trees), `denotes_eval` (of a whole tree), `parse_eval_text`.
-/

namespace Reckon

/-! ## The context of a new session -/

/-- Nothing but the settings differs from a new session. -/
def Context.IsDefault (ctx : Context) : Prop :=
  Context.initial.SameNames ctx

namespace Context.IsDefault

variable {ctx : Context} {name : String}

/-- The entries are constants and native functions. -/
theorem find?_eq_none {kind : EntryKind} (other : kind = .value ∨ kind = .function) :
    Context.initial.globals.find? name kind = none := by
  rw [Scope.find?, Option.map_eq_none_iff, List.find?_eq_none]
  rintro ⟨entryName, entry⟩ member found
  obtain ⟨-, sameKind⟩ := Bool.and_eq_true_iff.1 found
  obtain rfl := eq_of_beq sameKind
  rcases List.mem_append.1 member with constant | native
  · obtain ⟨c, -, same⟩ := List.mem_map.1 constant
    obtain ⟨-, rfl⟩ := Prod.mk.inj same
    rcases other with other | other <;> cases other
  · obtain ⟨n, -, same⟩ := List.mem_map.1 native
    obtain ⟨-, rfl⟩ := Prod.mk.inj same
    rcases other with other | other <;> cases other

theorem lookupVariable_eq_none (default : ctx.IsDefault) : ctx.lookupVariable name = none := by
  have value : Context.initial.globals.value? name = none := by
    rw [Scope.value?, find?_eq_none (Or.inl rfl)]
  rw [lookupVariable, current, default.inner, default.globals]
  change (Context.initial.globals.value? name).or (Context.initial.globals.value? name) = none
  rw [value]
  rfl

theorem lookupFunction_eq_none (default : ctx.IsDefault) : ctx.lookupFunction name = none := by
  rw [lookupFunction, scopes, default.inner, default.globals]
  change [Context.initial.globals].findSome? (·.function? name) = none
  rw [List.findSome?_singleton, Scope.function?, find?_eq_none (Or.inr rfl)]

/-- Native functions are listed under their own names. -/
theorem exists_native {entry : Entry}
    (found : Context.initial.globals.find? name .native = some entry) :
    ∃ n ∈ Native.all, n.name = name ∧ entry = .native n := by
  obtain ⟨⟨entryName, entry'⟩, first, rfl⟩ := Option.map_eq_some_iff.1 found
  have accepted := List.find?_some first
  obtain ⟨sameName, sameKind⟩ := Bool.and_eq_true_iff.1 accepted
  obtain rfl := eq_of_beq sameName
  rcases List.mem_append.1 (List.mem_of_find?_eq_some first) with constant | member
  · obtain ⟨c, -, same⟩ := List.mem_map.1 constant
    obtain ⟨-, rfl⟩ := Prod.mk.inj same
    cases sameKind
  · obtain ⟨n, isNative, same⟩ := List.mem_map.1 member
    obtain ⟨rfl, rfl⟩ := Prod.mk.inj same
    exact ⟨n, isNative, rfl, rfl⟩

theorem mem_of_native? (default : ctx.IsDefault) {n : Native} (native : ctx.native? name = some n) :
    n ∈ Native.all ∧ n.name = name ∧ Context.initial.vocabulary.isFunction name = true := by
  rw [native?, default.globals, Scope.native?] at native
  cases found : Context.initial.globals.find? name .native with
  | none =>
    rw [found] at native
    cases native
  | some entry =>
    have listed : Context.initial.isFunction name = true := by
      rw [isFunction, isNative, Scope.has, found]
      rfl
    obtain ⟨m, member, sameName, rfl⟩ := exists_native found
    rw [found] at native
    obtain rfl := Option.some.inj native
    exact ⟨member, sameName, listed⟩

end Context.IsDefault

/-- The names of native functions are words of at least two letters. -/
theorem Native.isName_of_mem {n : Native} (member : n ∈ Native.all) :
    IsName n.name ∧ (∀ c ∈ n.name.toList, Text.isLetter c = true) ∧ n.name.toList.length ≠ 1 := by
  have all : ∀ n ∈ Native.all, IsName n.name ∧ n.name.toList.all Text.isLetter = true ∧
      n.name.toList.length ≠ 1 := by decide +kernel
  obtain ⟨isName, letters, long⟩ := all n member
  exact ⟨isName, List.all_eq_true.1 letters, long⟩

/-- No function has a name of one letter. -/
theorem Context.isFunction_letter {name : String} {c : Char} (letter : name.toList = [c]) :
    Context.initial.vocabulary.isFunction name = false := by
  rw [Bool.eq_false_iff]
  intro isFunction
  have default : Context.initial.IsDefault := ⟨rfl, rfl⟩
  have known : (Context.initial.isNative name || (Context.initial.lookupFunction name).isSome) =
      true := isFunction
  rw [default.lookupFunction_eq_none, Option.isSome_none, Bool.or_false, isNative, Scope.has]
    at known
  obtain ⟨entry, found⟩ := Option.isSome_iff_exists.1 known
  obtain ⟨n, member, rfl, -⟩ := IsDefault.exists_native found
  exact (Native.isName_of_mem member).2.2 (by rw [letter]; rfl)

/-! ## What is evaluated -/

namespace Expr

mutual

/-- Finite literals, variables of one letter, signs, operators and calls of native functions that
take values. -/
def IsElementary : Expr → Prop
  | .literal n _ => ∃ q, n.toRat? = some q
  | .var name => ∃ c, name.toList = [c] ∧ Text.isLetter c = true
  | .unary _ e => e.IsElementary
  | .binary _ _ l r => l.IsElementary ∧ r.IsElementary
  | .call name args =>
    (∃ n, Context.initial.native? name = some n ∧ n.takesExpressions = false) ∧
      AllElementary args
  | _ => False

/-- All of several trees are elementary. -/
def AllElementary : List Expr → Prop
  | [] => True
  | e :: es => e.IsElementary ∧ AllElementary es

end

/-- The values of several expressions, from left to right. -/
def evalAll (es : List Expr) : Calc (List Term) :=
  evalAllWith (callFunction depthLimit) ambientDigits es

mutual

/-- Evaluating the first tree in the first context evaluates the second one in the second. -/
inductive Visits : Expr → Context → Expr → Context → Prop
  | itself {e : Expr} {ctx : Context} : Visits e ctx e ctx
  | operand {sign : Sign} {e s : Expr} {ctx c : Context} :
      Visits e ctx s c → Visits (.unary sign e) ctx s c
  | left {op : Operator} {attached : Bool} {l r s : Expr} {ctx c : Context} :
      Visits l ctx s c → Visits (.binary op attached l r) ctx s c
  | right {op : Operator} {attached : Bool} {l r s : Expr} {ctx c : Context} :
      Visits r (l.eval ctx).2 s c → Visits (.binary op attached l r) ctx s c
  | argument {name : String} {args : List Expr} {s : Expr} {ctx c : Context} :
      VisitsAll args ctx s c → Visits (.call name args) ctx s c

/-- One of several trees is or visits the given one. -/
inductive VisitsAll : List Expr → Context → Expr → Context → Prop
  | head {e s : Expr} {es : List Expr} {ctx c : Context} :
      Visits e ctx s c → VisitsAll (e :: es) ctx s c
  | tail {e s : Expr} {es : List Expr} {ctx c : Context} :
      VisitsAll es (e.eval ctx).2 s c → VisitsAll (e :: es) ctx s c

end

variable {I : Interpretation ℚ} {ρ : String → ℚ} {M N P : ℚ → Expr → Prop}

/-- What a tree is if its operands evaluate to numbers: the operation on these numbers. -/
def Computes (I : Interpretation ℚ) (ctx : Context) (q : ℚ) : Expr → Prop
  | .unary sign e => ∀ n, (e.eval ctx).1 = .ok (.numeric n) → q = signed sign n.toRat
  | .binary op _ l r => ∀ m n, (l.eval ctx).1 = .ok (.numeric m) →
      (r.eval (l.eval ctx).2).1 = .ok (.numeric n) → q = I.apply op m.toRat n.toRat
  | .call name args => ∀ ns : List Decimal, (evalAll args ctx).1 = .ok (ns.map Term.numeric) →
      q = I.call name (ns.map Decimal.toRat)
  | _ => True

/-- A number that the tree evaluates to is the exact one and has no more digits than the
precision. -/
def ExactIn (I : Interpretation ℚ) (ctx : Context) (e : Expr) : Prop :=
  ∀ n, (e.eval ctx).1 = .ok (.numeric n) → ∃ q, n.toRat? = some q ∧ e.Computes I ctx q ∧
    HasDigits (e.eval ctx).2.params.precision q

/-- A number that the tree evaluates to can be written: it has at most a thousand digits and lies
in the exponent range. -/
def WritableIn (ctx : Context) (e : Expr) : Prop :=
  ∀ n q, (e.eval ctx).1 = .ok (.numeric n) → n.toRat? = some q →
    Representable Decimal.exactDigits q

/-- Every number that arises is exact, has no more digits than the precision and can be written. -/
structure Settled (I : Interpretation ℚ) (ctx : Context) (e : Expr) : Prop where
  exact : ∀ s c, Visits e ctx s c → s.ExactIn I c
  writable : ∀ s c, Visits e ctx s c → s.WritableIn c

/-- `Settled` for several trees, one after the other. -/
structure AllSettled (I : Interpretation ℚ) (ctx : Context) (es : List Expr) : Prop where
  exact : ∀ s c, VisitsAll es ctx s c → s.ExactIn I c
  writable : ∀ s c, VisitsAll es ctx s c → s.WritableIn c

section Settled

variable {sign : Sign} {op : Operator} {attached : Bool} {name : String} {e l r : Expr}
  {es : List Expr} {ctx ctx' : Context} {t : Term}

theorem Settled.operand (settled : (Expr.unary sign e).Settled I ctx) : e.Settled I ctx :=
  ⟨fun s c visits => settled.exact s c (.operand visits),
    fun s c visits => settled.writable s c (.operand visits)⟩

theorem Settled.left (settled : (Expr.binary op attached l r).Settled I ctx) : l.Settled I ctx :=
  ⟨fun s c visits => settled.exact s c (.left visits),
    fun s c visits => settled.writable s c (.left visits)⟩

theorem Settled.right (settled : (Expr.binary op attached l r).Settled I ctx)
    (done : l.eval ctx = (.ok t, ctx')) : r.Settled I ctx' :=
  ⟨fun s c visits => settled.exact s c (.right (by rwa [done])),
    fun s c visits => settled.writable s c (.right (by rwa [done]))⟩

theorem Settled.arguments (settled : (Expr.call name es).Settled I ctx) : AllSettled I ctx es :=
  ⟨fun s c visits => settled.exact s c (.argument visits),
    fun s c visits => settled.writable s c (.argument visits)⟩

theorem AllSettled.head (settled : AllSettled I ctx (e :: es)) : e.Settled I ctx :=
  ⟨fun s c visits => settled.exact s c (.head visits),
    fun s c visits => settled.writable s c (.head visits)⟩

theorem AllSettled.tail (settled : AllSettled I ctx (e :: es)) (done : e.eval ctx = (.ok t, ctx')) :
    AllSettled I ctx' es :=
  ⟨fun s c visits => settled.exact s c (.tail (by rwa [done])),
    fun s c visits => settled.writable s c (.tail (by rwa [done]))⟩

end Settled

/-! ## Evaluation -/

/-- What is left of an evaluation: the same names, at least the precision and a result with a
property that may depend on the precision. -/
structure Leaves (ctx ctx' : Context) (result : (digits : Nat) → Prop) : Prop where
  default : ctx'.IsDefault
  precision : ctx.params.precision ≤ ctx'.params.precision
  result : result (min ctx'.params.precision Decimal.exactDigits)

/-- A result that is a number denotes the value of the tree if its operands do. -/
theorem Settled.denotes {e : Expr} {n : Decimal} {ctx ctx' : Context} {x : ℚ} {v : Vocabulary}
    (settled : e.Settled I ctx) (done : e.eval ctx = (.ok (.numeric n), ctx'))
    (written : ∀ {e}, e.IsNumeral x → M x e)
    (computes : ∀ q, n.toRat? = some q → e.Computes I ctx q → q = x) :
    (Term.numeric n).Denotes v M (min ctx'.params.precision Decimal.exactDigits) x := by
  have result : (e.eval ctx).1 = .ok (.numeric n) := by rw [done]
  obtain ⟨q, value, expected, short⟩ := settled.exact e ctx .itself n result
  have fits := settled.writable e ctx .itself n q result value
  rw [done] at short
  obtain rfl := computes q value expected
  exact ⟨value, ⟨short.min fits.short, fits.inRange⟩, fun _ => written⟩

theorem wellFormed_letter {name : String} {c : Char} (shape : name.toList = [c])
    (letter : Text.isLetter c = true) :
    (Form.word name).WellFormed Context.initial.vocabulary := by
  refine ⟨⟨by simp [shape], by simp [shape, isNameChar_of_isLetter letter]⟩,
    Or.inr (by simp [shape]), ?_⟩
  rw [Context.isFunction_letter shape]
  simp

theorem denotes_letter {name : String} {digits : Nat} {c : Char} {x : ℚ}
    (shape : name.toList = [c]) (letter : Text.isLetter c = true) (means : M x (.var name)) :
    (Term.ofName name).Denotes Context.initial.vocabulary M digits x :=
  Term.denotes_ofName (f := .word name)
    ⟨wellFormed_letter shape letter, ⟨c, shape, letter⟩, means⟩ rfl
    ⟨c, by simp [shape], isNameChar_of_isLetter letter⟩

/-- The text of a term is that of a form. -/
theorem exists_written {digits : Nat} {v : Vocabulary} {t : Term} {x : ℚ}
    (few : digits ≤ Decimal.exactDigits) (denotes : t.Denotes v M digits x) :
    ∃ f : Form, f.Denotes v M x ∧ f.chars = t.text.toList := by
  cases t with
  | numeric n =>
    obtain ⟨value, fits, written⟩ := denotes
    obtain ⟨f, form, chars, -⟩ := Term.exists_number (v := v) value (fits.mono few) written
    exact ⟨f, form, chars⟩
  | symbolic s b =>
    obtain ⟨f, form, chars, -⟩ := denotes
    exact ⟨f, form, chars⟩

/-- The tree has this value. -/
abbrev Valued (I : Interpretation ℚ) (ρ : String → ℚ) : ℚ → Expr → Prop :=
  fun x e => e.value I ρ = x

theorem meaning_valued : Meaning (Valued I ρ) where
  literal value _ := by
    rw [Valued, Expr.value, Decimal.toRat_of_toRat? value]
    rfl
  negative := neg_eq_iff_eq_neg
  times left right := congrArg₂ (· * ·) left right

/-- The arguments of a call as they are written. -/
theorem exists_arguments {digits : Nat} {v : Vocabulary} (few : digits ≤ Decimal.exactDigits) :
    ∀ {ts : List Term} {xs : List ℚ}, List.Forall₂ (Term.Denotes v (Valued I ρ) digits) ts xs →
    ∃ fs, Form.AllWellFormed v fs ∧ values I ρ (Form.trees fs) = xs ∧
      List.Forall₂ (fun f text => Form.chars f = String.toList text) fs (ts.map Term.text)
  | _, _, .nil => ⟨[], trivial, rfl, .nil⟩
  | t :: ts, x :: xs, .cons denotes rest => by
    obtain ⟨fs, wellFormed, value, written⟩ := exists_arguments few rest
    obtain ⟨f, form, chars⟩ := exists_written few denotes
    refine ⟨f :: fs, ⟨form.wellFormed, wellFormed⟩, ?_, .cons chars written⟩
    rw [Form.trees, values, form.value, value]

theorem eq_map_numeric : ∀ {ts : List Term} {ns : List Decimal}, ts.mapM Term.value? = some ns →
    ts = ns.map Term.numeric
  | [], ns, done => by
    obtain rfl : [] = ns := Option.some.inj done
    rfl
  | t :: ts, ns, done => by
    rw [List.mapM_cons] at done
    cases t with
    | symbolic s b => cases done
    | numeric n =>
      cases rest : ts.mapM Term.value? with
      | none => rw [rest] at done; cases done
      | some ms =>
        rw [rest] at done
        obtain rfl : n :: ms = ns := Option.some.inj done
        rw [List.map_cons, ← eq_map_numeric rest]

theorem map_toRat {digits : Nat} {v : Vocabulary} : ∀ {ns : List Decimal} {xs : List ℚ},
    List.Forall₂ (Term.Denotes v M digits) (ns.map Term.numeric) xs → ns.map Decimal.toRat = xs
  | [], _, .nil => rfl
  | n :: ns, _, .cons denotes rest => by
    rw [List.map_cons, map_toRat rest, Decimal.toRat_of_toRat? denotes.1]

/-- A call that is kept as a text. -/
theorem denotes_call {digits : Nat} {n : Native} {ts : List Term} {xs : List ℚ}
    (member : n ∈ Native.all) (isFunction : Context.initial.vocabulary.isFunction n.name = true)
    (few : digits ≤ Decimal.exactDigits)
    (args : List.Forall₂ (Term.Denotes Context.initial.vocabulary (Valued I ρ) digits) ts xs) :
    (Term.ofName (n.name ++ "(" ++ ", ".intercalate (ts.map Term.text) ++ ")")).Denotes
      Context.initial.vocabulary (Valued I ρ) digits (I.call n.name xs) := by
  obtain ⟨fs, wellFormed, value, written⟩ := exists_arguments few args
  obtain ⟨isName, letters, -⟩ := Native.isName_of_mem member
  refine Term.denotes_ofName (f := .call n.name fs) ⟨⟨isName, isFunction, wellFormed⟩, letters, ?_⟩
    ?_ ?_
  · rw [Form.tree, Valued, Expr.value, value]
  · simp [Form.chars, Form.listed_eq_intercalate written]
  · obtain ⟨c, cs, shape, nameChar⟩ := Form.IsName.exists_chars isName
    exact ⟨c, by simp [shape], nameChar⟩

/-- The tree evaluates, in whatever context, to a term that denotes its value. -/
def Means (I : Interpretation ℚ) (ρ : String → ℚ) (M : ℚ → Expr → Prop) (e : Expr) : Prop :=
  ∀ ⦃ctx ctx' : Context⦄ ⦃t : Term⦄, ctx.IsDefault → e.Settled I ctx →
    e.eval ctx = (.ok t, ctx') →
    Leaves ctx ctx' fun digits => t.Denotes Context.initial.vocabulary M digits (e.value I ρ)

theorem means_literal (n : Decimal) (written : Bool) (numerals : ∀ {x e}, IsNumeral x e → M x e) :
    (Expr.literal n written).Means I ρ M := by
  intro ctx ctx' t default settled done
  obtain ⟨after, same, more, evaluated⟩ := eval_literal n written ctx
  obtain ⟨result, rfl⟩ := Prod.mk.inj (done.symm.trans evaluated)
  obtain rfl := Except.ok.inj result
  refine ⟨default.trans same, more, settled.denotes done numerals fun q value _ => ?_⟩
  rw [Expr.value, Decimal.toRat_of_toRat? value]
  rfl

theorem means_var {name : String} {c : Char} (shape : name.toList = [c])
    (letter : Text.isLetter c = true) (means : M (ρ name) (.var name)) :
    (Expr.var name).Means I ρ M := by
  intro ctx ctx' t default settled done
  rw [eval_var, default.lookupVariable_eq_none] at done
  obtain ⟨same, rfl⟩ := Prod.mk.inj done
  obtain rfl := Except.ok.inj same
  exact ⟨default, le_rfl, denotes_letter shape letter means⟩

theorem means_unary (meaning : Meaning M) {sign : Sign} {e : Expr} (inner : e.Means I ρ M) :
    (Expr.unary sign e).Means I ρ M := by
  intro ctx ctx' t default settled done
  have steps := done
  rw [eval, evalWith] at steps
  obtain ⟨a, after, operand, rest⟩ := Calc.exists_of_bind steps
  have operand : e.eval ctx = (.ok a, after) := operand
  have leaves := inner default settled.operand operand
  cases sign with
  | positive =>
    obtain ⟨same, rfl⟩ := Prod.mk.inj rest
    obtain rfl := Except.ok.inj same
    exact ⟨leaves.default, leaves.precision, leaves.result⟩
  | negative =>
    obtain ⟨negated, rfl⟩ := Prod.mk.inj rest
    refine ⟨leaves.default, leaves.precision, ?_⟩
    cases a with
    | symbolic s b =>
      obtain rfl := Except.ok.inj negated
      exact Term.denotes_negateText meaning leaves.result
    | numeric n =>
      obtain ⟨m, -, result⟩ := exists_of_ok_bind negated
      obtain rfl := Except.ok.inj result
      refine settled.denotes done meaning.numeral fun q _ computes => ?_
      rw [computes n (by rw [operand]), Decimal.toRat_of_toRat? leaves.result.1]
      rfl

/-- Two numbers are computed; it is enough to look at texts. -/
theorem means_binary {op : Operator} {attached : Bool} {l r : Expr} (first : l.Means I ρ M)
    (second : r.Means I ρ N) (numerals : ∀ {x e}, IsNumeral x e → P x e)
    (texts : ∀ {a b t : Term} {digits precision : Nat},
      a.Denotes Context.initial.vocabulary M (min precision Decimal.exactDigits) (l.value I ρ) →
      b.Denotes Context.initial.vocabulary N (min precision Decimal.exactDigits) (r.value I ρ) →
      a.isNumeric = false ∨ b.isNumeric = false →
      Term.combine ambientDigits op (some precision) a b = .ok t →
      t.Denotes Context.initial.vocabulary P digits (I.apply op (l.value I ρ) (r.value I ρ))) :
    (Expr.binary op attached l r).Means I ρ P := by
  intro ctx ctx' t default settled done
  have steps := done
  rw [eval, evalWith] at steps
  obtain ⟨a, middle, left, rest⟩ := Calc.exists_of_bind steps
  obtain ⟨b, after, right, rest⟩ := Calc.exists_of_bind rest
  obtain ⟨combined, rfl⟩ := Prod.mk.inj rest
  have left : l.eval ctx = (.ok a, middle) := left
  have right : r.eval middle = (.ok b, after) := right
  have leftLeaves := first default settled.left left
  have rightLeaves := second leftLeaves.default (settled.right left) right
  have more := min_le_min_right Decimal.exactDigits rightLeaves.precision
  refine ⟨rightLeaves.default, leftLeaves.precision.trans rightLeaves.precision, ?_⟩
  have leftResult := leftLeaves.result.mono more
  by_cases numbers : a.isNumeric = true ∧ b.isNumeric = true
  · obtain ⟨aNumeric, bNumeric⟩ := numbers
    cases a with
    | symbolic s c => cases aNumeric
    | numeric m =>
      cases b with
      | symbolic s c => cases bNumeric
      | numeric n =>
        obtain ⟨leftValue, leftFits, -⟩ := leftResult
        obtain ⟨rightValue, rightFits, -⟩ := rightLeaves.result
        obtain ⟨digits, computed⟩ := Term.combine_numeric ambientDigits after.params.precision
          op leftValue rightValue (leftFits.mono (min_le_right _ _))
          (rightFits.mono (min_le_right _ _))
        rw [computed] at combined
        obtain ⟨k, -, result⟩ := exists_of_ok_bind combined
        obtain rfl := Except.ok.inj result
        refine settled.denotes done numerals fun q _ computes => ?_
        rw [computes m n (by rw [left]) (by rw [left, right]), Decimal.toRat_of_toRat? leftValue,
          Decimal.toRat_of_toRat? rightValue]
        rfl
  · refine texts leftResult rightLeaves.result ?_ combined
    rcases not_and_or.1 numbers with other | other
    · exact Or.inl (Bool.eq_false_iff.2 other)
    · exact Or.inr (Bool.eq_false_iff.2 other)

theorem means_times (meaning : Meaning M) {attached : Bool} {l r : Expr} (first : l.Means I ρ M)
    (second : r.Means I ρ M) : (Expr.binary .times attached l r).Means I ρ M := by
  refine means_binary first second meaning.numeral fun left right symbolic done => ?_
  rw [Term.combine_symbolic (min_le_right _ _) left right symbolic, if_pos rfl] at done
  exact Term.denotes_product meaning left right symbolic done

/-- Any other operator. What its operands have to be is for the operator to say. -/
theorem means_operation {op : Operator} {attached : Bool} {l r : Expr} (noProduct : op ≠ .times)
    (first : l.Means I ρ M) (second : r.Means I ρ N) (numerals : ∀ {x e}, IsNumeral x e → P x e)
    (joins : ∀ {l' r'}, M (l.value I ρ) l' → N (r.value I ρ) r' →
      P (I.apply op (l.value I ρ) (r.value I ρ)) (.binary op false l' r')) :
    (Expr.binary op attached l r).Means I ρ P := by
  refine means_binary first second numerals fun left right symbolic done => ?_
  rw [Term.combine_symbolic (min_le_right _ _) left right symbolic, if_neg noProduct] at done
  exact Term.denotes_operation left right symbolic joins done

/-- The arguments evaluate to terms that denote their values. -/
def AllMean (I : Interpretation ℚ) (ρ : String → ℚ) (es : List Expr) : Prop :=
  ∀ ⦃ctx ctx' : Context⦄ ⦃ts : List Term⦄, ctx.IsDefault → AllSettled I ctx es →
    evalAll es ctx = (.ok ts, ctx') →
    Leaves ctx ctx' fun digits =>
      List.Forall₂ (Term.Denotes Context.initial.vocabulary (Valued I ρ) digits) ts
        (values I ρ es)

theorem means_call {name : String} {args : List Expr} {n : Native}
    (native : Context.initial.native? name = some n) (takesValues : n.takesExpressions = false)
    (mean : AllMean I ρ args) : (Expr.call name args).Means I ρ (Valued I ρ) := by
  intro ctx ctx' t default settled done
  have native : ctx.native? name = some n := by
    rw [Context.native?, default.globals]
    exact native
  obtain ⟨member, rfl, isFunction⟩ := default.mem_of_native? native
  have noFunction : Calc.look (·.lookupFunction n.name) ctx = (.ok none, ctx) := by
    rw [Calc.look_apply, default.lookupFunction_eq_none]
  have found : Calc.look (·.native? n.name) ctx = (.ok (some n), ctx) := by
    rw [Calc.look_apply, native]
  have steps := done
  rw [eval, evalWith, Calc.bind_ok noFunction, Option.isSome_none, if_neg Bool.false_ne_true,
    Calc.bind_ok found] at steps
  simp only [takesValues, Bool.false_eq_true, if_false] at steps
  obtain ⟨ts, after, evaluated, rest⟩ := Calc.exists_of_bind steps
  have evaluated : evalAll args ctx = (.ok ts, after) := evaluated
  have leaves := mean default settled.arguments evaluated
  obtain ⟨applied, rfl⟩ := Prod.mk.inj rest
  refine ⟨leaves.default, leaves.precision, ?_⟩
  obtain ⟨_, -, computed⟩ := exists_of_ok_bind applied
  cases numbers : ts.mapM Term.value? with
  | some ns =>
    rw [numbers] at computed
    obtain ⟨k, -, result⟩ := exists_of_ok_bind computed
    obtain rfl := Except.ok.inj result
    obtain rfl := eq_map_numeric numbers
    refine settled.denotes done meaning_valued.numeral fun q _ computes => ?_
    rw [computes ns (by rw [evaluated]), map_toRat leaves.result, Expr.value]
  | none =>
    rw [numbers] at computed
    obtain ⟨texts, rendered, result⟩ := exists_of_ok_bind computed
    obtain rfl := Except.ok.inj result
    rw [Term.eq_map_text_of_render rendered]
    exact denotes_call member isFunction (min_le_right _ _) leaves.result

mutual

/-- Evaluation leaves a term that denotes the value of the tree. -/
theorem denotes_eval : ∀ {e : Expr}, e.IsElementary → e.Means I ρ (Valued I ρ)
  | .literal n written, _ => means_literal n written meaning_valued.numeral
  | .var _, ⟨_, shape, letter⟩ => means_var shape letter rfl
  | .unary _ e, elementary => means_unary meaning_valued (denotes_eval (e := e) elementary)
  | .binary op .., ⟨first, second⟩ => by
    by_cases times : op = .times
    · rw [times]
      exact means_times meaning_valued (denotes_eval first) (denotes_eval second)
    · exact means_operation times (denotes_eval first) (denotes_eval second) meaning_valued.numeral
        fun left right => congrArg₂ (I.apply op) left right
  | .call .., ⟨⟨_, native, takesValues⟩, args⟩ =>
    means_call native takesValues (denotes_evalAll args)

/-- Evaluation leaves terms that denote the values of several trees. -/
theorem denotes_evalAll : ∀ {es : List Expr}, AllElementary es → AllMean I ρ es
  | [], _ => by
    intro ctx ctx' ts default settled done
    obtain ⟨same, rfl⟩ := Prod.mk.inj done
    obtain rfl := Except.ok.inj same
    exact ⟨default, le_rfl, .nil⟩
  | e :: es, ⟨first, others⟩ => by
    intro ctx ctx' ts default settled done
    rw [evalAll, evalAllWith] at done
    obtain ⟨t, middle, head, rest⟩ := Calc.exists_of_bind done
    obtain ⟨us, after, tail, rest⟩ := Calc.exists_of_bind rest
    obtain ⟨same, rfl⟩ := Prod.mk.inj rest
    obtain rfl := Except.ok.inj same
    have head : e.eval ctx = (.ok t, middle) := head
    have headLeaves := denotes_eval first default settled.head head
    have tailLeaves := denotes_evalAll others headLeaves.default (settled.tail head) tail
    have more := min_le_min_right Decimal.exactDigits tailLeaves.precision
    exact ⟨tailLeaves.default, headLeaves.precision.trans tailLeaves.precision,
      .cons (headLeaves.result.mono more) tailLeaves.result⟩

end

/-- The text of a result is read as a tree that has the value of the evaluated one, whatever its
variables are. -/
theorem parse_eval_text {e : Expr} {ctx ctx' : Context} {t : Term} (elementary : e.IsElementary)
    (default : ctx.IsDefault) (settled : e.Settled I ctx) (done : e.eval ctx = (.ok t, ctx')) :
    ∃ e', parse ctx'.vocabulary t.text = .ok e' ∧
      ∀ ρ : String → ℚ, e'.value I ρ = e.value I ρ := by
  have reads : ∀ ρ : String → ℚ, ∃ e', parse ctx'.vocabulary t.text = .ok e' ∧
      e'.value I ρ = e.value I ρ := by
    intro ρ
    have leaves := denotes_eval (ρ := ρ) elementary default settled done
    obtain ⟨f, form, chars⟩ := exists_written (min_le_right _ _) leaves.result
    refine ⟨f.tree, ?_, form.value⟩
    rw [leaves.default.vocabulary_eq, ← Form.parse_chars form.wellFormed, chars,
      String.ofList_toList]
  obtain ⟨e', parsed, -⟩ := reads fun _ => 0
  refine ⟨e', parsed, fun ρ => ?_⟩
  obtain ⟨e'', again, value⟩ := reads ρ
  obtain rfl := Except.ok.inj (parsed.symm.trans again)
  exact value

/-! ## A result and two that fail -/

theorem exactIn_symbolic {e : Expr} {ctx : Context} {s : String} {b : Option Binding}
    (result : (e.eval ctx).1 = .ok (.symbolic s b)) : e.ExactIn I ctx := by
  intro n other
  rw [result] at other
  cases other

theorem exactIn_numeric {e : Expr} {ctx : Context} {n : Decimal} {q : ℚ} {digits : Nat}
    (result : (e.eval ctx).1 = .ok (.numeric n)) (value : n.toRat? = some q)
    (computes : e.Computes I ctx q) (precision : digits ≤ (e.eval ctx).2.params.precision)
    (short : HasDigits digits q) : e.ExactIn I ctx := by
  intro m other
  rw [result] at other
  cases other
  exact ⟨q, value, computes, short.mono precision⟩

theorem computes_binary {op : Operator} {attached : Bool} {l r : Expr} {ctx : Context}
    {m n : Decimal} {x y : ℚ} (left : (l.eval ctx).1 = .ok (.numeric m))
    (right : (r.eval (l.eval ctx).2).1 = .ok (.numeric n)) (leftValue : m.toRat? = some x)
    (rightValue : n.toRat? = some y) :
    (Expr.binary op attached l r).Computes I ctx (I.apply op x y) := by
  intro m' n' left' right'
  rw [left] at left'
  rw [right] at right'
  cases left'
  cases right'
  rw [Decimal.toRat_of_toRat? leftValue, Decimal.toRat_of_toRat? rightValue]

theorem hasDigits_nat {c digits : Nat} (bound : c < tens digits) : HasDigits digits (c : ℚ) := by
  refine ⟨c, 0, by simp, ?_⟩
  rw [Nat.abs_cast]
  exact_mod_cast bound

theorem writableIn_symbolic {e : Expr} {ctx : Context} {s : String} {b : Option Binding}
    (result : (e.eval ctx).1 = .ok (.symbolic s b)) : e.WritableIn ctx := by
  intro n q other
  rw [result] at other
  cases other

theorem writableIn_numeric {e : Expr} {ctx : Context} {n : Decimal} {q : ℚ}
    (result : (e.eval ctx).1 = .ok (.numeric n)) (value : n.toRat? = some q)
    (fits : Representable Decimal.exactDigits q) : e.WritableIn ctx := by
  intro m r other otherValue
  rw [result] at other
  cases other
  rw [value] at otherValue
  cases otherValue
  exact fits

/-- `(2+3)*-(x-y)` -/
def scaledDifference : Expr :=
  .binary .times false
    (.binary .plus false (.literal 2 true) (.literal 3 true))
    (.unary .negative (.binary .minus false (.var "x") (.var "y")))

theorem exact_scaledDifference : ∀ s c, Visits scaledDifference Context.initial s c →
    s.ExactIn Interpretation.rational c ∧ s.WritableIn c := by
  have number : ∀ {e : Expr} {ctx : Context} {n : Nat},
      (e.eval ctx).1 = .ok (.numeric (.ofInt n)) → e.Computes Interpretation.rational ctx n →
      n < tens 1 → 1 ≤ (e.eval ctx).2.params.precision →
      e.ExactIn Interpretation.rational ctx ∧ e.WritableIn ctx := by
    intro e ctx n result computes short precision
    have fits : Representable 1 ((n : ℤ) : ℚ) :=
      representable_int (by rw [Nat.abs_cast]; exact_mod_cast short) (by norm_num)
    rw [Int.cast_natCast] at fits
    exact ⟨exactIn_numeric result (Decimal.toRat?_nat n) computes precision fits.short,
      writableIn_numeric result (Decimal.toRat?_nat n) (fits.mono (by decide))⟩
  have text : ∀ {e : Expr} {ctx : Context} {s : String} {b : Option Binding},
      (e.eval ctx).1 = .ok (.symbolic s b) →
      e.ExactIn Interpretation.rational ctx ∧ e.WritableIn ctx := fun result =>
    ⟨exactIn_symbolic result, writableIn_symbolic result⟩
  intro s c visits
  cases visits with
  | itself => exact text (s := "5(-(x-y))") (b := some Binding.multiplicative) (by decide +kernel)
  | left visits =>
    cases visits with
    | itself =>
      have computes : (Expr.binary .plus false (.literal 2 true) (.literal 3 true)).Computes
          Interpretation.rational Context.initial
          (Interpretation.rational.apply .plus (2 : Nat) (3 : Nat)) :=
        computes_binary (by decide +kernel) (by decide +kernel) (Decimal.toRat?_nat 2)
          (Decimal.toRat?_nat 3)
      rw [show Interpretation.rational.apply .plus (2 : Nat) (3 : Nat) = ((5 : Nat) : ℚ) by
        norm_num [Interpretation.apply]] at computes
      exact number (by decide +kernel) computes (by decide) (by decide +kernel)
    | left visits =>
      cases visits with
      | itself => exact number (n := 2) (by decide +kernel) trivial (by decide) (by decide +kernel)
    | right visits =>
      cases visits with
      | itself => exact number (n := 3) (by decide +kernel) trivial (by decide) (by decide +kernel)
  | right visits =>
    cases visits with
    | itself => exact text (s := "-(x-y)") (b := some Binding.unary) (by decide +kernel)
    | operand visits =>
      cases visits with
      | itself => exact text (s := "x-y") (b := some Binding.additive) (by decide +kernel)
      | left visits =>
        cases visits with
        | itself => exact text (s := "x") (b := none) (by decide +kernel)
      | right visits =>
        cases visits with
        | itself => exact text (s := "y") (b := none) (by decide +kernel)

theorem parse_scaledDifference :
    scaledDifference.IsElementary ∧ scaledDifference.Settled Interpretation.rational
      Context.initial ∧
    ∃ e', parse (scaledDifference.eval Context.initial).2.vocabulary "5(-(x-y))" = .ok e' ∧
      ∀ ρ : String → ℚ, e'.value Interpretation.rational ρ =
        scaledDifference.value Interpretation.rational ρ := by
  have elementary : scaledDifference.IsElementary :=
    ⟨⟨⟨_, Decimal.toRat?_nat 2⟩, ⟨_, Decimal.toRat?_nat 3⟩⟩,
      ⟨'x', rfl, Text.isLetter_of_isAlpha rfl⟩, ⟨'y', rfl, Text.isLetter_of_isAlpha rfl⟩⟩
  have settled : scaledDifference.Settled Interpretation.rational Context.initial :=
    ⟨fun s c visits => (exact_scaledDifference s c visits).1,
      fun s c visits => (exact_scaledDifference s c visits).2⟩
  have done : (scaledDifference.eval Context.initial).1 =
      .ok (.symbolic "5(-(x-y))" (some Binding.multiplicative)) := by decide +kernel
  exact ⟨elementary, settled, parse_eval_text elementary ⟨rfl, rfl⟩ settled (Prod.ext done rfl)⟩

/-- `x*0.1^1000500` -/
def tinyMultiple : Expr :=
  .binary .times false (.var "x")
    (.binary .power false (.literal (.finite false 1 (-1)) true)
      (.literal (.finite false 1000500 0) true))

theorem power_tenth (n : Nat) : Interpretation.rational.apply .power (10 ^ (-1 : ℤ)) n =
    10 ^ (-(n : ℤ)) := by
  rw [show Interpretation.rational.apply .power (10 ^ (-1 : ℤ)) n = _ from
    Interpretation.rational_power_nat _ n, ← zpow_natCast, ← zpow_mul, neg_one_mul]

theorem exact_tinyMultiple : ∀ s c, Visits tinyMultiple Context.initial s c →
    s.ExactIn Interpretation.rational c := by
  have exponent := Decimal.toRat?_nat 1000500
  have digits : HasDigits 7 ((1000500 : Nat) : ℚ) := hasDigits_nat (by decide)
  intro s c visits
  cases visits with
  | itself =>
    exact exactIn_symbolic (s := "0x") (b := some Binding.multiplicative) (by decide +kernel)
  | left visits =>
    cases visits with
    | itself => exact exactIn_symbolic (s := "x") (b := none) (by decide +kernel)
  | right visits =>
    cases visits with
    | itself =>
      have computes : (Expr.binary .power false (.literal (.finite false 1 (-1)) true)
          (.literal (.finite false 1000500 0) true)).Computes Interpretation.rational
          ((Expr.var "x").eval Context.initial).2 (10 ^ (-((1000500 : Nat) : ℤ))) := by
        rw [← power_tenth]
        exact computes_binary (by decide +kernel) (by decide +kernel) (Decimal.toRat?_tens (-1))
          exponent
      exact exactIn_numeric (by decide +kernel) (Decimal.toRat?_tens (-(1000500 : Nat))) computes
        (by decide +kernel) (hasDigits_tens _)
    | left visits =>
      cases visits with
      | itself =>
        exact exactIn_numeric (by decide +kernel) (Decimal.toRat?_tens (-1)) trivial
          (by decide +kernel)
          (hasDigits_tens _)
    | right visits =>
      cases visits with
      | itself =>
        exact exactIn_numeric (by decide +kernel) exponent trivial (by decide +kernel) digits

/-- A thousand and one digits. -/
def longNumber : Decimal := .finite false (tens 1000 + 1) 0

/-- What is written for it. -/
def roundedNumber : Decimal := .finite false (tens 999) 1

theorem toRat?_roundedNumber : roundedNumber.toRat? = some (10 ^ (1000 : ℤ)) := by
  rw [roundedNumber, Decimal.toRat?, Decimal.signedCoefficient_false, Int.cast_natCast, cast_tens,
    ← zpow_add₀ (by norm_num)]
  rfl

/-- `x+10…01` -/
def longSum : Expr :=
  .binary .plus false (.var "x") (.literal longNumber true)

/-- As an operand the long number is written like the rounded one. -/
theorem operandText_longNumber : ∃ text,
    (Term.numeric longNumber).operandText .plus (some 1001) .right = .ok text ∧
      (Term.numeric roundedNumber).operandText .plus (some 1001) .right = .ok text := by
  have rounded : (Precision.halfEven Decimal.exactDigits).round longNumber = .ok roundedNumber := by
    decide +kernel
  have kept : (Precision.halfEven Decimal.exactDigits).round roundedNumber = .ok roundedNumber := by
    decide +kernel
  have plain : longNumber.plain = roundedNumber.plain := by
    rw [Decimal.plain, Decimal.plain, rounded, kept]
  have written : (Term.numeric longNumber).render (some 1001) = .ok roundedNumber.plain := by
    have round : Term.roundDigits longNumber 1001 = .ok longNumber := by decide +kernel
    simp only [Term.render, round, rounded, plain, bind, Except.bind, liftSignal, pure, Except.pure]
  have written' : (Term.numeric roundedNumber).render (some 1001) = .ok roundedNumber.plain := by
    have round : Term.roundDigits roundedNumber 1001 = .ok roundedNumber := by decide +kernel
    simp only [Term.render, round, kept, bind, Except.bind, liftSignal, pure, Except.pure]
  have tight : (Term.numeric longNumber).binding = .ok Binding.atom := by decide +kernel
  have tight' : (Term.numeric roundedNumber).binding = .ok Binding.atom := by decide +kernel
  rw [Term.operandText, Term.operandText, written, written', tight, tight']
  exact ⟨_, rfl, rfl⟩

/-- The sum is the text that it would be with the rounded number. -/
theorem exists_longSum : ∃ s b, (longSum.eval Context.initial).1 = .ok (.symbolic s b) ∧
    (Term.symbolic s b).Denotes Context.initial.vocabulary (Valued I ρ) 1000
      (ρ "x" + 10 ^ (1000 : ℤ)) := by
  have name : (Expr.var "x").eval Context.initial = (.ok (.ofName "x"), Context.initial) := by
    have default : Context.initial.IsDefault := ⟨rfl, rfl⟩
    rw [eval_var, default.lookupVariable_eq_none]
    rfl
  obtain ⟨raised, number, precision⟩ : ∃ raised : Context,
      (Expr.literal longNumber true).eval Context.initial = (.ok (.numeric longNumber), raised) ∧
        raised.params.precision = 1001 :=
    ⟨_, Prod.ext (by decide +kernel) rfl, by decide +kernel⟩
  obtain ⟨text, written, written'⟩ := operandText_longNumber
  have left : (Term.ofName "x").operandText .plus (some 1001) .left = .ok "x" := by decide +kernel
  have joined : ∀ n : Decimal, (Term.numeric n).operandText .plus (some 1001) .right = .ok text →
      Term.operation .plus (some 1001) (.ofName "x") (.numeric n) =
        .ok (.symbolic ("x" ++ "+" ++ text) (some Binding.additive)) := by
    intro n right
    change (do
      let left ← (Term.ofName "x").operandText .plus (some 1001) .left
      let right ← (Term.numeric n).operandText .plus (some 1001) .right
      return .symbolic (left ++ "+" ++ right) (some Binding.additive) : Except Fault Term) = _
    rw [left, right]
    rfl
  refine ⟨"x" ++ "+" ++ text, some Binding.additive, ?_, ?_⟩
  · rw [longSum, eval_binary name number, precision]
    exact joined longNumber written
  · have letter : (Term.ofName "x").Denotes Context.initial.vocabulary (Valued I ρ) 1000
        (ρ "x") :=
      denotes_letter (c := 'x') rfl (Text.isLetter_of_isAlpha rfl) rfl
    have number : (Term.numeric roundedNumber).Denotes Context.initial.vocabulary (Valued I ρ)
        1000 (10 ^ (1000 : ℤ)) :=
      ⟨toRat?_roundedNumber, (representable_tens (by decide) (by decide)).mono (by decide),
        fun _ => meaning_valued.numeral⟩
    have sum := joined roundedNumber written'
    exact Term.denotes_operation letter number (Or.inl rfl)
      (fun left right => congrArg₂ (· + ·) left right) sum

theorem exact_longSum : ∀ s c, Visits longSum Context.initial s c →
    s.ExactIn Interpretation.rational c := by
  have digits : HasDigits 1001 ((tens 1000 + 1 : Nat) : ℚ) := hasDigits_nat (by decide +kernel)
  intro s c visits
  cases visits with
  | itself =>
    obtain ⟨s, b, done, -⟩ :=
      exists_longSum (I := Interpretation.rational) (ρ := fun _ => 0)
    exact exactIn_symbolic done
  | left visits =>
    cases visits with
    | itself => exact exactIn_symbolic (s := "x") (b := none) (by decide +kernel)
  | right visits =>
    cases visits with
    | itself =>
      exact exactIn_numeric (n := longNumber) (by decide +kernel) (Decimal.toRat?_nat _) trivial
        (by decide +kernel) digits

/-- Everything is evaluated exactly, and yet the text of the result means something else. -/
def IsMisread (e : Expr) : Prop :=
  e.IsElementary ∧
    (∀ s c, Visits e Context.initial s c → s.ExactIn Interpretation.rational c) ∧
    ∃ t e', (e.eval Context.initial).1 = .ok t ∧
      parse Context.initial.vocabulary t.text = .ok e' ∧
      e'.value Interpretation.rational (fun _ => 1) ≠
        e.value Interpretation.rational (fun _ => 1)

/-- Where a number has too many digits for a text or is too small, the text of a result can mean
something else. -/
theorem eval_text_of_unwritable : tinyMultiple.IsMisread ∧ longSum.IsMisread := by
  have letter : (Expr.var "x").IsElementary := ⟨'x', rfl, Text.isLetter_of_isAlpha rfl⟩
  have tiny : parse Context.initial.vocabulary "0x" =
      .ok (.binary .times true (.literal 0 true) (.var "x")) := by
    with_unfolding_all rfl
  constructor
  · refine ⟨⟨letter, ⟨_, Decimal.toRat?_tens (-1)⟩, ⟨_, Decimal.toRat?_nat 1000500⟩⟩,
      exact_tinyMultiple, ?_⟩
    refine ⟨.symbolic "0x" (some Binding.multiplicative), _, by decide +kernel, tiny, ?_⟩
    have right : (Expr.binary .power false (.literal (.finite false 1 (-1)) true)
        (.literal (.finite false 1000500 0) true)).value Interpretation.rational (fun _ => 1) =
          10 ^ (-((1000500 : Nat) : ℤ)) := by
      rw [← power_tenth, ← Decimal.toRat_of_toRat? (Decimal.toRat?_nat 1000500),
        ← Decimal.toRat_of_toRat? (Decimal.toRat?_tens (-1))]
      rfl
    change Decimal.toRat 0 * 1 ≠ 1 * _
    rw [Decimal.toRat_of_toRat? Decimal.toRat?_zero, zero_mul, one_mul, right]
    exact (Decimal.ten_zpow_pos _).ne
  · obtain ⟨s, b, done, denotes⟩ :=
      exists_longSum (I := Interpretation.rational) (ρ := fun _ => 1)
    obtain ⟨f, form, chars⟩ := exists_written le_rfl denotes
    refine ⟨⟨letter, ⟨_, Decimal.toRat?_nat _⟩⟩, exact_longSum, _, f.tree, done, ?_, ?_⟩
    · rw [← Form.parse_chars form.wellFormed, chars, String.ofList_toList]
    · rw [form.value]
      change 1 + _ ≠ 1 + longNumber.toRat
      rw [longNumber, Decimal.toRat_of_toRat? (Decimal.toRat?_nat _), Nat.cast_add, cast_tens,
        Nat.cast_one]
      intro same
      exact absurd (add_left_cancel same) (lt_add_one _).ne

end Expr

end Reckon
