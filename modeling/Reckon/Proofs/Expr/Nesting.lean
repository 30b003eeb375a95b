import Reckon.Expr.Names
import Reckon.Proofs.Expr.Head
import Reckon.Proofs.Expr.Trees
import Reckon.Proofs.Token

/-!
# How deeply definitions are nested

`Expr.nesting` is zero for a tree without definitions and one for a definition whose body has
none. A text is one or the other (`nesting_parse`): a definition stands at the top or nowhere.
-/

namespace Reckon

namespace Expr

mutual

/-- How many definitions stand around each other in the tree. -/
def nesting : Expr → Nat
  | .literal .. | .var _ | .empty => 0
  | .unary _ e => e.nesting
  | .binary _ _ l r => max l.nesting r.nesting
  | .call _ args => nestingAll args
  | .definition _ _ body _ => body.nesting + 1
  | .vector es => nestingAll es
  | .matrix rows => nestingAll rows

/-- The largest `nesting` of several trees. -/
def nestingAll : List Expr → Nat
  | [] => 0
  | e :: es => max e.nesting (nestingAll es)

end

theorem nestingAll_le {d : Nat} {es : List Expr} :
    nestingAll es ≤ d ↔ ∀ e ∈ es, e.nesting ≤ d := by
  induction es with
  | nil => simp [nestingAll]
  | cons e es ih => rw [nestingAll, Nat.max_le, ih, List.forall_mem_cons]

theorem nestingAll_eq_zero {es : List Expr} : nestingAll es = 0 ↔ ∀ e ∈ es, e.nesting = 0 := by
  rw [← Nat.le_zero, nestingAll_le]
  simp only [Nat.le_zero]

theorem nesting_elements_le (e : Expr) : nestingAll e.elements ≤ e.nesting := by
  cases e <;> simp [elements, nesting, nestingAll]

mutual

/-- Trees in place of variables add at most their own depth. -/
theorem nesting_substitute {d : Nat} {bindings : Bindings}
    (shallow : ∀ entry ∈ bindings, entry.2.nesting ≤ d) :
    ∀ e : Expr, (e.substitute bindings).nesting ≤ e.nesting + d
  | .var name => by
    rw [substitute]
    cases found : bindings.lookup name with
    | none => exact Nat.zero_le _
    | some e =>
      obtain ⟨front, back, rfl, -⟩ := List.lookup_eq_some_iff.1 found
      exact Nat.le_trans (shallow (name, e) (by simp)) (Nat.le_add_left _ _)
  | .unary _ e => nesting_substitute shallow e
  | .binary _ _ l r => by
    have left := nesting_substitute shallow l
    have right := nesting_substitute shallow r
    simp only [substitute, nesting]
    omega
  | .call _ args => nestingAll_substituteAll shallow args
  | .definition _ params body _ => by
    have kept : ∀ entry ∈ bindings.filter fun entry => !params.contains entry.1,
        entry.2.nesting ≤ d := fun entry member => shallow entry (List.mem_filter.1 member).1
    have inner := nesting_substitute kept body
    simp only [substitute, nesting]
    omega
  | .vector es => nestingAll_substituteAll shallow es
  | .matrix rows => nestingAll_substituteAll shallow rows
  | .literal .. => Nat.zero_le _
  | .empty => Nat.zero_le _

theorem nestingAll_substituteAll {d : Nat} {bindings : Bindings}
    (shallow : ∀ entry ∈ bindings, entry.2.nesting ≤ d) :
    ∀ es : List Expr, nestingAll (substituteAll bindings es) ≤ nestingAll es + d
  | [] => Nat.zero_le _
  | e :: es => by
    have first := nesting_substitute shallow e
    have others := nestingAll_substituteAll shallow es
    simp only [substituteAll, nestingAll]
    omega

end

end Expr

/-! ## Reading -/

theorem Vocabulary.nesting_productOfNames (v : Vocabulary) (name : String) :
    (v.productOfNames name).nesting = 0 := by
  refine v.holds_productOfNames (P := fun e => e.nesting = 0) (fun _ => rfl) (fun _ _ => rfl) ?_
  intro l r left right
  simp [Expr.juxtaposed, Expr.nesting, left, right]

theorem Vocabulary.nesting_called (v : Vocabulary) (word : String) {args : List Expr}
    (plain : ∀ e ∈ args, e.nesting = 0) : (v.called word args).nesting = 0 := by
  have inner : Expr.nestingAll args = 0 := Expr.nestingAll_eq_zero.2 plain
  unfold called
  split
  · exact inner
  · split
    · simp [Expr.juxtaposed, Expr.nesting, v.nesting_productOfNames, inner]
    · exact inner

/-- Definitions are not read inside of expressions. -/
theorem Parser.builds_nesting (v : Vocabulary) :
    Builds v (fun _ => True) (Expr.nesting · = 0) where
  number _ _ := rfl
  unary plain := plain
  binary left right := by rw [Expr.nesting, left, right, Nat.max_self]
  word _ _ _ := v.nesting_productOfNames _
  called _ _ _ plain := v.nesting_called _ plain
  vector plain := Expr.nestingAll_eq_zero.2 plain
  matrix _ plain := Expr.nestingAll_eq_zero.2 plain

theorem Parser.nesting_expression {v : Vocabulary} {stop : Nat} {st : State} {e : Expr}
    {st' : { s : State // s.size < st.size }}
    (done : expression v stop false 0 st = .ok (e, st')) : e.nesting = 0 :=
  ((builds_nesting v).expression (fun _ _ => trivial) done).1

/-- A text is a definition without definitions in its body, or has none at all. -/
theorem nesting_parse {v : Vocabulary} {source : String} {e : Expr}
    (done : parse v source = .ok e) :
    (∃ name params body text, e = .definition name params body text ∧ body.nesting = 0) ∨
      e.nesting = 0 := by
  obtain ⟨tokens, -, ⟨rfl, -⟩ | ⟨name, params, body, text, rest, st, rfl, -, read⟩ |
    ⟨-, -, st, read, -⟩⟩ := exists_of_parse done
  · exact .inr rfl
  · exact .inl ⟨name.text, params, body, text, rfl, Parser.nesting_expression read⟩
  · exact .inr (Parser.nesting_expression read)

theorem ne_equals_of_lexeme? {cs text : List Char} {kind : TokenKind} (plain : '=' ∉ cs)
    (found : lexeme? cs = some (kind, text)) : kind ≠ .equals := by
  rintro rfl
  obtain ⟨c, rest, rfl, lexeme⟩ := exists_lexeme found
  cases lexeme with
  | mark _ _ _ _ mark =>
    obtain rfl : c = '=' := by simpa using mem_of_punctuation? mark
    exact plain (.head _)

/-- Without an equals sign in the text there is none among its tokens. -/
theorem noEquals_scanFrom {start : Nat} {cs : List Char} {tokens : List Token} (plain : '=' ∉ cs)
    (done : scanFrom start cs = .ok tokens) : Parser.NoEquals tokens := by
  intro t member
  obtain ⟨front, back, rfl, -, found⟩ := exists_lexeme_of_mem done member
  exact ne_equals_of_lexeme? (fun inside => plain (List.mem_append_right front inside)) found

/-- A text without an equals sign has no definition in it. -/
theorem nesting_parse_of_noEquals {v : Vocabulary} {source : String} {e : Expr}
    (plain : '=' ∉ source.toList) (done : parse v source = .ok e) : e.nesting = 0 := by
  obtain ⟨tokens, scanned, ⟨rfl, -⟩ | ⟨_, _, _, _, _, _, -, head, -⟩ | ⟨-, -, st, read, -⟩⟩ :=
    exists_of_parse done
  · rfl
  · rw [Parser.definitionHead?_eq_none (noEquals_scanFrom plain scanned)] at head
    cases head
  · exact Parser.nesting_expression read

end Reckon
