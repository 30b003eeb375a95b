import Reckon.Proofs.Decimal.Numeral
import Reckon.Proofs.Expr.Reading

/-!
# Written forms

A form is an expression as it is written: an `Expr` together with its parentheses, and numbers as
numerals. It has a text (`chars`), tokens (`tokens`) and a tree (`tree`).

`Readable` says that every operand binds tightly enough for its place and that the factors of an
attached product do not run into each other. A readable text is cut into the tokens of its form
(`Form.scans`, in `Form.Scan`). The reader may cut its words into several names; `read` is the tree
that it gives (`Form.parse_read`, in `Form.Read`). In a well-formed text every word is one name, and
the tree is that of the form (`Form.parse_chars`).
-/

namespace Reckon

/-- A name that the scanner takes as a whole. -/
def IsName (name : String) : Prop :=
  name.toList ≠ [] ∧ ∀ c ∈ name.toList, isNameChar c = true

instance (name : String) : Decidable (IsName name) :=
  decidable_of_iff (name.toList ≠ [] ∧ name.toList.all isNameChar = true)
    (and_congr_right' List.all_eq_true)

theorem IsName.append {front back : String} (left : IsName front) (right : IsName back) :
    IsName (front ++ back) := by
  unfold IsName
  rw [String.toList_append]
  refine ⟨List.append_ne_nil_of_left_ne_nil left.1 _, fun c member => ?_⟩
  exact (List.mem_append.1 member).elim (left.2 c) (right.2 c)

/-- The least binding that the left operand of an operator may have. -/
def Parser.leftBinding (op : Operator) : Binding :=
  match op.associativity with
  | .leftToRight => op.binding
  | .rightToLeft => op.binding + 1

/-- What a form begins or ends with. -/
inductive Edge where
  | number
  | name
  | paren
  | sign
deriving DecidableEq

/-- A form with this end and one with that beginning can stand side by side. -/
def Edge.adjoins : Edge → Edge → Bool
  | _, .sign => false
  | .number, .number => false
  | .name, .name => false
  | .name, .paren => false
  | _, _ => true

/-- An expression with its parentheses, and numbers as they are written. -/
inductive Form where
  | number (numeral : Numeral)
  | word (name : String)
  | signed (sign : Sign) (operand : Form)
  | binary (op : Operator) (attached : Bool) (left right : Form)
  | call (name : String) (args : List Form)
  | paren (inner : Form)

namespace Form

/-- How tightly the form binds as it stands. -/
def binding : Form → Binding
  | .signed .. => Binding.unary
  | .binary op .. => op.binding
  | _ => Binding.atom

/-- What the form begins with. -/
def first : Form → Edge
  | .number .. => .number
  | .word _ => .name
  | .signed .. => .sign
  | .binary _ _ l _ => l.first
  | .call .. => .name
  | .paren _ => .paren

/-- What the form ends with. -/
def final : Form → Edge
  | .number .. => .number
  | .word _ => .name
  | .signed _ f => f.final
  | .binary _ _ _ r => r.final
  | .call .. => .paren
  | .paren _ => .paren

/-- An operator that binds less tightly ends the form. -/
def tail : Form → Binding
  | .signed _ f => min Binding.unary f.tail
  | .binary op _ _ r => min (Parser.rightBinding op) r.tail
  | _ => Binding.atom

mutual

/-- The characters of a form. -/
def chars : Form → List Char
  | .number n => n.chars
  | .word name => name.toList
  | .signed sign f => sign.symbol.toList ++ f.chars
  | .binary op attached l r => l.chars ++ ((if attached then [] else op.symbol.toList) ++ r.chars)
  | .call name args => name.toList ++ '(' :: (listed args ++ [')'])
  | .paren f => '(' :: (f.chars ++ [')'])

/-- The characters of several forms with commas between them. -/
def listed : List Form → List Char
  | [] => []
  | [f] => f.chars
  | f :: fs => f.chars ++ (',' :: ' ' :: listed fs)

end

mutual

/-- The tree of a form. -/
def tree : Form → Expr
  | .number n => .literal n.decimal true
  | .word name => .var name
  | .signed sign f => .unary sign f.tree
  | .binary op attached l r => .binary op attached l.tree r.tree
  | .call name args => .call name (trees args)
  | .paren f => f.tree

/-- The trees of several forms. -/
def trees : List Form → List Expr
  | [] => []
  | f :: fs => f.tree :: trees fs

end

mutual

/-- The tokens of a form whose first character has the offset `start`. -/
def tokens (start : Nat) : Form → List Token
  | .number n => [⟨.number n.decimal, String.ofList n.chars, start⟩]
  | .word name => [⟨.identifier, name, start⟩]
  | .signed .positive f => ⟨.operator .plus, "+", start⟩ :: f.tokens (start + 1)
  | .signed .negative f => ⟨.operator .minus, "-", start⟩ :: f.tokens (start + 1)
  | .binary _ true l r => l.tokens start ++ r.tokens (start + l.chars.length)
  | .binary op false l r =>
    l.tokens start ++ ⟨.operator op, op.symbol, start + l.chars.length⟩ ::
      r.tokens (start + l.chars.length + op.symbol.toList.length)
  | .call name args =>
    ⟨.identifier, name, start⟩ :: ⟨.openParen, "(", start + name.toList.length⟩ ::
      (tokensOf (start + name.toList.length + 1) args ++
        [⟨.closeParen, ")", start + name.toList.length + 1 + (listed args).length⟩])
  | .paren f =>
    ⟨.openParen, "(", start⟩ ::
      (f.tokens (start + 1) ++ [⟨.closeParen, ")", start + 1 + f.chars.length⟩])

/-- The tokens of several forms with commas between them. -/
def tokensOf (start : Nat) : List Form → List Token
  | [] => []
  | [f] => f.tokens start
  | f :: fs =>
    f.tokens start ++ ⟨.comma, ",", start + f.chars.length⟩ ::
      ⟨.space, " ", start + f.chars.length + 1⟩ :: tokensOf (start + f.chars.length + 2) fs

end

/-- The last token of a form. -/
def last (start : Nat) : Form → Token
  | .number n => ⟨.number n.decimal, String.ofList n.chars, start⟩
  | .word name => ⟨.identifier, name, start⟩
  | .signed _ f => f.last (start + 1)
  | .binary _ true l r => r.last (start + l.chars.length)
  | .binary op false l r => r.last (start + l.chars.length + op.symbol.toList.length)
  | .call name args =>
    ⟨.closeParen, ")", start + name.toList.length + 1 + (listed args).length⟩
  | .paren f => ⟨.closeParen, ")", start + 1 + f.chars.length⟩

mutual

/-- The form is read as its tree. -/
def WellFormed (v : Vocabulary) : Form → Prop
  | .number _ => True
  | .word name =>
    IsName name ∧ (v.isKnown name = true ∨ name.toList.length = 1) ∧
      (v.isFunction name = true → v.isKnown name = true)
  | .signed _ f => f.WellFormed v ∧ Binding.unary ≤ f.binding
  | .binary op attached l r =>
    l.WellFormed v ∧ r.WellFormed v ∧ Parser.leftBinding op ≤ l.binding ∧
      Parser.rightBinding op ≤ r.binding ∧
      (attached = true → op = .times ∧ l.final.adjoins r.first = true)
  | .call name args => IsName name ∧ v.isFunction name = true ∧ AllWellFormed v args
  | .paren f => f.WellFormed v

/-- All of several forms are well-formed. -/
def AllWellFormed (v : Vocabulary) : List Form → Prop
  | [] => True
  | f :: fs => f.WellFormed v ∧ AllWellFormed v fs

end

mutual

/-- The form is read, though a word of it may be cut into several names. -/
def Readable (v : Vocabulary) : Form → Prop
  | .number _ => True
  | .word name => IsName name ∧ (v.isFunction name = true → v.isKnown name = true)
  | .signed _ f => f.Readable v ∧ Binding.unary ≤ f.binding
  | .binary op attached l r =>
    l.Readable v ∧ r.Readable v ∧ Parser.leftBinding op ≤ l.binding ∧
      Parser.rightBinding op ≤ r.binding ∧
      (attached = true → op = .times ∧ l.final.adjoins r.first = true)
  | .call name args => IsName name ∧ v.isCalled name = true ∧ AllReadable v args
  | .paren f => f.Readable v

/-- All of several forms are readable. -/
def AllReadable (v : Vocabulary) : List Form → Prop
  | [] => True
  | f :: fs => f.Readable v ∧ AllReadable v fs

end

mutual

/-- The tree that a form is read as. -/
def read (v : Vocabulary) : Form → Expr
  | .number n => .literal n.decimal true
  | .word name => v.productOfNames name
  | .signed sign f => .unary sign (f.read v)
  | .binary op attached l r => .binary op attached (l.read v) (r.read v)
  | .call name args => v.called name (reads v args)
  | .paren f => f.read v

/-- The trees that several forms are read as. -/
def reads (v : Vocabulary) : List Form → List Expr
  | [] => []
  | f :: fs => f.read v :: reads v fs

end

/-- A whole name is not cut. -/
theorem pieces_word {v : Vocabulary} {name : String}
    (whole : v.isKnown name = true ∨ name.toList.length = 1) : v.pieces name = [name] := by
  unfold Vocabulary.pieces
  split
  next => rfl
  next unknown =>
    obtain ⟨c, single⟩ := List.length_eq_one_iff.1 (whole.resolve_left unknown)
    have name_eq : String.singleton c = name := by
      rw [← String.ofList_toList (s := name), single]
      rfl
    rw [single, Vocabulary.cut]
    simp [Vocabulary.longestKnown?, Vocabulary.cut, name_eq]

theorem productOfNames_word {v : Vocabulary} {name : String}
    (whole : v.isKnown name = true ∨ name.toList.length = 1) :
    v.productOfNames name = .var name := by
  rw [Vocabulary.productOfNames, pieces_word whole]
  rfl

mutual

theorem WellFormed.readable {v : Vocabulary} : ∀ {f : Form}, f.WellFormed v → f.Readable v
  | .number _, _ => trivial
  | .word _, ⟨isName, _, known⟩ => ⟨isName, known⟩
  | .signed _ _, ⟨operand, tight⟩ => ⟨operand.readable, tight⟩
  | .binary _ _ _ _, ⟨left, right, rest⟩ => ⟨left.readable, right.readable, rest⟩
  | .call _ _, ⟨isName, isFunction, all⟩ =>
    ⟨isName, by simp [Vocabulary.isCalled, isFunction], all.readable⟩
  | .paren f, inner => WellFormed.readable (f := f) inner

theorem AllWellFormed.readable {v : Vocabulary} :
    ∀ {fs : List Form}, AllWellFormed v fs → AllReadable v fs
  | [], _ => trivial
  | _ :: _, ⟨head, all⟩ => ⟨head.readable, all.readable⟩

end

mutual

/-- The words of a well-formed text are not cut. -/
theorem WellFormed.read_eq {v : Vocabulary} : ∀ {f : Form}, f.WellFormed v → f.read v = f.tree
  | .number _, _ => rfl
  | .word _, ⟨_, whole, _⟩ => productOfNames_word whole
  | .signed _ _, ⟨operand, _⟩ => by rw [read, operand.read_eq, tree]
  | .binary _ _ _ _, ⟨left, right, _⟩ => by rw [read, left.read_eq, right.read_eq, tree]
  | .call _ _, ⟨_, isFunction, all⟩ => by
    rw [read, Vocabulary.called, if_pos isFunction, all.reads_eq, tree]
  | .paren f, inner => WellFormed.read_eq (f := f) inner

theorem AllWellFormed.reads_eq {v : Vocabulary} :
    ∀ {fs : List Form}, AllWellFormed v fs → reads v fs = trees fs
  | [], _ => rfl
  | _ :: _, ⟨head, all⟩ => by rw [reads, head.read_eq, all.reads_eq, trees]

end

/-- Arguments as they stand in a call. -/
theorem listed_eq_intercalate : ∀ {fs : List Form} {texts : List String},
    List.Forall₂ (fun f text => f.chars = text.toList) fs texts →
      listed fs = (", ".intercalate texts).toList
  | _, _, .nil => by simp [listed]
  | _, _, .cons text .nil => by simpa [listed] using text
  | f :: g :: fs, _, .cons text (.cons text' rest) => by
    change f.chars ++ (',' :: ' ' :: listed (g :: fs)) = _
    rw [listed_eq_intercalate (.cons text' rest), text, String.intercalate_cons_cons,
      String.toList_append, String.toList_append, List.append_assoc]
    rfl

/-! ## Operators and their operands -/

open Reckon.Parser

theorem lt_atom (op : Operator) : op.binding < Binding.atom := by
  cases op <;> decide

/-- No operator binds like a sign. -/
theorem lt_unary {op : Operator} (follows : leftBinding op ≤ Binding.unary) :
    op.binding < Binding.unary := by
  cases op <;> revert follows <;> decide

theorem lt_rightBinding {op op' : Operator} (follows : leftBinding op ≤ op'.binding) :
    op.binding < rightBinding op' := by
  cases op <;> cases op' <;> revert follows <;> decide

theorem leftBinding_le_of_lt {op : Operator} {bound : Binding} (less : op.binding < bound) :
    leftBinding op ≤ bound := by
  unfold leftBinding
  split
  next => exact less.le
  next => exact less

theorem rightBinding_le_of_lt {op : Operator} {bound : Binding} (less : op.binding < bound) :
    rightBinding op ≤ bound := by
  unfold rightBinding
  split
  next => exact less
  next => exact less.le

theorem binding_le_leftBinding (op : Operator) : op.binding ≤ leftBinding op := by
  cases op <;> decide

theorem binding_le_rightBinding (op : Operator) : op.binding ≤ rightBinding op := by
  cases op <;> decide

end Form

end Reckon
