import Reckon.Proofs.Expr.Words
import Reckon.Proofs.Token

/-!
# What a tree is made of

The yield of a tree lists its numbers, names and written signs from left to right, names character
by character. Blanks, parentheses, brackets, commas and the equals sign have no place in a tree and
no pieces.

Cutting a word, collapsing brackets and taking the head of a definition apart keep the pieces in
their order (`yield_productOfNames`, `yield_bracketOf`, `pieces_definitionHead?`).
-/

namespace Reckon

/-- A part of a text that has a place in the tree. -/
inductive Piece where
  | number (value : Decimal)
  | letter (c : Char)
  | mark (symbol : String)
deriving DecidableEq

/-- The characters of a name. -/
def Piece.letters (name : String) : List Piece :=
  name.toList.map .letter

/-- What a token brings into the tree. -/
def Token.pieces (t : Token) : List Piece :=
  match t.kind with
  | .number n => [.number n]
  | .identifier => Piece.letters t.text
  | .operator _ => [.mark t.text]
  | _ => []

namespace Expr

mutual

/-- The pieces of a tree from left to right. -/
def yield : Expr → List Piece
  | literal n _ => [.number n]
  | var name => Piece.letters name
  | unary sign e => .mark sign.symbol :: e.yield
  | binary op attached l r =>
    l.yield ++ ((if attached then [] else [.mark op.symbol]) ++ r.yield)
  | call name args => Piece.letters name ++ yieldAll args
  | definition name params body _ =>
    Piece.letters name ++ (params.flatMap Piece.letters ++ body.yield)
  | vector es => yieldAll es
  | matrix rows => yieldAll rows
  | empty => []

/-- The pieces of several trees. -/
def yieldAll : List Expr → List Piece
  | [] => []
  | e :: es => e.yield ++ yieldAll es

end

theorem yieldAll_append (es fs : List Expr) : yieldAll (es ++ fs) = yieldAll es ++ yieldAll fs := by
  induction es with
  | nil => rfl
  | cons e es ih => rw [List.cons_append, yieldAll, yieldAll, ih, List.append_assoc]

theorem yieldAll_singleton (e : Expr) : yieldAll [e] = e.yield :=
  List.append_nil _

/-- Vectors around rows do not show. -/
theorem yieldAll_map_vector (rows : List (List Expr)) :
    yieldAll (rows.map .vector) = rows.flatMap yieldAll := by
  induction rows with
  | nil => rfl
  | cons es rows ih => rw [List.map_cons, yieldAll, ih, List.flatMap_cons, yield]

end Expr

/-! ## Names -/

namespace Piece

theorem letters_ofList (cs : List Char) : letters (String.ofList cs) = cs.map .letter := by
  rw [letters, String.toList_ofList]

end Piece

namespace Vocabulary

variable (v : Vocabulary)

theorem letters_cut (cs : List Char) : (v.cut cs).flatMap Piece.letters = cs.map .letter := by
  induction cs using Vocabulary.cut.induct v with
  | case1 =>
    rw [cut]
    rfl
  | case2 c rest n found ih =>
    obtain ⟨long, -, -⟩ := longestKnown?_eq_some found
    obtain ⟨k, rfl⟩ := Nat.exists_eq_add_of_le' (Nat.one_le_of_lt long)
    rw [cut, found]
    dsimp only
    rw [List.flatMap_cons, ih, Piece.letters_ofList, ← List.map_append, List.take_succ_cons,
      Nat.add_sub_cancel, List.cons_append, List.take_append_drop]
  | case3 c rest none ih =>
    have single : c.toString.toList = [c] := by simp [Char.toString]
    rw [cut, none]
    dsimp only
    rw [List.flatMap_cons, ih, Piece.letters, single]
    rfl

theorem letters_pieces (name : String) :
    (v.pieces name).flatMap Piece.letters = Piece.letters name := by
  unfold pieces
  split
  · exact List.append_nil _
  · exact v.letters_cut name.toList

/-- The product of the names in a word has the characters of the word. -/
theorem yield_productOfNames (name : String) :
    (v.productOfNames name).yield = Piece.letters name := by
  have joined : ∀ (names : List String) (e : Expr),
      (names.foldl (fun e name => .juxtaposed e (.var name)) e).yield =
        e.yield ++ names.flatMap Piece.letters := by
    intro names
    induction names with
    | nil => exact fun e => (List.append_nil _).symm
    | cons name names ih =>
      intro e
      rw [List.foldl_cons, ih, List.flatMap_cons, ← List.append_assoc]
      rfl
  unfold productOfNames
  split
  next => rfl
  next first others shape => rw [joined, ← v.letters_pieces, shape, List.flatMap_cons, Expr.yield]

theorem letters_functionEnding? {name front function : String}
    (found : v.functionEnding? [] name.toList = some (front, function)) :
    Piece.letters front ++ Piece.letters function = Piece.letters name := by
  obtain ⟨-, -, -, whole⟩ := functionEnding?_eq_some found
  rw [Piece.letters, Piece.letters, ← List.map_append, whole, List.nil_append, Piece.letters]

end Vocabulary

namespace Parser

/-! ## Brackets -/

theorem yield_matrixOf {rows : List Expr} {first last : Nat} {e : Expr}
    (done : matrixOf rows first last = .ok e) : e.yield = Expr.yieldAll rows := by
  unfold matrixOf at done
  split at done
  next =>
    cases done
    rfl
  next =>
    dsimp only at done
    split at done
    · cases done
    split at done
    · cases done
    cases done
    rfl

/-- Whatever brackets collapse into, the elements stay in their order. -/
theorem yield_bracketOf {rows : List (List Expr)} {first last : Nat} {e : Expr}
    (done : bracketOf rows first last = .ok e) : e.yield = rows.flatMap Expr.yieldAll := by
  unfold bracketOf at done
  split at done
  next inner =>
    cases done
    rw [List.flatMap_singleton, Expr.yieldAll_singleton]
  next es _ =>
    rw [List.flatMap_singleton]
    split at done
    · exact yield_matrixOf done
    · cases done
      rfl
  next => rw [yield_matrixOf done, Expr.yieldAll_map_vector]

/-! ## Tokens -/

/-- The pieces of tokens, in order. -/
def pieces (ts : List Token) : List Piece :=
  ts.flatMap Token.pieces

theorem pieces_cons (t : Token) (ts : List Token) : pieces (t :: ts) = t.pieces ++ pieces ts :=
  List.flatMap_cons

theorem pieces_skipBlanks (ts : List Token) : pieces (skipBlanks ts) = pieces ts := by
  induction ts with
  | nil => rfl
  | cons t ts ih =>
    rw [skipBlanks]
    split
    next blank =>
      rw [Token.isSpace, beq_iff_eq] at blank
      rw [ih, pieces_cons, Token.pieces, blank, List.nil_append]
    next => rfl

theorem pieces_of_skipBlanks {ts ts' : List Token} {t : Token} (shape : skipBlanks ts = t :: ts') :
    pieces ts = t.pieces ++ pieces ts' := by
  rw [← pieces_skipBlanks, shape, pieces_cons]

/-! ## Heads of definitions -/

theorem Parameters.pieces_eq {ts rest : List Token} {params : List String}
    (read : Parameters ts params rest) :
    params.flatMap Piece.letters ++ pieces rest = pieces ts := by
  induction read with
  | last first named second closes third ends =>
    rw [pieces_of_skipBlanks first, pieces_of_skipBlanks second, pieces_of_skipBlanks third]
    simp [Token.pieces, named, closes, ends]
  | cons first named second parts others ih =>
    rw [List.flatMap_cons, List.append_assoc, ih, pieces_of_skipBlanks first,
      pieces_of_skipBlanks second]
    simp [Token.pieces, named, parts]

/-- The name, the parameters and what follows the head of a definition. -/
theorem pieces_definitionHead? {ts rest : List Token} {name : Token} {params : List String}
    (found : definitionHead? ts = some (name, params, rest)) :
    Piece.letters name.text ++ (params.flatMap Piece.letters ++ pieces rest) = pieces ts := by
  cases head_of_definitionHead? found with
  | empty first named second opens third closes fourth ends =>
    rw [pieces_of_skipBlanks first, pieces_of_skipBlanks second, pieces_of_skipBlanks third,
      pieces_of_skipBlanks fourth]
    simp [Token.pieces, named, opens, closes, ends]
  | parameters first named second opens read =>
    rw [read.pieces_eq, pieces_of_skipBlanks first, pieces_of_skipBlanks second]
    simp [Token.pieces, named, opens]

end Parser

end Reckon
