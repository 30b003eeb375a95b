import Reckon.Expr.Parser

/-!
# How deeply reading is nested

Every reader that is entered takes a frame, and those that it enters take theirs on top of it: a
parenthesis nests four readers, a call or a bracket five, a sign two, a right operand one. What is
read in a loop is not nested. `Parser.expression` and the others take as many frames as they need;
`Vocabulary.readsWithin` tells whether a number of frames is enough for a text, up to its first
fault.
-/

namespace Reckon

/-- The frames that reading may take. They stand for what the interpreter grants by default: a
setting of its own and not of the program, so that results hold for any number of frames. -/
def frameLimit : Nat := 1000

/-- With a parenthesis after it, the word is a call or a product that ends in one. -/
def Vocabulary.isCalled (v : Vocabulary) (word : String) : Bool :=
  v.isFunction word || (v.functionEnding? [] word.toList).isSome ||
    !(v.pieces word).all v.isKnown

namespace Parser

/-- The reader fails, or the state that it leaves has the property. -/
def Result.leaves {α : Type} {n : Nat} (result : Result α n)
    (p : (st : State) → st.size < n → Bool) : Bool :=
  match result with
  | .error _ => true
  | .ok (_, ⟨st, h⟩) => p st h

/-- The state behind an operator; behind one that is unwritten it is the same. -/
def pastOperator (unwritten : Bool) (st : State) : { st' : State // st'.size ≤ st.size } :=
  if unwritten then ⟨st, Nat.le_refl _⟩
  else
    match next st with
    | none => ⟨st, Nat.le_refl _⟩
    | some (_, ⟨st', h⟩) => ⟨st', Nat.le_of_lt h⟩

mutual

/-- The frames are enough for an expression. -/
def expressionFits (v : Vocabulary) (stop : Nat) (spaced : Bool) (least : Binding) (frames : Nat)
    (st : State) : Bool :=
  match frames with
  | 0 => false
  | frames + 1 =>
    operandFits v stop spaced frames st &&
      (operand v stop spaced st).leaves fun st₁ _ => chainFits v stop spaced least frames st₁
termination_by 8 * st.size + 4

/-- The frames are enough for each of the right operands that follow. -/
def chainFits (v : Vocabulary) (stop : Nat) (spaced : Bool) (least : Binding) (frames : Nat)
    (st : State) : Bool :=
  match upcoming spaced st with
  | .ok (some (op, unwritten)) =>
    if op.binding < least then true
    else
      match pastOperator unwritten st with
      | ⟨st₀, _⟩ =>
        expressionFits v stop spaced (rightBinding op) frames st₀ &&
          (expression v stop spaced (rightBinding op) st₀).leaves fun st₁ _ =>
            chainFits v stop spaced least frames st₁
  | _ => true
termination_by 8 * st.size + 5

/-- The frames are enough for an operand with its signs. That there is none is found one reader
deeper. -/
def operandFits (v : Vocabulary) (stop : Nat) (spaced : Bool) (frames : Nat) (st : State) : Bool :=
  match frames with
  | 0 => false
  | frames + 1 =>
    match next st with
    | none => 0 < frames
    | some (t, ⟨st₁, _⟩) =>
      if (signOf? t).isSome then expressionFits v stop spaced Binding.unary frames st₁
      else primaryFits v stop spaced t frames st₁
termination_by 8 * st.size + 3

/-- The frames are enough for an operand that begins with the token `t`. What is in parentheses
has a reader of its own; a bracket has one, and each of its rows. -/
def primaryFits (v : Vocabulary) (stop : Nat) (spaced : Bool) (t : Token) (frames : Nat)
    (st : State) : Bool :=
  match frames with
  | 0 => false
  | frames + 1 =>
    match t.kind with
    | .identifier => identifierFits v stop spaced t frames st
    | .openParen => expressionFits v stop false 0 (frames - 1) st
    | .openBracket =>
      1 < frames && rowFits v stop false false (frames - 2) st &&
        (row v stop t [] false st).leaves fun st₁ _ => moreRowsFit v stop spaced (frames - 2) st₁
    | _ => true
termination_by 8 * st.size + 8

/-- The frames are enough for a name, with its arguments if it is called. -/
def identifierFits (v : Vocabulary) (stop : Nat) (spaced : Bool) (t : Token) (frames : Nat)
    (st : State) : Bool :=
  match frames with
  | 0 => false
  | frames + 1 =>
    if (adjacent spaced st).any (·.kind == .openParen) && v.isCalled t.text then
      callFits v stop frames st
    else true
termination_by 8 * st.size + 1

/-- The frames are enough for a call, from its opening parenthesis on. -/
def callFits (v : Vocabulary) (stop : Nat) (frames : Nat) (st : State) : Bool :=
  match frames with
  | 0 => false
  | frames + 1 =>
    match next st with
    | none => true
    | some (_, ⟨st₁, _⟩) =>
      match next st₁ with
      | some (⟨.closeParen, _, _⟩, _) => true
      | _ => argumentsFit v stop frames st₁
termination_by 8 * st.size

/-- The frames are enough for each of the arguments. -/
def argumentsFit (v : Vocabulary) (stop : Nat) (frames : Nat) (st : State) : Bool :=
  expressionFits v stop false 0 frames st &&
    (expression v stop false 0 st).leaves fun st₁ _ =>
      match next st₁ with
      | some (⟨.comma, _, _⟩, ⟨st₂, _⟩) => argumentsFit v stop frames st₂
      | _ => true
termination_by 8 * st.size + 5

/-- The frames are enough for each of the elements of a row; `begun` says that there is one
already, and `wanted` that a comma was read last. -/
def rowFits (v : Vocabulary) (stop : Nat) (begun wanted : Bool) (frames : Nat) (st : State) :
    Bool :=
  match next st with
  | none => true
  | some (t, ⟨st₁, _⟩) =>
    match t.kind with
    | .closeBracket => true
    | .comma => wanted || !begun || rowFits v stop true true frames st₁
    | _ =>
      expressionFits v stop true 0 frames st &&
        (expression v stop true 0 st).leaves fun st₂ _ => rowFits v stop true false frames st₂
termination_by 8 * st.size + 6

/-- The frames are enough for each of the rows that follow. -/
def moreRowsFit (v : Vocabulary) (stop : Nat) (spaced : Bool) (frames : Nat) (st : State) : Bool :=
  if (adjacent spaced st).any (·.kind == .openBracket) then
    match next st with
    | none => true
    | some (opening, ⟨st₁, _⟩) =>
      rowFits v stop false false frames st₁ &&
        (row v stop opening [] false st₁).leaves fun st₂ _ => moreRowsFit v stop spaced frames st₂
  else true
termination_by 8 * st.size + 7

end

/-- The frames are enough for a list of tokens. The body of a definition is read one reader
deeper. -/
def tokensFit (v : Vocabulary) (stop frames : Nat) (tokens : List Token) : Bool :=
  if (skipBlanks tokens).isEmpty then true
  else
    match definitionHead? tokens with
    | some (_, params, rest) =>
      (skipBlanks rest).isEmpty ||
        expressionFits (v.extend params) stop false 0 (frames - 1) ⟨none, rest⟩
    | none => expressionFits v stop false 0 frames ⟨none, tokens⟩

end Parser

/-- The frames are enough to read the text. -/
def Vocabulary.readsWithin (v : Vocabulary) (frames : Nat) (source : String) : Bool :=
  match scan source with
  | .error _ => true
  | .ok tokens => Parser.tokensFit v source.length frames tokens

end Reckon
